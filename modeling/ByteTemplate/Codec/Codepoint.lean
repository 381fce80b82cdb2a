import ByteTemplate.Error
import ByteTemplate.Value

/-!
# Code points in UTF-8

Numbers up to 21 bits, surrogates included, are written as sequences of one to four bytes.
Reading takes the shortest sequence of a number only.
-/

namespace ByteTemplate.Codepoint

def bound : Nat := 0x200000

def continuation (n : Nat) : UInt8 :=
  UInt8.ofNat (0x80 + n % 0x40)

def bytes (n : Nat) : Bytes :=
  if n < 0x80 then [UInt8.ofNat n]
  else if n < 0x800 then [UInt8.ofNat (0xC0 + n / 0x40), continuation n]
  else if n < 0x10000 then
    [UInt8.ofNat (0xE0 + n / 0x1000), continuation (n / 0x40), continuation n]
  else
    [UInt8.ofNat (0xF0 + n / 0x40000), continuation (n / 0x1000), continuation (n / 0x40),
      continuation n]

def encode (n : Int) : Except Error Bytes :=
  if 0 ≤ n ∧ n < bound then .ok (bytes n.toNat) else .error .codepointOutOfRange

def sequenceLength? (lead : Nat) : Option Nat :=
  if lead < 0x80 then some 1
  else if lead < 0xC0 then none
  else if lead < 0xE0 then some 2
  else if lead < 0xF0 then some 3
  else if lead < 0xF8 then some 4
  else none

def least : Nat → Nat
  | 2 => 0x80
  | 3 => 0x800
  | 4 => 0x10000
  | _ => 0

/-- Appends six bits for each continuation byte, none when a byte is of another kind. -/
def extend? (n : Nat) : Bytes → Option Nat
  | [] => some n
  | b :: bs =>
      if 0x80 ≤ b.toNat ∧ b.toNat < 0xC0 then extend? (n * 0x40 + b.toNat % 0x40) bs else none

/-- The number at the start of the data and the bytes it takes.  No data gives no number and
counts as one byte. -/
def decode : Bytes → Except Error (Option Nat × Nat)
  | [] => .ok (none, 1)
  | lead :: rest =>
      match sequenceLength? lead.toNat with
      | none => .error .malformedSequence
      | some 1 => .ok (some lead.toNat, 1)
      | some length =>
          if rest.length + 1 < length then .error (.shortSequence length (rest.length + 1))
          else
            match extend? (lead.toNat % 2 ^ (7 - length)) (rest.take (length - 1)) with
            | none => .error .malformedSequence
            | some n =>
                if n < least length then .error .redundantSequence else .ok (some n, length)

end ByteTemplate.Codepoint
