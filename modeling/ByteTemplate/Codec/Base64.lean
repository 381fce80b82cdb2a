import ByteTemplate.Directive
import ByteTemplate.Value

/-!
# Base64

Writing wraps the text in lines that hold a multiple of three bytes each.  Reading skips
characters outside the alphabet, stops after the first group of four symbols that has padding,
and drops an incomplete group at the end.
-/

namespace ByteTemplate.Base64

def symbol (n : Nat) : UInt8 :=
  if n < 26 then UInt8.ofNat (0x41 + n)
  else if n < 52 then UInt8.ofNat (0x47 + n)
  else if n < 62 then UInt8.ofNat (n - 4)
  else if n = 62 then 0x2B
  else 0x2F

def padding : UInt8 := 0x3D

def value? (b : UInt8) : Option Nat :=
  let n := b.toNat
  if 0x41 ≤ n ∧ n ≤ 0x5A then some (n - 0x41)
  else if 0x61 ≤ n ∧ n ≤ 0x7A then some (n - 0x47)
  else if 0x30 ≤ n ∧ n ≤ 0x39 then some (n + 4)
  else if n = 0x2B then some 62
  else if n = 0x2F then some 63
  else none

inductive Symbol where
  | value (n : Nat)
  | padding
  deriving DecidableEq, Repr

namespace Symbol

def ofByte? (b : UInt8) : Option Symbol :=
  if b = Base64.padding then some .padding else (value? b).map .value

def bits : Symbol → Nat
  | .value n => n
  | .padding => 0

end Symbol

theorem value?_symbol {n : Nat} (h : n < 64) : value? (symbol n) = some n := by
  have all : ∀ k : Fin 64, value? (symbol k.val) = some k.val := by decide
  exact all ⟨n, h⟩

def encodeLine : Bytes → Bytes
  | [] => []
  | [a] => [symbol (a.toNat / 4), symbol (a.toNat % 4 * 16), padding, padding]
  | [a, b] =>
      [symbol (a.toNat / 4), symbol (a.toNat % 4 * 16 + b.toNat / 16),
        symbol (b.toNat % 16 * 4), padding]
  | a :: b :: c :: rest =>
      symbol (a.toNat / 4) :: symbol (a.toNat % 4 * 16 + b.toNat / 16)
        :: symbol (b.toNat % 16 * 4 + c.toNat / 64) :: symbol (c.toNat % 64)
        :: encodeLine rest

def defaultLineBytes : Int := 45

def lineBytes : Option Int → Int
  | none => defaultLineBytes
  | some n => if n = 1 ∨ n = 2 then defaultLineBytes else n - n % 3

/-- Cuts bytes into pieces of `width`; `fuel` bounds their number. -/
def pieces (width : Nat) : Nat → Bytes → List Bytes
  | 0, _ => []
  | fuel + 1, bs => if bs.isEmpty then [] else bs.take width :: pieces width fuel (bs.drop width)

/-- A line of negative length holds nothing, so then nothing is written. -/
def encode (count : Option Int) (source : Bytes) : Bytes :=
  match lineBytes count with
  | .ofNat 0 => encodeLine source
  | .ofNat width => (pieces width source.length source).flatMap fun line => encodeLine line ++ [0x0A]
  | .negSucc _ => []

def takeSymbols : Nat → Bytes → List Symbol × Bytes
  | 0, data => ([], data)
  | _ + 1, [] => ([], [])
  | count + 1, b :: data =>
      match Symbol.ofByte? b with
      | none => takeSymbols (count + 1) data
      | some s =>
          let (symbols, rest) := takeSymbols count data
          (s :: symbols, rest)

/-- The bytes of a group of four symbols: three, less one for each padding but never none. -/
def groupBytes : List Symbol → Bytes
  | [a, b, c, d] =>
      let bytes :=
        [UInt8.ofNat (a.bits * 4 + b.bits / 16), UInt8.ofNat (b.bits % 16 * 16 + c.bits / 4),
          UInt8.ofNat (c.bits % 4 * 64 + d.bits)]
      bytes.take (max 1 (3 - [a, b, c, d].count .padding))
  | _ => []

/-- The bytes of the groups at the start of the data, and the data after them.  A group is
looked for only where four bytes are left. -/
def decodeGroups : Nat → Bytes → Bytes × Bytes
  | 0, data => ([], data)
  | fuel + 1, data =>
      if (data.drop 3).isEmpty then ([], data)
      else
        let (symbols, rest) := takeSymbols 4 data
        if symbols.length < 4 then ([], rest)
        else if symbols.contains .padding then (groupBytes symbols, rest)
        else
          let (more, last) := decodeGroups fuel rest
          (groupBytes symbols ++ more, last)

def decode (data : Bytes) : Bytes × Nat :=
  let (bytes, rest) := decodeGroups data.length data
  (bytes, data.length - rest.length)

end ByteTemplate.Base64
