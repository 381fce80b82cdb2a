import ByteTemplate.Codec.Padded

/-!
# Strings in padded fields

What is left of a string that was cut or padded to its field and read back.  A field of fixed
width is read back whatever follows it, and so is a terminated string.
-/

namespace ByteTemplate.Padded

def strip (padding : Padding) (field : Bytes) : Bytes :=
  match padding with
  | .spaces => trimEnd field
  | .nulls => field
  | .terminated => field.takeWhile (· != 0)

/-- What a field keeps of a string: as much of it as fits, filled up where the filler counts. -/
def kept (padding : Padding) (count : Option Nat) (source : Bytes) : Bytes :=
  let field := match count with
    | none => source
    | some n => source.take n
  match padding with
  | .nulls => field ++ List.replicate (count.getD 0 - field.length) 0
  | padding => strip padding field

theorem encode_some (padding : Padding) (n : Nat) (source : Bytes) :
    encode padding (some n) source =
      source.take n ++ List.replicate (n - source.length) (filler padding) := by
  simp only [encode]
  split
  · next fits =>
      have none_missing : n - source.length = 0 := by omega
      simp [cut, none_missing]
  · next short =>
      rw [List.take_of_length_le (by omega)]
      simp

theorem decode_some (padding : Padding) (n : Nat) (data : Bytes) :
    decode padding (some n) data =
      (strip padding (data.take n), ((min n data.length : Nat) : Int)) := by
  have size : (min n data.length : Int) = ((min n data.length : Nat) : Int) := by omega
  have field : cut ((min n data.length : Nat) : Int) data = data.take n := by
    change data.take (min n data.length) = data.take n
    rw [List.take_eq_take_iff]
    omega
  cases padding <;> simp only [decode, size, field, strip, reduceCtorEq, and_false, if_false]

theorem decode_take (padding : Padding) {n k : Nat} (within : n ≤ k) (data : Bytes) :
    decode padding (some n) (data.take k) = decode padding (some n) data := by
  have size : min n (min k data.length) = min n data.length := by omega
  rw [decode_some, decode_some, List.take_take, Nat.min_eq_left within, List.length_take, size]

theorem size_decode_le (padding : Padding) (count : Option Nat) (data : Bytes) :
    (decode padding (count.map Int.ofNat) data).2 ≤ data.length := by
  cases count with
  | some n =>
      simp only [Option.map_some, Int.ofNat_eq_natCast, decode_some]
      omega
  | none =>
      have all : cut data.length data = data := List.take_length
      cases padding with
      | terminated =>
          simp only [Option.map_none, decode, all]
          split <;> dsimp only <;> omega
      | _ => exact Int.le_refl _

private theorem trimEnd_append_spaces (bs : Bytes) (k : Nat) :
    trimEnd (bs ++ List.replicate k 0x20) = trimEnd bs := by
  have space : isTrimmed 0x20 = true := by decide
  have dropped : (List.replicate k (0x20 : UInt8) ++ bs.reverse).dropWhile isTrimmed =
      bs.reverse.dropWhile isTrimmed := by
    apply List.dropWhile_append_of_pos
    intro b mem
    rw [List.eq_of_mem_replicate mem]
    exact space
  rw [trimEnd, trimEnd, List.reverse_append, List.reverse_replicate, dropped]

theorem trimEnd_eq_self {source : Bytes}
    (h : ∀ b ∈ source.getLast?, isTrimmed b = false) : trimEnd source = source := by
  rw [List.getLast?_eq_head?_reverse] at h
  unfold trimEnd
  cases reversed : source.reverse with
  | nil => simpa using reversed.symm
  | cons b rest =>
      rw [reversed] at h
      rw [List.dropWhile_cons_of_neg (by simp [h b rfl]), ← reversed, List.reverse_reverse]

theorem takeWhile_append_zero (bs rest : Bytes) :
    (bs ++ 0 :: rest).takeWhile (· != 0) = bs.takeWhile (· != 0) := by
  induction bs with
  | nil => simp
  | cons b bs ih => by_cases h : b = 0 <;> simp [h, ih]

private theorem takeWhile_append_nulls (bs : Bytes) (k : Nat) :
    (bs ++ List.replicate k 0).takeWhile (· != 0) = bs.takeWhile (· != 0) := by
  cases k with
  | zero => simp
  | succ k => exact takeWhile_append_zero bs _

private theorem strip_encode_some (padding : Padding) (n : Nat) (source : Bytes) :
    strip padding (encode padding (some n) source) = kept padding (some n) source := by
  rw [encode_some]
  cases padding with
  | spaces => exact trimEnd_append_spaces _ _
  | terminated => exact takeWhile_append_nulls _ _
  | nulls =>
      have missing : n - (source.take n).length = n - source.length := by
        rw [List.length_take]
        omega
      simp only [strip, kept, Option.getD_some, missing, filler]

theorem decode_encode_append (padding : Padding) (n : Nat) (source rest : Bytes) :
    decode padding (some n) (encode padding (some n) source ++ rest) =
      (kept padding (some n) source, (n : Int)) := by
  have width := length_encode padding n source
  rw [decode_some, List.take_left' width, strip_encode_some, List.length_append, width]
  simp

theorem decode_encode_all {padding : Padding} (h : padding ≠ .terminated) (source : Bytes) :
    decode padding none (encode padding none source) =
      (kept padding none source, (source.length : Int)) := by
  have field : cut source.length source = source := List.take_length
  cases padding with
  | terminated => exact absurd rfl h
  | spaces => simp [encode, decode, kept, strip, field]
  | nulls => simp [encode, decode, kept, field]

theorem encode_decode_nulls {count : Option Nat} {data : Bytes} {size : Int} {field : Bytes}
    (read : decode .nulls (count.map Int.ofNat) data = (field, size))
    (full : ∀ n ∈ count, field.length = n) :
    encode .nulls (count.map Int.ofNat) field = data.take size.toNat := by
  cases count with
  | none =>
      have all : cut data.length data = data := List.take_length
      simp only [Option.map_none, decode, all, Prod.mk.injEq] at read
      obtain ⟨rfl, rfl⟩ := read
      simp [encode]
  | some n =>
      have length := full n rfl
      simp only [Option.map_some, Int.ofNat_eq_natCast, decode_some, strip, Prod.mk.injEq] at read
      obtain ⟨rfl, rfl⟩ := read
      rw [List.length_take] at length
      simp only [Option.map_some, Int.ofNat_eq_natCast, encode_some, List.take_take,
        List.length_take, Int.toNat_natCast]
      simp [length]

theorem decode_encode_terminated (source rest : Bytes) :
    decode .terminated none (encode .terminated none source ++ rest) =
      (kept .terminated none source, ((kept .terminated none source).length + 1 : Int)) := by
  have field : cut (source ++ 0 :: rest).length (source ++ 0 :: rest) = source ++ 0 :: rest :=
    List.take_length
  have shorter : (source.takeWhile (· != 0)).length < (source ++ 0 :: rest).length := by
    have bound := (List.takeWhile_sublist (l := source) (· != 0)).length_le
    rw [List.length_append, List.length_cons]
    omega
  simp only [encode, if_true, List.append_assoc, List.singleton_append, decode, field,
    takeWhile_append_zero, kept, strip]
  rw [if_pos ⟨shorter, trivial⟩]

theorem kept_terminated_of_no_null {source : Bytes} (h : 0 ∉ source) :
    kept .terminated none source = source := by
  change source.takeWhile (· != 0) = source
  induction source with
  | nil => rfl
  | cons b bs ih =>
      simp only [List.mem_cons, not_or] at h
      rw [List.takeWhile_cons_of_pos (by simpa using Ne.symm h.1), ih h.2]

end ByteTemplate.Padded
