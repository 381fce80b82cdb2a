import ByteTemplate.Codec.Nibbles
import ByteTemplate.Proofs.Text.Utf8

/-!
# Hexadecimal strings in fields

What is left of a string of hexadecimal digits that was packed and read back: its digits in
lower case, as many as the field holds.
-/

namespace ByteTemplate.Nibbles

def fitted (width : Nat) (source : Bytes) : List Nat :=
  (source.take width).map digitValue ++ List.replicate (width - source.length) 0

/-- What a field keeps of a string.  Without a count it has a digit for each half byte. -/
def kept (count : Option Nat) (source : Bytes) : List Char :=
  match count with
  | none => (fitted (2 * ((source.length + 1) / 2)) source).map Hexadecimal.digit
  | some n => (fitted n source).map Hexadecimal.digit

theorem digitValue_lt (b : UInt8) : digitValue b < 16 := by
  unfold digitValue Hexadecimal.value?
  split
  · simp only [Option.getD_some]; omega
  · split
    · simp only [Option.getD_some]; omega
    · split
      · simp only [Option.getD_some]; omega
      · decide

theorem length_fitted (width : Nat) (source : Bytes) :
    (fitted width source).length = width := by
  simp only [fitted, List.length_append, List.length_map, List.length_take,
    List.length_replicate]
  omega

theorem lt_of_mem_fitted {width : Nat} {source : Bytes} {d : Nat}
    (h : d ∈ fitted width source) : d < 16 := by
  simp only [fitted, List.mem_append, List.mem_map] at h
  rcases h with ⟨b, -, rfl⟩ | zero
  · exact digitValue_lt b
  · rw [List.eq_of_mem_replicate zero]
    decide

theorem encode_some (order : NibbleOrder) (n : Nat) (source : Bytes) :
    encode order (some n) source = pack order (fitted n source) := by
  have missing : n - ((source.take n).map digitValue).length = n - source.length := by
    rw [List.length_map, List.length_take]
    omega
  simp only [encode, Int.toNat_natCast, missing, fitted]

theorem encode_none (order : NibbleOrder) (source : Bytes) :
    encode order none source = pack order (fitted source.length source) := by
  simp [encode, fitted]

theorem decode_take (order : NibbleOrder) {n k : Nat} (within : (n + 1) / 2 ≤ k) (data : Bytes) :
    decode order (some n) (data.take k) = decode order (some n) data := by
  simp only [decode, Int.toNat_natCast, List.take_take, Nat.min_eq_left within]

theorem size_decode_le (order : NibbleOrder) (count : Option Int) (data : Bytes) :
    (decode order count data).2 ≤ data.length := by
  simp only [decode, List.length_take]
  exact Nat.min_le_right _ _

theorem halves_join (order : NibbleOrder) {first second : Nat} (h : first < 16)
    (k : second < 16) : halves order (join order first second) = [first, second] := by
  cases order <;> simp only [halves, join, UInt8.toNat_ofNat', List.cons.injEq, and_true] <;>
    omega

theorem flatMap_halves_pack (order : NibbleOrder) {digits : List Nat}
    (h : ∀ d ∈ digits, d < 16) :
    (pack order digits).flatMap (halves order) =
      digits ++ List.replicate (digits.length % 2) 0 := by
  fun_induction pack order digits with
  | case1 => rfl
  | case2 first =>
      have zero : 0 < 16 := by decide
      rw [List.flatMap_cons, halves_join order (h first (by simp)) zero]
      rfl
  | case3 first second rest ih =>
      have tail := ih fun d mem => h d (by simp [mem])
      have parity : (first :: second :: rest).length % 2 = rest.length % 2 := by
        simp only [List.length_cons]
        omega
      rw [List.flatMap_cons, halves_join order (h first (by simp)) (h second (by simp)), tail,
        parity]
      rfl

theorem decode_encode_append (order : NibbleOrder) (n : Nat) (source rest : Bytes) :
    decode order (some n) (encode order (some n) source ++ rest) =
      (kept (some n) source, (n + 1) / 2) := by
  have width := length_encode order n source
  have taken : (encode order (some n) source ++ rest).take ((n + 1) / 2) =
      encode order (some n) source := List.take_left' width
  have digits := flatMap_halves_pack order fun _ => @lt_of_mem_fitted n source _
  simp only [decode, Int.toNat_natCast, taken, width]
  rw [encode_some, digits, List.take_left' (length_fitted n source), kept]

theorem decode_encode_all (order : NibbleOrder) (source : Bytes) :
    decode order none (encode order none source) =
      (kept none source, (encode order none source).length) := by
  have size : (encode order none source).length = (source.length + 1) / 2 := by
    rw [encode_none, length_pack, length_fitted]
  have digits := flatMap_halves_pack order
    fun _ => @lt_of_mem_fitted source.length source _
  have filled : fitted source.length source ++ List.replicate (source.length % 2) 0 =
      fitted (2 * ((source.length + 1) / 2)) source := by
    have missing : 2 * ((source.length + 1) / 2) - source.length = source.length % 2 := by omega
    have whole : source.take (2 * ((source.length + 1) / 2)) = source :=
      List.take_of_length_le (by omega)
    simp [fitted, missing, whole]
  have all : (encode order none source).take
      ((2 * (encode order none source).length + 1) / 2) = encode order none source :=
    List.take_of_length_le (by omega)
  simp only [decode, all]
  rw [size, encode_none, digits, length_fitted, filled,
    List.take_of_length_le (Nat.le_of_eq (length_fitted _ _)), kept]

/-! ## Writing back -/

theorem pack_halves_append (order : NibbleOrder) (bs : Bytes) (digits : List Nat) :
    pack order (bs.flatMap (halves order) ++ digits) = bs ++ pack order digits := by
  induction bs with
  | nil => rfl
  | cons b bs ih =>
      have joined : b.toNat / 16 * 16 + b.toNat % 16 = b.toNat := Nat.div_add_mod' _ _
      cases order <;>
        simp only [List.flatMap_cons, halves, List.cons_append, List.nil_append, pack, ih, join,
          joined, UInt8.ofNat_toNat]

theorem pack_halves (order : NibbleOrder) (bs : Bytes) :
    pack order (bs.flatMap (halves order)) = bs := by
  simpa [pack] using pack_halves_append order bs []

theorem lt_of_mem_halves {order : NibbleOrder} {bs : Bytes} {d : Nat}
    (h : d ∈ bs.flatMap (halves order)) : d < 16 := by
  obtain ⟨b, -, half⟩ := List.mem_flatMap.mp h
  have small := b.toNat_lt
  cases order <;> simp only [halves, List.mem_cons, List.not_mem_nil, or_false] at half <;> omega

theorem length_flatMap_halves (order : NibbleOrder) (bs : Bytes) :
    (bs.flatMap (halves order)).length = 2 * bs.length := by
  induction bs with
  | nil => rfl
  | cons b bs ih =>
      rw [List.flatMap_cons, List.length_append, ih, List.length_cons]
      cases order <;> simp only [halves, List.length_cons, List.length_nil] <;> omega

theorem decode_of_full {order : NibbleOrder} {count : Option Nat} {data : Bytes}
    {digits : List Char} {size : Nat}
    (read : decode order (count.map Int.ofNat) data = (digits, size))
    (even : ∀ n ∈ count, n % 2 = 0) (full : ∀ n ∈ count, digits.length = n) :
    digits = ((data.take size).flatMap (halves order)).map Hexadecimal.digit := by
  cases count with
  | none =>
      have whole : data.take ((2 * data.length + 1) / 2) = data :=
        List.take_of_length_le (by omega)
      simp only [Option.map_none, decode, whole, Prod.mk.injEq] at read
      obtain ⟨rfl, rfl⟩ := read
      rw [List.take_of_length_le (Nat.le_of_eq (length_flatMap_halves _ _)), List.take_length]
  | some n =>
      have parity := even n rfl
      have length := full n rfl
      simp only [Option.map_some, Int.ofNat_eq_natCast, decode, Int.toNat_natCast,
        Prod.mk.injEq] at read
      obtain ⟨rfl, rfl⟩ := read
      simp only [List.length_map, List.length_take, length_flatMap_halves] at length
      rw [List.length_take, List.take_of_length_le (by
        rw [length_flatMap_halves, List.length_take]; omega)]
      congr 3
      omega

theorem encode_of_digits {order : NibbleOrder} {count : Option Nat} {source bs : Bytes}
    (digits : source.map digitValue = bs.flatMap (halves order))
    (full : ∀ n ∈ count, source.length = n) :
    encode order (count.map Int.ofNat) source = bs := by
  have fits : fitted source.length source = bs.flatMap (halves order) := by
    simp [fitted, digits]
  cases count with
  | none =>
      rw [Option.map_none, encode_none, fits, pack_halves]
  | some n =>
      obtain rfl := full n rfl
      rw [Option.map_some, Int.ofNat_eq_natCast, encode_some, fits, pack_halves]

theorem map_digitValue_utf8OfChars {digits : List Nat} (h : ∀ d ∈ digits, d < 16) :
    (Text.utf8OfChars (digits.map Hexadecimal.digit)).map digitValue = digits := by
  have all : ∀ d : Fin 16,
      (String.utf8EncodeChar (Hexadecimal.digit d.val)).map digitValue = [d.val] := by decide
  induction digits with
  | nil => rfl
  | cons d digits ih =>
      rw [List.map_cons, Text.utf8OfChars_cons, List.map_append, all ⟨d, h d (by simp)⟩,
        ih fun d mem => h d (by simp [mem])]
      rfl

theorem kept_digits {digits : List Nat} (small : ∀ d ∈ digits, d < 16) :
    kept (some digits.length) (Text.utf8OfChars (digits.map Hexadecimal.digit)) =
      digits.map Hexadecimal.digit := by
  have source := map_digitValue_utf8OfChars small
  have length := congrArg List.length source
  rw [List.length_map] at length
  simp only [kept, fitted, length, Nat.sub_self, List.replicate_zero, List.append_nil]
  rw [List.take_of_length_le (Nat.le_of_eq length), source]

end ByteTemplate.Nibbles
