import ByteTemplate.Proofs.Codec.Nibbles

/-!
# Half bytes that are read and written back

Digits that were read are written as the bytes they cover.  A last digit that covers one half of
its byte leaves the other half zero, and where more digits are asked for than there are, the
missing ones are zero.  The two orders differ by an exchange of the halves of every byte.
-/

namespace ByteTemplate.Nibbles

def exchange (b : UInt8) : UInt8 :=
  b <<< 4 ||| b >>> 4

def firstHalf (order : NibbleOrder) (b : UInt8) : UInt8 :=
  match order with
  | .highFirst => b &&& 0xF0
  | .lowFirst => b &&& 0x0F

variable {order : NibbleOrder}

private theorem halves_exchange (b : UInt8) :
    halves .highFirst (exchange b) = halves .lowFirst b := by
  have all : ∀ n : Fin 256, halves .highFirst (exchange (UInt8.ofNat n.val)) =
      halves .lowFirst (UInt8.ofNat n.val) := by decide +kernel
  have own := all ⟨b.toNat, b.toNat_lt⟩
  rwa [UInt8.ofNat_toNat] at own

theorem exchange_join {first second : Nat} (h : first < 16) (k : second < 16) :
    exchange (join .highFirst first second) = join .lowFirst first second := by
  have all : ∀ m n : Fin 16,
      exchange (join .highFirst m.val n.val) = join .lowFirst m.val n.val := by decide +kernel
  exact all ⟨first, h⟩ ⟨second, k⟩

private theorem pack_take_one_halves (b : UInt8) :
    pack order ((halves order b).take 1) = [firstHalf order b] := by
  have all : ∀ n : Fin 256, pack order ((halves order (UInt8.ofNat n.val)).take 1) =
      [firstHalf order (UInt8.ofNat n.val)] := by cases order <;> decide +kernel
  have own := all ⟨b.toNat, b.toNat_lt⟩
  rwa [UInt8.ofNat_toNat] at own

private theorem map_exchange_pack {digits : List Nat} (small : ∀ d ∈ digits, d < 16) :
    (pack .highFirst digits).map exchange = pack .lowFirst digits := by
  fun_induction pack .highFirst digits with
  | case1 => rfl
  | case2 first =>
      have own := small first (by simp)
      simp [pack, exchange_join own]
  | case3 first second rest ih =>
      have own := small first (by simp)
      have next := small second (by simp)
      have others := ih fun d mem => small d (by simp [mem])
      simp [pack, exchange_join own next, others]

private theorem encode_lowFirst (count : Option Int) (source : Bytes) :
    encode .lowFirst count source = (encode .highFirst count source).map exchange := by
  symm
  apply map_exchange_pack
  intro d mem
  simp only [List.mem_append, List.mem_map] at mem
  rcases mem with ⟨b, -, rfl⟩ | zero
  · exact digitValue_lt b
  · rw [List.eq_of_mem_replicate zero]
    decide

private theorem decode_lowFirst (count : Option Int) (data : Bytes) :
    decode .lowFirst count data = decode .highFirst count (data.map exchange) := by
  simp only [decode, List.length_map, ← List.map_take, List.flatMap_map, halves_exchange]

theorem pack_zeros : ∀ n, pack order (List.replicate n 0) = List.replicate ((n + 1) / 2) 0
  | 0 => rfl
  | 1 => by cases order <;> rfl
  | n + 2 => by
      have zero : join order 0 0 = 0 := by cases order <;> rfl
      have half : (n + 2 + 1) / 2 = (n + 1) / 2 + 1 := by omega
      simp only [half, List.replicate_succ, pack, zero, pack_zeros n]

private theorem pack_take_of_le {n : Nat} {bs : Bytes} (enough : 2 * bs.length ≤ n) :
    pack order ((bs.flatMap (halves order)).take n ++ List.replicate (n - 2 * bs.length) 0) =
      bs ++ List.replicate ((n + 1) / 2 - bs.length) 0 := by
  have all : (bs.flatMap (halves order)).take n = bs.flatMap (halves order) := by
    apply List.take_of_length_le
    rwa [length_flatMap_halves]
  have zeros : (n - 2 * bs.length + 1) / 2 = (n + 1) / 2 - bs.length := by omega
  rw [all, pack_halves_append, pack_zeros, zeros]

private theorem pack_take_of_odd (front : Bytes) (b : UInt8) :
    pack order (((front ++ [b]).flatMap (halves order)).take (2 * front.length + 1)) =
      front ++ [firstHalf order b] := by
  have covered := length_flatMap_halves order front
  have last : [b].flatMap (halves order) = halves order b := by simp
  rw [List.flatMap_append, ← covered, List.take_length_add_append, pack_halves_append, last,
    pack_take_one_halves]

/-! ## Reading and writing back -/

def sizeRead (count : Option Nat) (data : Bytes) : Nat :=
  match count with
  | none => data.length
  | some n => min ((n + 1) / 2) data.length

def digitsRead (count : Option Nat) (data : Bytes) : Nat :=
  match count with
  | none => 2 * data.length
  | some n => min n (2 * data.length)

/-- The bytes read, without a last half that no digit covers, and zeros for missing bytes. -/
def writtenBack (order : NibbleOrder) (count : Option Nat) (data : Bytes) : Bytes :=
  match count with
  | none => data
  | some n =>
      let bs := data.take ((n + 1) / 2)
      let covered := if n % 2 = 1 ∧ n < 2 * data.length then
        bs.modify (bs.length - 1) (firstHalf order) else bs
      covered ++ List.replicate ((n + 1) / 2 - bs.length) 0

private theorem map_digitValue_digits (n : Nat) (bs : Bytes) :
    (Text.utf8OfChars (((bs.flatMap (halves order)).take n).map Hexadecimal.digit)).map digitValue =
      (bs.flatMap (halves order)).take n := by
  apply map_digitValue_utf8OfChars
  intro d mem
  exact lt_of_mem_halves (List.mem_of_mem_take mem)

private theorem encode_digits (n : Nat) (bs : Bytes) :
    encode order (some n)
        (Text.utf8OfChars (((bs.flatMap (halves order)).take n).map Hexadecimal.digit)) =
      pack order ((bs.flatMap (halves order)).take n ++ List.replicate (n - 2 * bs.length) 0) := by
  have digits := @map_digitValue_digits order n bs
  have length := congrArg List.length digits
  rw [List.length_map, List.length_take, length_flatMap_halves] at length
  have missing : n - min n (2 * bs.length) = n - 2 * bs.length := by omega
  rw [encode_some, fitted, List.map_take, digits, List.take_take, Nat.min_self, length, missing]

private theorem pack_take_writtenBack (n : Nat) (data : Bytes) :
    pack order (((data.take ((n + 1) / 2)).flatMap (halves order)).take n ++
        List.replicate (n - 2 * (data.take ((n + 1) / 2)).length) 0) =
      writtenBack order (some n) data := by
  have length : (data.take ((n + 1) / 2)).length = min ((n + 1) / 2) data.length :=
    List.length_take
  simp only [writtenBack]
  generalize data.take ((n + 1) / 2) = bs at length
  by_cases half : n % 2 = 1 ∧ n < 2 * data.length
  · obtain ⟨front, b, rfl⟩ : ∃ front b, bs = front ++ [b] := by
      rcases List.eq_nil_or_concat bs with rfl | ⟨front, b, rfl⟩
      · rw [List.length_nil] at length
        omega
      · exact ⟨front, b, List.concat_eq_append⟩
    rw [List.length_append, List.length_singleton] at length
    have odd : n = 2 * front.length + 1 := by omega
    have no_zeros : n - 2 * (front ++ [b]).length = 0 ∧
        (n + 1) / 2 - (front ++ [b]).length = 0 := by
      rw [List.length_append, List.length_singleton]
      omega
    rw [if_pos half, no_zeros.1, no_zeros.2, List.replicate_zero, List.append_nil, odd,
      pack_take_of_odd, List.length_append, List.length_singleton, Nat.add_sub_cancel,
      List.modify_eq_take_drop, List.take_left, List.drop_left]
    simp
  · rw [if_neg half]
    exact pack_take_of_le (by omega)

theorem decode_none (data : Bytes) :
    decode order none data =
      ((data.flatMap (halves order)).map Hexadecimal.digit, data.length) := by
  have whole : data.take ((2 * data.length + 1) / 2) = data :=
    List.take_of_length_le (by omega)
  have all : (data.flatMap (halves order)).take (2 * data.length) =
      data.flatMap (halves order) := by
    rw [← length_flatMap_halves order, List.take_length]
  simp only [decode, whole, all]

theorem decode_some (n : Nat) (data : Bytes) :
    decode order (some n) data =
      ((((data.take ((n + 1) / 2)).flatMap (halves order)).take n).map Hexadecimal.digit,
        min ((n + 1) / 2) data.length) := by
  simp only [decode, Int.toNat_natCast, List.length_take]

/-- Digits that were read are written back as the bytes they cover, and reading and writing in the
two orders differ by an exchange of the halves of every byte. -/
theorem written_back_and_exchanged (order : NibbleOrder) (count : Option Nat) (data : Bytes) :
    (∃ digits, decode order (count.map Int.ofNat) data = (digits, sizeRead count data) ∧
        digits.length = digitsRead count data ∧
        encode order (count.map Int.ofNat) (Text.utf8OfChars digits) =
          writtenBack order count data) ∧
      (∀ source, encode .lowFirst (count.map Int.ofNat) source =
        (encode .highFirst (count.map Int.ofNat) source).map exchange) ∧
      decode .lowFirst (count.map Int.ofNat) data =
        decode .highFirst (count.map Int.ofNat) (data.map exchange) := by
  refine ⟨?_, encode_lowFirst _, decode_lowFirst _ _⟩
  cases count with
  | none =>
      have digits : (Text.utf8OfChars ((data.flatMap (halves order)).map
          Hexadecimal.digit)).map digitValue = data.flatMap (halves order) := by
        apply map_digitValue_utf8OfChars
        exact fun _ => lt_of_mem_halves
      refine ⟨_, decode_none data, ?_, @encode_of_digits order none _ _ digits nofun⟩
      rw [List.length_map, length_flatMap_halves, digitsRead]
  | some n =>
      refine ⟨_, decode_some n data, ?_, ?_⟩
      · rw [List.length_map, List.length_take, length_flatMap_halves, List.length_take, digitsRead]
        omega
      · exact (encode_digits n _).trans (pack_take_writtenBack n data)

/-- Three digits of two bytes in either order, and five digits where there are four. -/
example : decode .highFirst (some 3) [0x12, 0xAB] = (['1', '2', 'a'], 2) ∧
    encode .highFirst (some 3) (Text.utf8OfChars ['1', '2', 'a']) = [0x12, 0xA0] ∧
    encode .lowFirst (some 3) (Text.utf8OfChars ['2', '1', 'b']) = [0x12, 0x0B] ∧
    encode .highFirst (some 5) (Text.utf8OfChars ['1', '2', 'a', 'b']) = [0x12, 0xAB, 0x00] := by
  decide +kernel

end ByteTemplate.Nibbles
