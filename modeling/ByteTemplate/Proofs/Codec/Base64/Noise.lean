import ByteTemplate.Proofs.Codec.Base64

/-!
# Base64 among other characters

What some data denotes is told by its characters of the alphabet and of padding alone: they are
taken four at a time, up to the first group with padding.  Everything else may stand anywhere, and
nothing is read after a group with padding.
-/

namespace ByteTemplate.Base64

def alphabet : Bytes :=
  "ABCDEFGHIJKLMNOPQRSTUVWXYZabcdefghijklmnopqrstuvwxyz0123456789+/".toList.map fun c =>
    UInt8.ofNat c.toNat

def isSymbol (b : UInt8) : Bool :=
  alphabet.contains b || b == padding

def sextet (b : UInt8) : Nat :=
  if b = padding then 0 else alphabet.idxOf b

theorem alphabet_eq : alphabet = (List.range 64).map symbol := by decide +kernel

private theorem idxOf_symbol {n : Nat} (h : n < 64) : alphabet.idxOf (symbol n) = n := by
  have all : ∀ k : Fin 64, alphabet.idxOf (symbol k.val) = k.val := by
    rw [alphabet_eq]
    decide +kernel
  exact all ⟨n, h⟩

private theorem symbol_of_value? {b : UInt8} {n : Nat} (h : value? b = some n) :
    n < 64 ∧ symbol n = b := by
  have all : ∀ k : Fin 256, ∀ m ∈ value? (UInt8.ofNat k.val),
      m < 64 ∧ symbol m = UInt8.ofNat k.val := by decide +kernel
  have here := all ⟨b.toNat, b.toNat_lt⟩ n
  rw [UInt8.ofNat_toNat] at here
  exact here h

theorem mem_alphabet_iff {b : UInt8} : b ∈ alphabet ↔ ∃ n < 64, symbol n = b := by
  simp [alphabet_eq]

theorem isSymbol_iff {b : UInt8} : isSymbol b = true ↔ b ∈ alphabet ∨ b = padding := by
  simp [isSymbol]

private theorem isSymbol_of_high {b : UInt8} (h : 0x80 ≤ b.toNat) : isSymbol b = false := by
  have low : ∀ x ∈ alphabet, x.toNat < 0x80 := by decide +kernel
  rw [Bool.eq_false_iff, ne_eq, isSymbol_iff]
  rintro (mem | rfl)
  · exact absurd (low b mem) (Nat.not_lt_of_le h)
  · exact absurd h (by decide)

theorem sextet_lt {b : UInt8} (h : isSymbol b = true) : sextet b < 64 := by
  unfold sextet
  split
  · decide
  · next pad =>
      have mem := (isSymbol_iff.mp h).resolve_right pad
      have size : alphabet.length = 64 := by simp [alphabet_eq]
      rw [← size]
      exact List.idxOf_lt_length_iff.mpr mem

def symbolOf (b : UInt8) : Symbol :=
  if b = padding then .padding else .value (sextet b)

private theorem bits_symbolOf (b : UInt8) : (symbolOf b).bits = sextet b := by
  unfold symbolOf sextet
  split <;> rfl

theorem count_map_symbolOf (bs : Bytes) :
    (bs.map symbolOf).count .padding = bs.count padding := by
  induction bs with
  | nil => rfl
  | cons b bs ih => by_cases pad : b = padding <;> simp [symbolOf, pad, ih]

theorem ofByte?_eq (b : UInt8) :
    Symbol.ofByte? b = if isSymbol b then some (symbolOf b) else none := by
  by_cases pad : b = padding
  · rw [if_pos (isSymbol_iff.mpr (.inr pad)), symbolOf, if_pos pad, pad, ofByte?_padding]
  rw [symbolOf, if_neg pad]
  split
  · next counts =>
      obtain ⟨n, small, rfl⟩ := mem_alphabet_iff.mp ((isSymbol_iff.mp counts).resolve_right pad)
      rw [sextet, if_neg pad, idxOf_symbol small, ofByte?_symbol small]
  · next other =>
      rw [Symbol.ofByte?, if_neg pad, Option.map_eq_none_iff, Option.eq_none_iff_forall_ne_some]
      intro n value
      exact other (isSymbol_iff.mpr (.inl (mem_alphabet_iff.mpr ⟨n, symbol_of_value? value⟩)))

def triple (a b c d : UInt8) : Bytes :=
  let n := ((sextet a * 0x40 + sextet b) * 0x40 + sextet c) * 0x40 + sextet d
  [UInt8.ofNat (n / 0x10000), UInt8.ofNat (n / 0x100), UInt8.ofNat n]

/-- The bytes of characters of Base64: three for a group of four without padding, two and one for
the first group with one padding and with more.  A group of fewer than four denotes nothing. -/
def denoted : Bytes → Bytes
  | a :: b :: c :: d :: rest =>
      match [a, b, c, d].count padding with
      | 0 => triple a b c d ++ denoted rest
      | 1 => (triple a b c d).take 2
      | _ => (triple a b c d).take 1
  | _ => []

def paddedEnd? : Bytes → Option Nat
  | a :: b :: c :: d :: rest =>
      if padding ∈ [a, b, c, d] then some 4 else (paddedEnd? rest).map (4 + ·)
  | _ => none

private theorem mem_map_symbolOf {bs : Bytes} :
    Symbol.padding ∈ bs.map symbolOf ↔ padding ∈ bs := by
  rw [← List.count_pos_iff, count_map_symbolOf, List.count_pos_iff]

private theorem groupBytes_symbolOf {a b c d : UInt8}
    (symbols : ∀ x ∈ [a, b, c, d], isSymbol x = true) :
    groupBytes ([a, b, c, d].map symbolOf) =
      (triple a b c d).take (max 1 (3 - [a, b, c, d].count padding)) := by
  have count := count_map_symbolOf [a, b, c, d]
  simp only [List.map_cons, List.map_nil] at count ⊢
  simp only [groupBytes, count, bits_symbolOf]
  congr 1
  simp only [triple, List.cons.injEq, ← UInt8.toNat_inj, UInt8.toNat_ofNat', and_true]
  simp only [List.forall_mem_cons] at symbols
  have smallA := sextet_lt symbols.1
  have smallB := sextet_lt symbols.2.1
  have smallC := sextet_lt symbols.2.2.1
  have smallD := sextet_lt symbols.2.2.2.1
  omega

/-! ## Reading symbols -/

theorem takeSymbols_append {front : Bytes} {last : UInt8} (counts : isSymbol last = true)
    (rest : Bytes) :
    takeSymbols ((front.filter isSymbol).length + 1) (front ++ last :: rest) =
      ((front.filter isSymbol ++ [last]).map symbolOf, rest) := by
  induction front with
  | nil => simp [takeSymbols, ofByte?_eq, counts]
  | cons b front ih =>
      cases own : isSymbol b with
      | true => simp [takeSymbols, ofByte?_eq, own, ih]
      | false => simp [takeSymbols, ofByte?_eq, own, ih]

theorem length_takeSymbols_le (count : Nat) (data : Bytes) :
    (takeSymbols count data).1.length ≤ (data.filter isSymbol).length := by
  fun_induction takeSymbols count data with
  | case1 => simp
  | case2 => simp
  | case3 count b data ignored ih =>
      cases own : isSymbol b with
      | true => simp [ofByte?_eq, own] at ignored
      | false => simpa [own] using ih
  | case4 count b data s counted symbols rest read ih =>
      cases own : isSymbol b with
      | true => simpa [own, read] using ih
      | false => simp [ofByte?_eq, own] at counted

private theorem exists_split {data : Bytes} :
    ∀ {count : Nat}, count < (data.filter isSymbol).length →
      ∃ front last rest, data = front ++ last :: rest ∧ isSymbol last = true ∧
        (front.filter isSymbol).length = count := by
  induction data with
  | nil =>
      intro count few
      exact absurd few (Nat.not_lt_zero count)
  | cons b data ih =>
      intro count enough
      cases own : isSymbol b with
      | false =>
          rw [List.filter_cons_of_neg (by simp [own])] at enough
          obtain ⟨front, last, rest, rfl, counts, length⟩ := ih enough
          exact ⟨b :: front, last, rest, rfl, counts, by simp [own, length]⟩
      | true =>
          cases count with
          | zero => exact ⟨[], b, data, rfl, own, rfl⟩
          | succ count =>
              rw [List.filter_cons_of_pos own, List.length_cons] at enough
              obtain ⟨front, last, rest, rfl, counts, length⟩ := ih (Nat.lt_of_succ_lt_succ enough)
              exact ⟨b :: front, last, rest, rfl, counts, by simp [own, length]⟩

theorem denoted_of_padding {a b c d : UInt8} (pad : padding ∈ [a, b, c, d]) (rest : Bytes) :
    denoted (a :: b :: c :: d :: rest) =
      (triple a b c d).take (max 1 (3 - [a, b, c, d].count padding)) := by
  have some_padding := List.count_pos_iff.mpr pad
  rw [denoted]
  split
  · omega
  · next one => rw [one]; rfl
  · next none_or_one =>
      have least : max 1 (3 - [a, b, c, d].count padding) = 1 := by
        have two : [a, b, c, d].count padding ≠ 1 := none_or_one
        omega
      rw [least]

private theorem denoted_of_no_padding {a b c d : UInt8} (full : padding ∉ [a, b, c, d])
    (rest : Bytes) :
    denoted (a :: b :: c :: d :: rest) = triple a b c d ++ denoted rest := by
  rw [denoted, List.count_eq_zero_of_not_mem full]
  rfl

private theorem denoted_of_short {bs : Bytes} (few : bs.length < 4) : denoted bs = [] := by
  match bs with
  | [] | [_] | [_, _] | [_, _, _] => rfl
  | _ :: _ :: _ :: _ :: _ => simp at few; omega

private theorem paddedEnd?_of_short {bs : Bytes} (few : bs.length < 4) : paddedEnd? bs = none := by
  match bs with
  | [] | [_] | [_, _] | [_, _, _] => rfl
  | _ :: _ :: _ :: _ :: _ => simp at few; omega

/-- The first group is read from the data up to its fourth character. -/
theorem decodeGroups_append {front : Bytes} {a b c d : UInt8}
    (group : front.filter isSymbol = [a, b, c]) (counts : isSymbol d = true) (fuel : Nat)
    (rest : Bytes) :
    decodeGroups (fuel + 1) (front ++ d :: rest) =
      if padding ∈ [a, b, c, d] then (denoted [a, b, c, d], rest)
      else (triple a b c d ++ (decodeGroups fuel rest).1, (decodeGroups fuel rest).2) := by
  have read := @takeSymbols_append front d counts rest
  rw [group] at read
  change takeSymbols 4 (front ++ d :: rest) = ([a, b, c, d].map symbolOf, rest) at read
  have long : 3 ≤ front.length := by
    have some_left := List.length_filter_le isSymbol front
    rw [group] at some_left
    exact some_left
  have enough : ((front ++ d :: rest).drop 3).isEmpty = false := by
    rw [List.isEmpty_eq_false_iff, ← List.length_pos_iff, List.length_drop, List.length_append,
      List.length_cons]
    omega
  have symbols : ∀ x ∈ [a, b, c, d], isSymbol x = true := by
    have first : ∀ x ∈ [a, b, c], isSymbol x = true := by
      rw [← group]
      exact fun x mem => (List.mem_filter.mp mem).2
    simpa [counts] using first
  have bytes := groupBytes_symbolOf symbols
  have found : ([a, b, c, d].map symbolOf).contains .padding = decide (padding ∈ [a, b, c, d]) := by
    rw [List.contains_eq_mem, decide_eq_decide, mem_map_symbolOf]
  simp only [decodeGroups, enough, read, bytes, found]
  by_cases pad : padding ∈ [a, b, c, d]
  · rw [if_pos pad, denoted_of_padding pad]
    simp [pad]
  · have whole :
        (triple a b c d).take (max 1 (3 - [a, b, c, d].count padding)) = triple a b c d := by
      rw [List.count_eq_zero_of_not_mem pad]
      rfl
    rw [if_neg pad, whole]
    simp [pad]

theorem exists_group {data : Bytes} (enough : 4 ≤ (data.filter isSymbol).length) :
    ∃ front a b c d rest, data = front ++ d :: rest ∧ front.filter isSymbol = [a, b, c] ∧
      isSymbol d = true ∧ data.filter isSymbol = a :: b :: c :: d :: rest.filter isSymbol := by
  obtain ⟨front, d, rest, rfl, counts, length⟩ := exists_split (Nat.lt_of_succ_le enough)
  match group : front.filter isSymbol, length with
  | [a, b, c], _ => exact ⟨front, a, b, c, d, rest, rfl, group, counts, by simp [group, counts]⟩

/-- The test for four bytes loses no group, since a group has as many characters. -/
theorem decodeGroups_of_few {data : Bytes} (few : (data.filter isSymbol).length < 4) (fuel : Nat) :
    (decodeGroups fuel data).1 = [] := by
  cases fuel with
  | zero => rfl
  | succ fuel =>
      have taken := length_takeSymbols_le 4 data
      simp only [decodeGroups]
      split
      · rfl
      · rw [if_pos (Nat.lt_of_le_of_lt taken few)]

private theorem decodeGroups_fst (fuel : Nat) :
    ∀ {data : Bytes}, data.length ≤ fuel →
      (decodeGroups fuel data).1 = denoted (data.filter isSymbol) := by
  induction fuel with
  | zero =>
      intro data short
      obtain rfl := List.length_eq_zero_iff.mp (Nat.le_zero.mp short)
      rfl
  | succ fuel ih =>
      intro data short
      rcases Nat.lt_or_ge (data.filter isSymbol).length 4 with few | enough
      · rw [decodeGroups_of_few few, denoted_of_short few]
      · obtain ⟨front, a, b, c, d, rest, rfl, group, counts, symbols⟩ := exists_group enough
        rw [decodeGroups_append group counts, symbols]
        by_cases pad : padding ∈ [a, b, c, d]
        · rw [if_pos pad, denoted_of_padding pad, denoted_of_padding pad]
        · have left : rest.length ≤ fuel := by
            rw [List.length_append, List.length_cons] at short
            omega
          rw [if_neg pad, denoted_of_no_padding pad, ih left]

private theorem decodeGroups_of_paddedEnd? (fuel : Nat) :
    ∀ {data : Bytes} {n : Nat}, data.length ≤ fuel →
      paddedEnd? (data.filter isSymbol) = some n →
        ∃ front last rest bytes, data = front ++ last :: rest ∧ isSymbol last = true ∧
          (front.filter isSymbol).length + 1 = n ∧
          ∀ other steps, front.length < steps →
            decodeGroups steps (front ++ last :: other) = (bytes, other) := by
  induction fuel with
  | zero =>
      intro data n short ends
      obtain rfl := List.length_eq_zero_iff.mp (Nat.le_zero.mp short)
      cases ends
  | succ fuel ih =>
      intro data n short ends
      rcases Nat.lt_or_ge (data.filter isSymbol).length 4 with few | enough
      · rw [paddedEnd?_of_short few] at ends
        cases ends
      · obtain ⟨front, a, b, c, d, rest, rfl, group, counts, symbols⟩ := exists_group enough
        rw [symbols, paddedEnd?] at ends
        by_cases pad : padding ∈ [a, b, c, d]
        · rw [if_pos pad] at ends
          cases ends
          refine ⟨front, d, rest, denoted [a, b, c, d], rfl, counts, by rw [group]; rfl, ?_⟩
          intro other steps enough
          obtain ⟨steps, rfl⟩ : ∃ k, steps = k + 1 := ⟨steps - 1, by omega⟩
          rw [decodeGroups_append group counts, if_pos pad]
        · rw [if_neg pad, Option.map_eq_some_iff] at ends
          obtain ⟨m, later, rfl⟩ := ends
          have left : rest.length ≤ fuel := by
            rw [List.length_append, List.length_cons] at short
            omega
          obtain ⟨front', last, rest, bytes, rfl, counts', length, reads⟩ := ih left later
          refine ⟨front ++ d :: front', last, rest, triple a b c d ++ bytes, by simp, counts', ?_,
            ?_⟩
          · rw [← length]
            simp [group, counts]
            omega
          · intro other steps enough
            rw [List.length_append, List.length_cons] at enough
            obtain ⟨steps, rfl⟩ : ∃ k, steps = k + 1 := ⟨steps - 1, by omega⟩
            rw [List.append_assoc, List.cons_append, decodeGroups_append group counts, if_neg pad,
              reads other steps (by omega)]

/-! ## Whole texts -/

/-- What decoding makes of some data, told by its characters of Base64. -/
structure IsLenient (data : Bytes) : Prop where
  value : (decode data).1 = denoted (data.filter isSymbol)
  others : ∀ before noise after, data = before ++ noise ++ after →
    (∀ b ∈ noise, isSymbol b = false) → (decode (before ++ after)).1 = (decode data).1
  padded : ∀ n, paddedEnd? (data.filter isSymbol) = some n →
    ∃ front last rest, data = front ++ last :: rest ∧ isSymbol last = true ∧
      ((front ++ [last]).filter isSymbol).length = n ∧ (decode data).2 = front.length + 1 ∧
      ∀ other, decode (front ++ last :: other) = decode data

theorem decode_fst (data : Bytes) : (decode data).1 = denoted (data.filter isSymbol) :=
  decodeGroups_fst data.length (Nat.le_refl _)

/-- Decoding reads the characters of Base64 and no others, up to a group with padding.  No byte
above 127 is such a character. -/
theorem decode_isLenient (data : Bytes) :
    IsLenient data ∧ ∀ b : UInt8, 0x80 ≤ b.toNat → isSymbol b = false := by
  refine ⟨⟨decode_fst data, ?_, ?_⟩, fun b high => isSymbol_of_high high⟩
  · rintro before noise after rfl ignored
    have nothing : noise.filter isSymbol = [] := by
      rw [List.filter_eq_nil_iff]
      intro b mem
      simp [ignored b mem]
    rw [decode_fst, decode_fst]
    simp [nothing]
  · intro n ends
    obtain ⟨front, last, rest, bytes, rfl, counts, length, reads⟩ :=
      decodeGroups_of_paddedEnd? data.length (Nat.le_refl _) ends
    have stops : ∀ other, decode (front ++ last :: other) = (bytes, front.length + 1) := by
      intro other
      have read := reads other (front ++ last :: other).length (by simp)
      have taken : (front ++ last :: other).length - other.length = front.length + 1 := by
        simp only [List.length_append, List.length_cons]
        omega
      simp only [decode]
      rw [read, taken]
    refine ⟨front, last, rest, rfl, counts, ?_, by rw [stops], fun other => ?_⟩
    · simp [counts, length]
    · rw [stops, stops]

end ByteTemplate.Base64
