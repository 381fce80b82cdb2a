import ByteTemplate.Codec.Base64

/-!
# Base64 text read back

Lines hold whole groups of four symbols, all but the last without padding, and line ends are
skipped in front of a group.  So the lines of a text are read one after another, and what is
left unread is at most the last line end.
-/

namespace ByteTemplate.Base64

theorem ofByte?_symbol {n : Nat} (h : n < 64) : Symbol.ofByte? (symbol n) = some (.value n) := by
  have all : ∀ k : Fin 64, symbol k.val ≠ padding := by decide
  rw [Symbol.ofByte?, if_neg (all ⟨n, h⟩), value?_symbol h]
  rfl

theorem ofByte?_padding : Symbol.ofByte? padding = some .padding := rfl

private theorem ofByte?_newline : Symbol.ofByte? 0x0A = none := rfl

theorem takeSymbols_four {b₁ b₂ b₃ b₄ : UInt8} {s₁ s₂ s₃ s₄ : Symbol}
    (h₁ : Symbol.ofByte? b₁ = some s₁) (h₂ : Symbol.ofByte? b₂ = some s₂)
    (h₃ : Symbol.ofByte? b₃ = some s₃) (h₄ : Symbol.ofByte? b₄ = some s₄) (rest : Bytes) :
    takeSymbols 4 (b₁ :: b₂ :: b₃ :: b₄ :: rest) = ([s₁, s₂, s₃, s₄], rest) := by
  simp only [takeSymbols, h₁, h₂, h₃, h₄]

theorem decodeGroups_of_short {data : Bytes} (h : data.length < 4) (fuel : Nat) :
    decodeGroups fuel data = ([], data) := by
  cases fuel with
  | zero => rfl
  | succ fuel =>
      have short : data.drop 3 = [] := List.drop_eq_nil_of_le (by omega)
      simp [decodeGroups, short]

private theorem decodeGroups_cons_ignored {b : UInt8} {data : Bytes} {fuel : Nat}
    (ignored : Symbol.ofByte? b = none) (h : 4 ≤ data.length) (pos : 0 < fuel) :
    decodeGroups fuel (b :: data) = decodeGroups fuel data := by
  obtain ⟨fuel, rfl⟩ : ∃ k, fuel = k + 1 := ⟨fuel - 1, by omega⟩
  have skip : takeSymbols 4 (b :: data) = takeSymbols 4 data := by
    simp only [takeSymbols, ignored]
  have enough : (data.drop 3).isEmpty = false := by
    rw [List.isEmpty_eq_false_iff, ← List.length_pos_iff, List.length_drop]
    omega
  have more : ((b :: data).drop 3).isEmpty = false := by
    rw [List.isEmpty_eq_false_iff, ← List.length_pos_iff, List.length_drop, List.length_cons]
    omega
  simp only [decodeGroups, skip, enough, more]
  rfl

private theorem groupBytes_three (a b c : UInt8) :
    groupBytes [.value (a.toNat / 4), .value (a.toNat % 4 * 16 + b.toNat / 16),
      .value (b.toNat % 16 * 4 + c.toNat / 64), .value (c.toNat % 64)] = [a, b, c] := by
  have smallA := a.toNat_lt
  have smallB := b.toNat_lt
  have smallC := c.toNat_lt
  simp only [groupBytes, Symbol.bits, List.count_cons, List.count_nil, beq_iff_eq, reduceCtorEq,
    if_false]
  change [_, _, _] = _
  simp only [List.cons.injEq, and_true, ← UInt8.toNat_inj, UInt8.toNat_ofNat']
  omega

private theorem groupBytes_two (a b : UInt8) :
    groupBytes [.value (a.toNat / 4), .value (a.toNat % 4 * 16 + b.toNat / 16),
      .value (b.toNat % 16 * 4), .padding] = [a, b] := by
  have smallA := a.toNat_lt
  have smallB := b.toNat_lt
  simp only [groupBytes, Symbol.bits, List.count_cons, List.count_nil, beq_iff_eq, reduceCtorEq,
    if_false]
  change [_, _] = _
  simp only [List.cons.injEq, and_true, ← UInt8.toNat_inj, UInt8.toNat_ofNat']
  omega

private theorem groupBytes_one (a : UInt8) :
    groupBytes [.value (a.toNat / 4), .value (a.toNat % 4 * 16), .padding, .padding] = [a] := by
  have smallA := a.toNat_lt
  simp only [groupBytes, Symbol.bits, List.count_cons, List.count_nil, beq_iff_eq, reduceCtorEq,
    if_false]
  change [_] = _
  simp only [List.cons.injEq, and_true, ← UInt8.toNat_inj, UInt8.toNat_ofNat']
  omega

theorem decodeGroups_encodeLine_three (a b c : UInt8) (line tail : Bytes) (fuel : Nat) :
    decodeGroups (fuel + 1) (encodeLine (a :: b :: c :: line) ++ tail) =
      (a :: b :: c :: (decodeGroups fuel (encodeLine line ++ tail)).1,
        (decodeGroups fuel (encodeLine line ++ tail)).2) := by
  have smallA := a.toNat_lt
  have smallB := b.toNat_lt
  have smallC := c.toNat_lt
  have symbols := takeSymbols_four
    (ofByte?_symbol (show a.toNat / 4 < 64 by omega))
    (ofByte?_symbol (show a.toNat % 4 * 16 + b.toNat / 16 < 64 by omega))
    (ofByte?_symbol (show b.toNat % 16 * 4 + c.toNat / 64 < 64 by omega))
    (ofByte?_symbol (show c.toNat % 64 < 64 by omega)) (encodeLine line ++ tail)
  have full : [Symbol.value (a.toNat / 4), .value (a.toNat % 4 * 16 + b.toNat / 16),
      .value (b.toNat % 16 * 4 + c.toNat / 64), .value (c.toNat % 64)].contains .padding =
        false := by
    simp
  simp only [encodeLine, List.cons_append, decodeGroups, List.drop_succ_cons, List.drop_zero,
    List.isEmpty_cons, symbols, full, groupBytes_three]
  rfl

theorem decodeGroups_encodeLine (line : Bytes) {tail : Bytes} (short : tail.length < 4) :
    ∀ fuel, line.length ≤ fuel → decodeGroups fuel (encodeLine line ++ tail) = (line, tail) := by
  fun_induction encodeLine line with
  | case1 => exact fun fuel _ => decodeGroups_of_short short fuel
  | case2 a =>
      intro fuel enough
      obtain ⟨fuel, rfl⟩ : ∃ k, fuel = k + 1 := ⟨fuel - 1, by simp at enough; omega⟩
      have small := a.toNat_lt
      have symbols := takeSymbols_four
        (ofByte?_symbol (show a.toNat / 4 < 64 by omega))
        (ofByte?_symbol (show a.toNat % 4 * 16 < 64 by omega)) ofByte?_padding ofByte?_padding
        tail
      have padded : [Symbol.value (a.toNat / 4), .value (a.toNat % 4 * 16), .padding,
          .padding].contains .padding = true := by
        simp
      simp only [List.cons_append, List.nil_append, decodeGroups, List.drop_succ_cons,
        List.drop_zero, List.isEmpty_cons, symbols, padded, groupBytes_one]
      rfl
  | case3 a b =>
      intro fuel enough
      obtain ⟨fuel, rfl⟩ : ∃ k, fuel = k + 1 := ⟨fuel - 1, by simp at enough; omega⟩
      have smallA := a.toNat_lt
      have smallB := b.toNat_lt
      have symbols := takeSymbols_four
        (ofByte?_symbol (show a.toNat / 4 < 64 by omega))
        (ofByte?_symbol (show a.toNat % 4 * 16 + b.toNat / 16 < 64 by omega))
        (ofByte?_symbol (show b.toNat % 16 * 4 < 64 by omega)) ofByte?_padding tail
      have padded : [Symbol.value (a.toNat / 4), .value (a.toNat % 4 * 16 + b.toNat / 16),
          .value (b.toNat % 16 * 4), .padding].contains .padding = true := by
        simp
      simp only [List.cons_append, List.nil_append, decodeGroups, List.drop_succ_cons,
        List.drop_zero, List.isEmpty_cons, symbols, padded, groupBytes_two]
      rfl
  | case4 a b c line ih =>
      intro fuel enough
      obtain ⟨fuel, rfl⟩ : ∃ k, fuel = k + 1 := ⟨fuel - 1, by simp at enough; omega⟩
      have rest := ih fuel (by simp at enough; omega)
      have step := decodeGroups_encodeLine_three a b c line tail fuel
      rw [rest] at step
      exact step

private theorem decodeGroups_encodeLine_full (line tail : Bytes) (fuel : Nat)
    (whole : line.length % 3 = 0) :
    decodeGroups (line.length / 3 + fuel) (encodeLine line ++ tail) =
      (line ++ (decodeGroups fuel tail).1, (decodeGroups fuel tail).2) := by
  fun_induction encodeLine line with
  | case1 => simp
  | case2 | case3 => simp at whole
  | case4 a b c line ih =>
      have groups : (a :: b :: c :: line).length / 3 + fuel = line.length / 3 + fuel + 1 := by
        simp only [List.length_cons]
        omega
      have rest := ih (by simp only [List.length_cons] at whole; omega)
      have step := decodeGroups_encodeLine_three a b c line tail (line.length / 3 + fuel)
      rw [rest] at step
      rw [groups]
      exact step

/-! ## Lines -/

theorem length_encodeLine (line : Bytes) :
    (encodeLine line).length = 4 * ((line.length + 2) / 3) := by
  fun_induction encodeLine line with
  | case1 => rfl
  | case2 => simp
  | case3 => simp
  | case4 a b c line ih => simp only [List.length_cons, ih]; omega

def wrapped (width pieces : Nat) (source : Bytes) : Bytes :=
  (Base64.pieces width pieces source).flatMap fun line => encodeLine line ++ [0x0A]

theorem wrapped_of_short {width k : Nat} {source : Bytes} (left : source ≠ [])
    (short : source.length ≤ width) :
    wrapped width (k + 1) source = encodeLine source ++ [0x0A] := by
  have last : source.drop width = [] := List.drop_eq_nil_of_le short
  have nothing : pieces width k [] = [] := by cases k <;> rfl
  simp [wrapped, pieces, left, last, nothing, List.take_of_length_le short]

theorem wrapped_of_ne_nil {width k : Nat} {source : Bytes} (left : source ≠ []) :
    wrapped width (k + 1) source =
      encodeLine (source.take width) ++ 0x0A :: wrapped width k (source.drop width) := by
  simp [wrapped, pieces, left]

theorem length_le_length_encodeLine (line : Bytes) : line.length ≤ (encodeLine line).length := by
  rw [length_encodeLine]
  omega

private theorem four_le_length_wrapped {width k : Nat} {source : Bytes} (pos : 0 < width)
    (left : source ≠ []) (enough : source.length ≤ k) :
    4 ≤ (wrapped width k source).length := by
  have some_left := List.length_pos_iff.mpr left
  obtain ⟨k, rfl⟩ : ∃ j, k = j + 1 := ⟨k - 1, by omega⟩
  rw [wrapped_of_ne_nil left, List.length_append, length_encodeLine, List.length_take]
  omega

theorem length_le_length_wrapped {width : Nat} (pos : 0 < width) (k : Nat) (source : Bytes)
    (enough : source.length ≤ k) : source.length ≤ (wrapped width k source).length := by
  induction k generalizing source with
  | zero => omega
  | succ k ih =>
      by_cases left : source = []
      · simp [left]
      · have some_left := List.length_pos_iff.mpr left
        have rest := ih (source.drop width) (by rw [List.length_drop]; omega)
        have line := length_le_length_encodeLine (source.take width)
        rw [List.length_take] at line
        rw [List.length_drop] at rest
        rw [wrapped_of_ne_nil left, List.length_append, List.length_cons]
        omega

private theorem decodeGroups_wrapped {width : Nat} (pos : 0 < width) (whole : width % 3 = 0) :
    ∀ (k : Nat) (source : Bytes) (fuel : Nat), source ≠ [] → source.length ≤ k →
      source.length ≤ fuel → decodeGroups fuel (wrapped width k source) = (source, [0x0A]) := by
  intro k
  induction k with
  | zero =>
      intro source fuel left pieces _
      exact absurd (List.eq_nil_of_length_eq_zero (by omega)) left
  | succ k ih =>
      intro source fuel left pieces enough
      rcases Nat.lt_or_ge width source.length with long | short
      · have width_line : (source.take width).length = width := List.length_take_of_le (by omega)
        have rest_length : (source.drop width).length = source.length - width := List.length_drop
        have rest_left : source.drop width ≠ [] := by
          rw [← List.length_pos_iff]
          omega
        obtain ⟨more, rfl⟩ := Nat.exists_eq_add_of_le (show width / 3 ≤ fuel by omega)
        have rest := ih (source.drop width) more rest_left (by omega) (by omega)
        have size := four_le_length_wrapped pos rest_left (show _ ≤ k by omega)
        have skip := decodeGroups_cons_ignored ofByte?_newline size (show 0 < more by omega)
        have line := decodeGroups_encodeLine_full (source.take width)
          (0x0A :: wrapped width k (source.drop width)) more (by omega)
        rw [width_line, skip, rest] at line
        rw [wrapped_of_ne_nil left, line, List.take_append_drop]
      · rw [wrapped_of_short left short]
        exact decodeGroups_encodeLine source (by decide) fuel enough

/-! ## Texts -/

theorem exists_lineBytes (count : Option Nat) :
    ∃ width : Nat, lineBytes (count.map Int.ofNat) = Int.ofNat width ∧ width % 3 = 0 ∧
      (width = 0 ↔ count = some 0) := by
  cases count with
  | none => exact ⟨45, rfl, rfl, by simp⟩
  | some n =>
      simp only [Option.map_some, lineBytes, Int.ofNat_eq_natCast]
      split
      · refine ⟨45, rfl, rfl, ?_⟩
        rw [Option.some.injEq]
        omega
      · refine ⟨n - n % 3, by omega, by omega, ?_⟩
        rw [Option.some.injEq]
        omega

theorem encode_eq {count : Option Int} {width : Nat} (lines : lineBytes count = Int.ofNat width)
    (source : Bytes) :
    encode count source =
      if width = 0 then encodeLine source else wrapped width source.length source := by
  cases width with
  | zero => simp only [encode, lines, if_true]
  | succ width => simp only [encode, lines, Nat.succ_ne_zero, if_false, wrapped]

theorem decode_of_decodeGroups {data bytes rest : Bytes}
    (read : decodeGroups data.length data = (bytes, rest)) :
    decode data = (bytes, data.length - rest.length) := by
  simp only [decode, read]

private theorem decode_encodeLine (source : Bytes) :
    decode (encodeLine source) = (source, (encodeLine source).length) := by
  have read := decodeGroups_encodeLine source (show ([] : Bytes).length < 4 by decide)
    (encodeLine source).length (length_le_length_encodeLine source)
  rw [List.append_nil] at read
  exact decode_of_decodeGroups read

private theorem decode_wrapped {width : Nat} (pos : 0 < width) (whole : width % 3 = 0)
    {source : Bytes}
    (left : source ≠ []) :
    decode (wrapped width source.length source) =
      (source, (wrapped width source.length source).length - 1) :=
  decode_of_decodeGroups (decodeGroups_wrapped pos whole _ source _ left (Nat.le_refl _)
    (length_le_length_wrapped pos _ source (Nat.le_refl _)))

theorem decode_encode (count : Option Nat) (source : Bytes) :
    decode (encode (count.map Int.ofNat) source) =
      (source, if count ≠ some 0 ∧ source ≠ [] then (encode (count.map Int.ofNat) source).length - 1
        else (encode (count.map Int.ofNat) source).length) := by
  obtain ⟨width, lines, whole, zero⟩ := exists_lineBytes count
  rw [encode_eq lines]
  by_cases single : width = 0
  · simp [single, zero.mp single, decode_encodeLine]
  · have wraps : count ≠ some 0 := fun h => single (zero.mpr h)
    by_cases left : source = []
    · rw [if_neg single, if_neg (by simp [left]), left]
      rfl
    · simp [single, wraps, left, decode_wrapped (Nat.pos_of_ne_zero single) whole left]

end ByteTemplate.Base64
