import ByteTemplate.Proofs.Codec.Codepoint.Form

/-!
# Reading sequences of code points

Data begins with the sequence of one number at most, and then that number is read, whatever comes
after.  Data that begins with no sequence is malformed in one of four ways, and is refused.
-/

namespace ByteTemplate.Codepoint

theorem extend?_cons_of_isContinuation {b : UInt8} (h : IsContinuation b) (m : Nat) (bs : Bytes) :
    extend? m (b :: bs) = extend? (m * 0x40 + b.toNat % 0x40) bs :=
  if_pos h

private theorem extend?_continuations (count n : Nat) :
    extend? (n / 0x40 ^ count) (continuations count n) = some n := by
  induction count with
  | zero => simp [continuations, extend?]
  | succ count ih =>
      have low : (continuation (n / 0x40 ^ count)).toNat % 0x40 = n / 0x40 ^ count % 0x40 := by
        rw [toNat_continuation]
        omega
      have joined : n / 0x40 ^ (count + 1) * 0x40 + n / 0x40 ^ count % 0x40 =
          n / 0x40 ^ count := by
        rw [Nat.pow_succ, ← Nat.div_div_eq_div_mul]
        omega
      rw [continuations, extend?_cons_of_isContinuation (isContinuation_continuation _), low,
        joined, ih]

private theorem eq_continuations_of_extend? {m n : Nat} {bs : Bytes} (h : extend? m bs = some n) :
    bs = continuations bs.length n ∧ n / 0x40 ^ bs.length = m := by
  induction bs generalizing m with
  | nil =>
      cases h
      exact ⟨rfl, by simp⟩
  | cons b bs ih =>
      rw [extend?] at h
      split at h
      · next range =>
          obtain ⟨tail, value⟩ := ih h
          have first : continuation (n / 0x40 ^ bs.length) = b := by
            apply continuation_eq range
            rw [value]
            omega
          refine ⟨?_, ?_⟩
          · rw [List.length_cons, continuations, first, ← tail]
          · rw [List.length_cons, Nat.pow_succ, ← Nat.div_div_eq_div_mul, value]
            omega
      · cases h

theorem extend?_eq_none_iff {m : Nat} {bs : Bytes} :
    extend? m bs = none ↔ ∃ b ∈ bs, ¬IsContinuation b := by
  induction bs generalizing m with
  | nil => simp [extend?]
  | cons b bs ih =>
      by_cases range : IsContinuation b
      · rw [extend?_cons_of_isContinuation range, ih]
        simp [range]
      · have stop : extend? m (b :: bs) = none := if_neg range
        simp [stop, range]

private theorem isMalformed_or_exists_form_of_isLead {length : Nat} {lead : UInt8}
    (long : 2 ≤ length)
    (short : length ≤ 4) (first : IsLead length lead) (rest : Bytes) :
    IsMalformed (lead :: rest) ∨
      ∃ n tail, IsShortest length n ∧ lead :: rest = form length n ++ tail := by
  have six : length ≤ 6 := Nat.le_trans short (by decide)
  rcases Nat.lt_or_ge rest.length (length - 1) with few | enough
  · refine .inl (.broken long six first (i := rest.length) (by omega) ?_)
    simp
  cases value : extend? (lead.toNat % 2 ^ (7 - length)) (rest.take (length - 1)) with
  | none =>
      obtain ⟨b, mem, other⟩ := extend?_eq_none_iff.mp value
      obtain ⟨i, inside, rfl⟩ := List.mem_take_iff_getElem.mp mem
      refine .inl (.broken long six first (i := i) (by omega) ?_)
      simpa [List.getElem?_eq_getElem (show i < rest.length by omega)] using other
  | some n =>
      obtain ⟨tail, bits⟩ := eq_continuations_of_extend? value
      rw [List.length_take_of_le enough] at tail bits
      have below : n / 0x40 ^ (length - 1) < 2 ^ (7 - length) := by
        rw [bits]
        exact Nat.mod_lt _ (Nat.two_pow_pos _)
      have form_n : HasForm length n := ⟨by omega, six, lt_formBound long six below⟩
      have whole : lead :: rest = form length n ++ rest.drop (length - 1) := by
        have mark : formLead length n = lead := by
          rw [formLead, bits, leadMark_add_mod long six first, UInt8.ofNat_toNat]
        rw [form, mark, ← tail, List.cons_append, List.take_append_drop]
      obtain ⟨length, rfl⟩ : ∃ k, length = k + 1 := ⟨length - 1, by omega⟩
      rcases Nat.lt_or_ge n (formBound length) with small | large
      · rw [whole]
        exact .inl (.overlong ⟨by omega, by omega, small⟩ form_n (Nat.lt_succ_self length))
      · exact .inr ⟨n, _, isShortest_of_le form_n large, whole⟩

private theorem isMalformed_or_exists_bytes {data : Bytes} (left : data ≠ []) :
    IsMalformed data ∨ ∃ n rest, n < bound ∧ data = bytes n ++ rest := by
  cases data with
  | nil => exact absurd rfl left
  | cons lead rest =>
      rcases lead_cases lead with single | continues | large | ⟨length, long, short, first⟩
      · refine .inr ⟨lead.toNat, rest, Nat.lt_trans single (by decide), ?_⟩
        rw [bytes_of_lt_0x80 single, UInt8.ofNat_toNat, List.singleton_append]
      · exact .inl (.stray continues)
      · exact .inl (.wide large)
      · apply (isMalformed_or_exists_form_of_isLead long short first rest).imp_right
        rintro ⟨n, tail, shortest, eq⟩
        obtain ⟨small, sequence⟩ := bytes_of_isShortest short shortest
        exact ⟨n, tail, small, by rw [eq, sequence]⟩

/-! ## Reading -/

theorem sequenceLength?_of_lt {b : UInt8} (h : b.toNat < 0x80) :
    sequenceLength? b.toNat = some 1 :=
  if_pos h

private theorem sequenceLength?_of_isLead {length : Nat} {b : UInt8} (long : 2 ≤ length)
    (short : length ≤ 4) (h : IsLead length b) : sequenceLength? b.toNat = some length := by
  obtain ⟨low, high⟩ := h
  match length with
  | 2 | 3 | 4 => simp only [leadMark] at low high; grind [sequenceLength?]

private theorem sequenceLength?_eq_none {b : UInt8} (h : IsContinuation b ∨ 0xF8 ≤ b.toNat) :
    sequenceLength? b.toNat = none := by
  rw [IsContinuation] at h
  grind [sequenceLength?]

theorem decode_cons_of_isLead {length : Nat} {lead : UInt8} (long : 2 ≤ length)
    (short : length ≤ 4) (first : IsLead length lead) (rest : Bytes) :
    decode (lead :: rest) =
      if rest.length + 1 < length then .error (.shortSequence length (rest.length + 1))
      else
        match extend? (lead.toNat % 2 ^ (7 - length)) (rest.take (length - 1)) with
        | none => .error .malformedSequence
        | some n =>
            if n < least length then .error .redundantSequence else .ok (some n, length) := by
  obtain ⟨more, rfl⟩ : ∃ more, length = more + 2 := ⟨length - 2, by omega⟩
  rw [decode, sequenceLength?_of_isLead long short first]
  rfl

theorem decode_cons_of_lt {b : UInt8} (h : b.toNat < 0x80) (rest : Bytes) :
    decode (b :: rest) = .ok (some b.toNat, 1) := by
  simp only [decode, sequenceLength?_of_lt h]

theorem decode_cons_of_no_lead {b : UInt8} (h : IsContinuation b ∨ 0xF8 ≤ b.toNat) (rest : Bytes) :
    decode (b :: rest) = .error .malformedSequence := by
  simp only [decode, sequenceLength?_eq_none h]

theorem least_succ {length : Nat} (short : length ≤ 3) : least (length + 1) = formBound length := by
  match length with
  | 0 | 1 | 2 | 3 => rfl

/-- A form of more than one byte is read as its number unless a shorter one has room for it. -/
theorem decode_form_append {length n : Nat} (long : 2 ≤ length) (short : length ≤ 4)
    (h : HasForm length n) (rest : Bytes) :
    decode (form length n ++ rest) =
      if n < least length then .error .redundantSequence else .ok (some n, length) := by
  have count := length_continuations (length - 1) n
  have taken : (continuations (length - 1) n ++ rest).take (length - 1) =
      continuations (length - 1) n := List.take_left' count
  have bits : (formLead length n).toNat % 2 ^ (7 - length) = n / 0x40 ^ (length - 1) := by
    have whole := leadMark_add_mod long h.le_six (isLead_formLead h)
    rw [toNat_formLead h] at whole ⊢
    omega
  rw [form, List.cons_append, decode_cons_of_isLead long short (isLead_formLead h), taken, bits,
    extend?_continuations, if_neg]
  rw [List.length_append, count]
  omega

theorem decode_bytes_append {n : Nat} (h : n < bound) (rest : Bytes) :
    decode (bytes n ++ rest) = .ok (some n, (bytes n).length) := by
  obtain ⟨length, short, shortest, eq⟩ := exists_isShortest h
  cases length with
  | zero => exact absurd shortest.pos (Nat.not_succ_le_zero 0)
  | succ length =>
      have large := shortest.formBound_le
      rw [eq, length_form shortest.pos]
      cases length with
      | zero =>
          have low : n < 0x80 := shortest.lt_bound
          have lead : (formLead 1 n).toNat = n := by
            rw [toNat_formLead shortest.toHasForm]
            simp [leadMark]
          have read := decode_cons_of_lt (b := formLead 1 n) (by rw [lead]; exact low) rest
          rw [lead] at read
          exact read
      | succ length =>
          rw [decode_form_append (by omega) short shortest.toHasForm,
            least_succ (Nat.le_of_succ_le_succ short), if_neg (Nat.not_lt_of_le large)]

theorem decode_of_isMalformed {data : Bytes} (h : IsMalformed data) :
    ∃ e, decode data = .error e ∧ e.kind = .argument := by
  have not_lead : ∀ {b : UInt8} (rest : Bytes), 0xF8 ≤ b.toNat →
      ∃ e, decode (b :: rest) = .error e ∧ e.kind = .argument :=
    fun rest large => ⟨_, decode_cons_of_no_lead (.inr large) rest, rfl⟩
  -- A mark of five or six bytes is among the wide ones.
  have wide_mark : ∀ {length : Nat} {b : UInt8}, 4 < length → length ≤ 6 → IsLead length b →
      0xF8 ≤ b.toNat := by
    intro length b more six first
    refine Nat.le_trans ?_ first.1
    match length with
    | 5 | 6 => decide
  cases h with
  | stray continues => exact ⟨_, decode_cons_of_no_lead (.inl continues) _, rfl⟩
  | wide large => exact not_lead _ large
  | @broken length i lead rest long six first inside missing =>
      rcases Nat.lt_or_ge 4 length with more | short
      · exact not_lead _ (wide_mark more six first)
      rw [decode_cons_of_isLead long short first]
      split
      · exact ⟨_, rfl, rfl⟩
      · next enough =>
          have here : i < rest.length := by omega
          have stop : extend? (lead.toNat % 2 ^ (7 - length)) (rest.take (length - 1)) = none := by
            refine extend?_eq_none_iff.mpr ⟨rest[i], ?_, missing _ ?_⟩
            · exact List.mem_take_iff_getElem.mpr ⟨i, by omega, rfl⟩
            · exact List.getElem?_eq_getElem here
          rw [stop]
          exact ⟨_, rfl, rfl⟩
  | @overlong shorter length n rest known longer less =>
      rcases Nat.lt_or_ge 4 length with more | short
      · exact not_lead _ (wide_mark more longer.le_six (isLead_formLead longer))
      obtain ⟨length, rfl⟩ : ∃ k, length = k + 1 := ⟨length - 1, by omega⟩
      have pos := known.pos
      have room := Nat.lt_of_lt_of_le known.lt_bound (formBound_mono (Nat.le_of_lt_succ less))
      rw [decode_form_append (by omega) short longer, least_succ (Nat.le_of_succ_le_succ short),
        if_pos room]
      exact ⟨_, rfl, rfl⟩

theorem decode_cases {data : Bytes} (left : data ≠ []) :
    (IsMalformed data ∧ ∃ e, decode data = .error e ∧ e.kind = .argument) ∨
      ∃ n rest, n < bound ∧ data = bytes n ++ rest ∧
        decode data = .ok (some n, (bytes n).length) := by
  rcases isMalformed_or_exists_bytes left with malformed | ⟨n, rest, small, rfl⟩
  · exact .inl ⟨malformed, decode_of_isMalformed malformed⟩
  · exact .inr ⟨n, rest, small, rfl, decode_bytes_append small rest⟩

theorem decode_eq_ok_iff {data : Bytes} {n size : Nat} :
    decode data = .ok (some n, size) ↔
      n < bound ∧ bytes n <+: data ∧ size = (bytes n).length := by
  constructor
  · intro h
    have left : data ≠ [] := by
      rintro rfl
      cases h
    rcases decode_cases left with ⟨-, e, fault, -⟩ | ⟨m, rest, small, rfl, read⟩
    · rw [fault] at h
      cases h
    · rw [read] at h
      cases h
      exact ⟨small, List.prefix_append _ _, rfl⟩
  · rintro ⟨small, ⟨rest, rfl⟩, rfl⟩
    exact decode_bytes_append small rest

theorem bytes_of_decode {data : Bytes} {n size : Nat}
    (h : decode data = .ok (some n, size)) : n < bound ∧ bytes n = data.take size := by
  obtain ⟨small, ⟨rest, rfl⟩, rfl⟩ := decode_eq_ok_iff.mp h
  exact ⟨small, (List.take_left' rfl).symm⟩

theorem size_le_of_decode {data : Bytes} {n size : Nat}
    (h : decode data = .ok (some n, size)) : size ≤ data.length := by
  obtain ⟨-, inside, rfl⟩ := decode_eq_ok_iff.mp h
  exact inside.length_le

theorem kind_of_decode {data : Bytes} {e : Error} (h : decode data = .error e) :
    e.kind = .argument := by
  have left : data ≠ [] := by
    rintro rfl
    cases h
  rcases decode_cases left with ⟨-, fault, read, kind⟩ | ⟨n, rest, -, -, read⟩
  · rw [read] at h
    cases h
    exact kind
  · rw [read] at h
    cases h

theorem decode_ne_none {data : Bytes} (left : data ≠ []) (size : Nat) :
    decode data ≠ .ok (none, size) := by
  intro h
  rcases decode_cases left with ⟨-, e, fault, -⟩ | ⟨n, _, -, -, read⟩
  · rw [fault] at h
    cases h
  · rw [read] at h
    cases h

theorem decode_take_bytes {n k : Nat} (h : n < bound) (some_left : 0 < k)
    (cut : k < (bytes n).length) : ∃ e, decode ((bytes n).take k) = .error e := by
  obtain ⟨length, short, shortest, eq⟩ := exists_isShortest h
  rw [eq, length_form shortest.pos] at cut
  obtain ⟨j, rfl⟩ : ∃ j, k = j + 1 := ⟨k - 1, by omega⟩
  have malformed : IsMalformed ((bytes n).take (j + 1)) := by
    rw [eq, form, List.take_succ_cons]
    refine .broken (i := j) (by omega) shortest.le_six (isLead_formLead shortest.toHasForm) cut ?_
    have missing : ((continuations (length - 1) n).take j)[j]? = none :=
      List.getElem?_eq_none (List.length_take_le _ _)
    rw [missing]
    exact fun b mem => absurd mem (Option.not_mem_none b)
  obtain ⟨e, fault, -⟩ := decode_of_isMalformed malformed
  exact ⟨e, fault⟩

theorem decode_take_bytes_append {n : Nat} (h : n < bound) (rest : Bytes) :
    decode ((bytes n ++ rest).take 4) = .ok (some n, (bytes n).length) := by
  rw [List.take_append, List.take_of_length_le (length_bytes_le n)]
  exact decode_bytes_append h _

theorem decode_take {k : Nat} (enough : 4 ≤ k) (data : Bytes) :
    decode (data.take k) = decode data := by
  cases data with
  | nil => rw [List.take_nil]
  | cons lead rest =>
      obtain ⟨j, rfl⟩ : ∃ j, k = j + 1 := ⟨k - 1, by omega⟩
      rw [List.take_succ_cons]
      rcases lead_cases lead with single | stray | wide | ⟨length, long, short, first⟩
      · rw [decode_cons_of_lt single, decode_cons_of_lt single]
      · rw [decode_cons_of_no_lead (.inl stray), decode_cons_of_no_lead (.inl stray)]
      · rw [decode_cons_of_no_lead (.inr wide), decode_cons_of_no_lead (.inr wide)]
      · by_cases few : rest.length + 1 < length
        · -- The error counts the bytes that are there, and these are all in the window.
          rw [List.take_of_length_le (by omega)]
        · have shorter : (rest.take j).take (length - 1) = rest.take (length - 1) := by
            rw [List.take_take, Nat.min_eq_left (by omega)]
          rw [decode_cons_of_isLead long short first, decode_cons_of_isLead long short first,
            if_neg few, if_neg (by rw [List.length_take]; omega), shorter]

/-! ## Recognition -/

theorem exists_error_iff {data : Bytes} (left : data ≠ []) :
    (∃ e, decode data = .error e) ↔ IsMalformed data := by
  constructor
  · rintro ⟨e, fault⟩
    rcases decode_cases left with ⟨malformed, -⟩ | ⟨n, rest, -, -, read⟩
    · exact malformed
    · rw [read] at fault
      cases fault
  · intro malformed
    obtain ⟨e, fault, -⟩ := decode_of_isMalformed malformed
    exact ⟨e, fault⟩

/-- No sequence begins another one. -/
theorem eq_of_bytes_prefix {data : Bytes} {m n : Nat} (hm : m < bound) (hn : n < bound)
    (first : bytes m <+: data) (second : bytes n <+: data) : m = n := by
  have read := decode_eq_ok_iff.mpr ⟨hm, first, rfl⟩
  rw [decode_eq_ok_iff.mpr ⟨hn, second, rfl⟩] at read
  cases read
  rfl

/-- What reading makes of some data, told by the sequences that it begins with. -/
structure Recognizes (data : Bytes) : Prop where
  accepted : ∀ r, decode data = .ok r ↔
    ∃ n < bound, ∃ bs, encode n = .ok bs ∧ bs <+: data ∧ r = (some n, bs.length)
  unique : ∀ (m n : Nat) (bs cs : Bytes), encode m = .ok bs → encode n = .ok cs →
    bs <+: data → cs <+: data → m = n
  refused : (∀ n < bound, ∀ bs, encode n = .ok bs → ¬bs <+: data) →
    ∃ e, decode data = .error e ∧ e.kind = .argument
  malformed : (∃ e, decode data = .error e) ↔ IsMalformed data

/-- Exactly the data is read that begins with the shortest form of a number. -/
theorem recognizes_shortest_forms {data : Bytes} (left : data ≠ []) :
    Recognizes data ∧
      ∀ n < bound, ∃ length, encode n = .ok (form length n) ∧ IsShortest length n := by
  refine ⟨⟨?accepted, ?unique, ?refused, exists_error_iff left⟩, ?shortest⟩
  case accepted =>
    rintro ⟨_ | n, size⟩
    · constructor
      · exact fun read => absurd read (decode_ne_none left size)
      · rintro ⟨n, -, bs, -, -, same⟩
        cases same
    · rw [decode_eq_ok_iff]
      constructor
      · rintro ⟨small, inside, rfl⟩
        exact ⟨n, small, _, encode_of_lt small, inside, rfl⟩
      · rintro ⟨m, small, bs, written, inside, same⟩
        obtain ⟨-, rfl⟩ := encode_eq_ok_iff.mp written
        cases same
        exact ⟨small, inside, rfl⟩
  case unique =>
    intro m n bs cs first second inside inside'
    obtain ⟨hm, rfl⟩ := encode_eq_ok_iff.mp first
    obtain ⟨hn, rfl⟩ := encode_eq_ok_iff.mp second
    exact eq_of_bytes_prefix hm hn inside inside'
  case refused =>
    intro none_begins
    rcases decode_cases left with ⟨-, fault⟩ | ⟨n, rest, small, rfl, -⟩
    · exact fault
    · exact absurd (List.prefix_append _ _) (none_begins n small _ (encode_of_lt small))
  case shortest =>
    intro n small
    obtain ⟨length, -, shortest, eq⟩ := exists_isShortest small
    exact ⟨length, by rw [encode_of_lt small, eq], shortest⟩

theorem recognizes_shortest_forms_surrogate :
    ¬IsMalformed [0xED, 0xA0, 0x80, 0xFF] ∧ IsMalformed [0xC0, 0x80] := by
  have surrogate := @recognizes_shortest_forms [0xED, 0xA0, 0x80, 0xFF] (by decide)
  have zero := @recognizes_shortest_forms [0xC0, 0x80] (by decide)
  have read : decode [0xED, 0xA0, 0x80, 0xFF] = .ok (some 0xD800, 3) := by rfl
  refine ⟨fun malformed => ?_, zero.1.malformed.mp ⟨.redundantSequence, by rfl⟩⟩
  obtain ⟨e, fault⟩ := surrogate.1.malformed.mpr malformed
  rw [read] at fault
  cases fault

end ByteTemplate.Codepoint
