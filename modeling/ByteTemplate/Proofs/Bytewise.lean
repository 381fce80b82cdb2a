import ByteTemplate.Proofs.Groups
import ByteTemplate.Proofs.HostIndependence
import ByteTemplate.Proofs.Text.Cut

/-!
# Templates given as bytes

A template may be given as its UTF-8 form, of which each byte is read as one character.  So a
character beyond ASCII turns into several.  None of them is a directive or a mark: the marks after
the character belong to a directive that does nothing in either form, and are refused in both forms
or in neither.
-/

namespace ByteTemplate

namespace Reading

/-- The reading without the directives that do nothing. -/
def effective (r : Reading) : Reading :=
  ⟨r.directives.filter fun d => !d.isIgnored, r.fault⟩

def append (r r' : Reading) : Reading :=
  match r.fault with
  | some _ => r
  | none => ⟨r.directives ++ r'.directives, r'.fault⟩

theorem effective_append (r r' : Reading) :
    (r.append r').effective = r.effective.append r'.effective := by
  cases fault : r.fault <;> simp [append, effective, fault]

end Reading

namespace Template

variable {config : Config}

theorem read_append (s : Text) {t : Text} (head : ∀ c ∈ t.head?, Mark.ofCodePoint? c = none) :
    read config (s ++ t) = (read config s).append (read config t) := by
  cases fault : (read config s).fault with
  | some e => simp [read_append_of_fault head fault, Reading.append, fault]
  | none => simp [read_append_of_whole head fault, Reading.append, fault]

theorem parse_eq (t : Text) : parse config t = (read config t).effective.toExcept := by
  simp only [parse, directives, Reading.toExcept, Reading.effective]
  cases (read config t).fault <;> rfl

private theorem sameOutcomes_of_effective {t t' : Text}
    (same : (read config t').effective = (read config t).effective) :
    SameOutcomes config t config t' := by
  obtain ⟨directives, fault⟩ := Reading.mk.inj same
  constructor
  · intro values
    obtain ⟨data, last⟩ := walk_pack_filter (read config t).directives values
    obtain ⟨data', last'⟩ := walk_pack_filter (read config t').directives values
    rw [directives] at data' last'
    apply packText_congr fault
    · rw [written, written, ← data', data]
    · rw [← last', last]
  · intro data
    rw [unpackBatches_eq, unpackBatches_eq, ← readBatches_filter, directives, readBatches_filter,
      fault]
  · simp only [size]
    rw [← totalSize_filter, directives, totalSize_filter, fault]

end Template

/-- A code point is inert if it is no mark, and a directive that does nothing and takes no
modifiers. -/
structure CodePoint.IsInert (c : CodePoint) : Prop where
  mark : Mark.ofCodePoint? c = none
  entry : ∀ config, Group.entry config c = .ok { codec := .ignored }
  modifiable : isModifiable c = false

theorem Mark.value_lt (m : Mark) : m.codePoint.value < 0x80 := by
  cases m with
  | digit d => revert d; decide
  | _ => decide

private theorem Entry.ofChar_of_le {c : Char} (high : 0x80 ≤ c.toNat) :
    ofChar c = { codec := .ignored } := by
  unfold ofChar
  split
  all_goals first
    | rfl
    | exact absurd high (by decide)

private theorem isModifiable_of_le {c : CodePoint} (high : 0x80 ≤ c.value) :
    isModifiable c = false := by
  cases c with
  | surrogate offset => rfl
  | scalar c =>
      have low : "sSiIlLqQ".toList.all (fun d => d.toNat < 0x80) = true := by decide
      rw [isModifiable, List.contains_eq_mem, decide_eq_false_iff_not]
      intro mem
      have below : c.toNat < 0x80 := of_decide_eq_true (List.all_eq_true.mp low c mem)
      exact Nat.not_le_of_lt below high

theorem CodePoint.isInert_of_le {c : CodePoint} (high : 0x80 ≤ c.value) : c.IsInert := by
  constructor
  · cases mark : Mark.ofCodePoint? c with
    | none => rfl
    | some m =>
        have low := m.value_lt
        rw [Mark.codePoint_of_ofCodePoint? mark] at low
        omega
  · intro config
    cases c with
    | surrogate offset => rfl
    | scalar c =>
        rw [Group.entry_of_ne, Entry.ofChar_of_le high]
        · rintro rfl
          exact absurd high (by decide)
        · rintro rfl
          exact absurd high (by decide)
  · exact isModifiable_of_le high

namespace Template

variable {config : Config}

theorem effective_read_group {g g' : Group} (inert : g.lead.IsInert) (inert' : g'.lead.IsInert)
    (marks : g'.marks = g.marks) :
    (read config g'.text).effective = (read config g.text).effective := by
  rw [read, read, Group.groups_text, Group.groups_text]
  simp only [Reading.ofGroups, Group.directive, inert.entry, inert'.entry, inert.modifiable,
    inert'.modifiable, marks]
  cases Suffix.read false {} g.marks with
  | error fault => rfl
  | ok suffix => simp [Reading.effective, Directive.isIgnored, Codec.toNative]

private theorem effective_read_inert {c : CodePoint} (inert : c.IsInert) :
    (read config [c]).effective = ⟨[], none⟩ := by
  have group : (read config [c]).effective = (read config [.surrogate 0]).effective :=
    @effective_read_group config ⟨.surrogate 0, []⟩ ⟨c, []⟩
      (CodePoint.isInert_of_le (by decide)) inert rfl
  rw [group]
  rfl

/-- Of several inert code points the last one takes the marks, which makes no difference. -/
theorem effective_read_inert_marks {c : CodePoint} (inert : c.IsInert) (marks : List Mark)
    {cs : Text} (others : ∀ c' ∈ cs, c'.IsInert) (some_left : cs ≠ []) :
    (read config (cs ++ marks.map Mark.codePoint)).effective =
      (read config (Group.text ⟨c, marks⟩)).effective := by
  induction cs with
  | nil => contradiction
  | cons c' cs ih =>
      rw [List.forall_mem_cons] at others
      cases cs with
      | nil => exact @effective_read_group config ⟨c, marks⟩ ⟨c', marks⟩ inert others.1 rfl
      | cons c'' cs =>
          have head : Mark.ofCodePoint? c'' = none := (others.2 c'' (by simp)).mark
          have apart := @read_append config [c'] (c'' :: cs ++ marks.map Mark.codePoint)
            (by simpa using head)
          rw [List.cons_append, ← List.singleton_append, apart, Reading.effective_append,
            effective_read_inert others.1]
          exact ih others.2 (List.cons_ne_nil _ _)

end Template

/-! ## Texts byte by byte -/

/-- The bytes of the UTF-8 form as characters; a surrogate has none and stays. -/
def CodePoint.bytewise : CodePoint → Text
  | .scalar c => Text.ofBytes (String.utf8EncodeChar c)
  | .surrogate offset => [.surrogate offset]

def Text.bytewise (t : Text) : Text :=
  t.flatMap CodePoint.bytewise

namespace CodePoint

private theorem value_ofByte (b : UInt8) : (ofByte b).value = b.toNat := by
  have bound := b.toNat_lt
  have valid : b.toNat.isValidChar := .inl (by omega)
  rw [ofByte, value, Char.ofNat, dif_pos valid]
  rfl

theorem bytewise_of_lt {c : CodePoint} (low : c.value < 0x80) : c.bytewise = [c] := by
  cases c with
  | surrogate offset => rfl
  | scalar c =>
      have ascii : c.toNat < 0x80 := low
      have byte : (UInt8.ofNat c.toNat).toNat = c.toNat :=
        UInt8.toNat_ofNat_of_lt' (Nat.lt_trans ascii (by decide))
      rw [bytewise, Text.utf8EncodeChar_of_ascii ascii]
      simp [Text.ofBytes, ofByte, byte, Char.ofNat_toNat]

theorem isInert_of_mem_bytewise {c : CodePoint} (high : 0x80 ≤ c.value) :
    ∀ c' ∈ c.bytewise, c'.IsInert := by
  intro c' mem
  cases c with
  | surrogate offset =>
      rw [List.mem_singleton.mp mem]
      exact isInert_of_le high
  | scalar c =>
      obtain ⟨b, part, rfl⟩ := List.mem_map.mp mem
      apply isInert_of_le
      rw [value_ofByte]
      exact Text.le_of_mem_utf8EncodeChar high b part

theorem bytewise_ne_nil (c : CodePoint) : c.bytewise ≠ [] := by
  cases c with
  | surrogate offset => exact List.cons_ne_nil _ _
  | scalar c =>
      have pos := Text.length_utf8EncodeChar_pos c
      apply List.ne_nil_of_length_pos
      rw [bytewise, Text.ofBytes, List.length_map]
      exact pos

end CodePoint

namespace Text

private theorem bytewise_ofChars (cs : List Char) :
    (ofChars cs).bytewise = ofBytes (utf8OfChars cs) := by
  induction cs with
  | nil => rfl
  | cons c cs ih =>
      rw [utf8OfChars_cons, ofBytes, List.map_append, ← ofBytes, ← ofBytes, ← ih]
      rfl

private theorem bytewise_marks (marks : List Mark) :
    bytewise (marks.map Mark.codePoint) = marks.map Mark.codePoint := by
  induction marks with
  | nil => rfl
  | cons m marks ih =>
      rw [List.map_cons, bytewise, List.flatMap_cons, ← bytewise, ih,
        CodePoint.bytewise_of_lt m.value_lt]
      rfl

private theorem head_bytewise {t : Text} (head : ∀ c ∈ t.head?, Mark.ofCodePoint? c = none) :
    ∀ c ∈ t.bytewise.head?, Mark.ofCodePoint? c = none := by
  cases t with
  | nil => exact head
  | cons c t =>
      have own : Mark.ofCodePoint? c = none := head c (by simp)
      rw [bytewise, List.flatMap_cons, List.head?_append_of_ne_nil _ c.bytewise_ne_nil]
      intro c' mem
      by_cases low : c.value < 0x80
      · rw [CodePoint.bytewise_of_lt low] at mem
        cases mem
        exact own
      · have part := List.mem_of_mem_head? mem
        exact (CodePoint.isInert_of_mem_bytewise (Nat.le_of_not_lt low) c' part).mark

end Text

namespace Template

variable {config : Config}

private theorem effective_read_bytewise_group (g : Group) :
    (read config g.text.bytewise).effective = (read config g.text).effective := by
  have parts : g.text.bytewise = g.lead.bytewise ++ g.marks.map Mark.codePoint := by
    rw [Group.text, Text.bytewise, List.flatMap_cons, ← Text.bytewise, Text.bytewise_marks]
  rw [parts]
  by_cases low : g.lead.value < 0x80
  · rw [CodePoint.bytewise_of_lt low]
    rfl
  · have high : 0x80 ≤ g.lead.value := Nat.le_of_not_lt low
    apply effective_read_inert_marks (CodePoint.isInert_of_le high)
    · exact CodePoint.isInert_of_mem_bytewise high
    · exact g.lead.bytewise_ne_nil

private theorem effective_read_bytewise (t : Text) :
    (read config t.bytewise).effective = (read config t).effective := by
  generalize split : t.groups = gs
  induction gs generalizing t with
  | nil => rw [Text.eq_nil_of_groups split]; rfl
  | cons g gs ih =>
      obtain ⟨rest, rfl, others, head⟩ := Text.eq_append_of_groups split
      have apart : (g.text ++ rest).bytewise = g.text.bytewise ++ rest.bytewise :=
        List.flatMap_append
      calc
        (read config (g.text ++ rest).bytewise).effective
          = (read config g.text.bytewise).effective.append
              (read config rest.bytewise).effective := by
            rw [apart, read_append _ (Text.head_bytewise head), Reading.effective_append]
        _ = (read config g.text).effective.append (read config rest).effective := by
            rw [effective_read_bytewise_group, ih rest others]
        _ = (read config (g.text ++ rest)).effective := by
            rw [read_append _ head, Reading.effective_append]

/-! ## Text and bytes -/

/-- A template and its UTF-8 form have the same directives or the same fault, and pack, unpack and
measure alike. -/
theorem bytes_agree_with_text (config : Config) {t : Text}
    (scalar : t.any CodePoint.isSurrogate = false) :
    ∃ bs : Bytes, t.utf8? = some bs ∧ ofValue (.text t) = .ok t ∧
      ofValue (.bytes .fixed bs) = .ok (Text.ofBytes bs) ∧
      parse config (Text.ofBytes bs) = parse config t ∧
      (∀ values, pack config values (.bytes .fixed bs) = pack config values (.text t)) ∧
      (∀ data, unpack config data (Text.ofBytes bs) = unpack config data t) ∧
      size config (Text.ofBytes bs) = size config t := by
  obtain ⟨cs, rfl⟩ := Text.exists_eq_ofChars scalar
  have same := @effective_read_bytewise config (Text.ofChars cs)
  rw [Text.bytewise_ofChars] at same
  have outcomes := sameOutcomes_of_effective same
  refine ⟨Text.utf8OfChars cs, Text.utf8?_ofChars cs, rfl, rfl, ?_, ?_, ?_, outcomes.measured⟩
  · rw [parse_eq, parse_eq, same]
  · intro values
    exact outcomes.packed values.elements
  · intro data
    rw [unpack, unpack, outcomes.unpacked]

theorem bytes_agree_with_text_accented :
    pack .default (.list [.int 258]) (.bytes .fixed [0xC3, 0xA9, 0x33, 0x6E]) = .ok [1, 2] ∧
      parse .default (Text.ofBytes [0x6E, 0xC3, 0xA9, 0x5F]) =
        .error (.modifierNotAllowed '_') := by
  constructor
  · obtain ⟨bs, form, -, -, -, packed, -⟩ := bytes_agree_with_text .default
      (t := Text.ofChars ['é', '3', 'n']) (by decide)
    obtain rfl : bs = [0xC3, 0xA9, 0x33, 0x6E] :=
      Option.some.inj (form.symm.trans (by decide))
    rw [packed]
    decide
  · obtain ⟨bs, form, -, -, parsed, -⟩ := bytes_agree_with_text .default
      (t := Text.ofChars ['n', 'é', '_']) (by decide)
    obtain rfl : bs = [0x6E, 0xC3, 0xA9, 0x5F] :=
      Option.some.inj (form.symm.trans (by decide))
    rw [parsed]
    decide

end Template

end ByteTemplate
