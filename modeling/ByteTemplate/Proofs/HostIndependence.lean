import Mathlib.Data.List.Forall2
import ByteTemplate.Proofs.FixedSize
import ByteTemplate.Proofs.Grammar

/-!
# Independence of the host

Two directives do the same wherever they differ in the byte order only and have no elements of
several bytes.  So a template does the same on every host, if it leaves neither the size nor the
byte order of such elements to the host; and where it leaves the byte order, a mark that sets it
stands for the host.
-/

namespace ByteTemplate

/-- Whether the byte order is seen in the data. -/
def Codec.isOrdered : Codec → Bool
  | .element (.integer _ width) => width != 1
  | .element (.float _) => true
  | _ => false

section

variable {order order' : ByteOrder} {e : Element}

theorem ByteOrder.arrange_of_length_one {bs : Bytes} (one : bs.length = 1) :
    order.arrange bs = bs := by
  obtain ⟨b, rfl⟩ := List.length_eq_one_iff.mp one
  cases order <;> rfl

private theorem Element.encode_eq_of_order
    (same : (Codec.element e).isOrdered = true → order' = order)
    (v : Value) : e.encode order' v = e.encode order v := by
  by_cases ordered : (Codec.element e).isOrdered = true
  · rw [same ordered]
  cases e with
  | float precision => exact absurd rfl ordered
  | codepoint => rfl
  | integer signed width =>
      obtain rfl : width = 1 := by simpa [Codec.isOrdered] using ordered
      have single : ∀ n, Integer.encode 1 order' n = Integer.encode 1 order n := by
        intro n
        have length := Integer.length_toLittle 1 (n % (256 ^ 1 : Nat)).toNat
        rw [Integer.encode, Integer.encode, ByteOrder.arrange_of_length_one length,
          ByteOrder.arrange_of_length_one length]
      rw [Element.encode, Element.encode, funext single]

private theorem Element.encodeAll_eq_of_order
    (same : (Codec.element e).isOrdered = true → order' = order) (vs : List Value) :
    e.encodeAll order' vs = e.encodeAll order vs := by
  induction vs with
  | nil => rfl
  | cons v vs ih => rw [Element.encodeAll, Element.encodeAll, Element.encode_eq_of_order same, ih]

private theorem readElements_congr {width : Nat} {decode decode' : Bytes → Except Error Value}
    (same : ∀ bs, bs.length = width → decode' bs = decode bs) (limit : Nat) :
    ∀ data, readElements width decode' limit data = readElements width decode limit data := by
  induction limit with
  | zero => exact fun _ => rfl
  | succ limit ih =>
      intro data
      simp only [readElements]
      split
      · rfl
      · next enough =>
          have length : (data.take width).length = width := by
            rw [List.length_take] at enough ⊢
            omega
          rw [same _ length, ih]

private theorem Element.decode_eq_of_order {config config' : Config}
    (bits : config'.maxBits = config.maxBits)
    (same : (Codec.element e).isOrdered = true → order' = order) (count : Option Nat)
    (data : Bytes) : e.decode config' order' count data = e.decode config order count data := by
  by_cases ordered : (Codec.element e).isOrdered = true
  · rw [same ordered]
    cases e <;> simp only [Element.decode, bits]
  cases e with
  | float precision => exact absurd rfl ordered
  | codepoint => rfl
  | integer signed width =>
      obtain rfl : width = 1 := by simpa [Codec.isOrdered] using ordered
      simp only [Element.decode, decodeFixed, bits]
      congr 1
      refine readElements_congr (fun bs one => ?_) _ data
      simp only [Integer.decodeWithin, Integer.decode, ByteOrder.arrange_of_length_one one]

end

/-! ## Directives that agree -/

/-- Two directives agree if they differ in modifiers only, and in the byte order where it is not
seen. -/
structure Directive.Agrees (d d' : Directive) : Prop where
  char : d'.char = d.char
  codec : d'.codec = d.codec
  count : d'.count = d.count
  order : d.codec.isOrdered = true → d'.order = d.order

namespace Directive.Agrees

variable {d d' : Directive}

theorem byteSize (h : d.Agrees d') : d'.byteSize = d.byteSize := by
  simp only [Directive.byteSize, h.codec, h.count]

theorem size (h : d.Agrees d') : d'.size = d.size := by
  simp only [Directive.size, h.byteSize, h.codec, h.char]

theorem pack (h : d.Agrees d') (values : List Value) :
    d'.pack values = (d.pack values).map fun (o, rest) => ({ o with directive := d' }, rest) := by
  have codec := h.codec
  cases own : d.codec with
  | element e =>
      rw [own] at codec
      have same := Element.encodeAll_eq_of_order (own ▸ h.order)
        (values.take (d.count.getD values.length))
      simp only [Directive.pack, own, codec, h.count, same]
      cases e.encodeAll d.order (values.take (d.count.getD values.length)) <;> rfl
  | block b =>
      rw [own] at codec
      simp only [Directive.pack, own, codec, h.count]
      cases values with
      | nil => rfl
      | cons v rest => cases bytes : v.toBytes <;> simp only [bytes] <;> rfl
  | null =>
      rw [own] at codec
      simp only [Directive.pack, own, codec, h.count]
      rfl
  | ignored =>
      rw [own] at codec
      simp only [Directive.pack, own, codec]
      rfl

theorem decode {config config' : Config} (h : d.Agrees d')
    (bits : config'.maxBits = config.maxBits) (data : Bytes) :
    d'.decode config' data = d.decode config data := by
  have codec := h.codec
  have look : d'.look data = d.look data := by simp only [Directive.look, h.byteSize]
  cases own : d.codec with
  | element e =>
      rw [own] at codec
      have same := Element.decode_eq_of_order bits (own ▸ h.order) d.count data
      simp only [Directive.decode, own, codec, h.count, same]
  | block b =>
      rw [own] at codec
      simp only [Directive.decode, own, codec, h.count, look]
  | null =>
      rw [own] at codec
      simp only [Directive.decode, own, codec, h.count]
  | ignored =>
      rw [own] at codec
      simp only [Directive.decode, own, codec]

end Directive.Agrees

section

variable {config config' : Config} {ds ds' : List Directive}

private theorem walk_pack_of_agree (h : List.Forall₂ Directive.Agrees ds ds') :
    ∀ values, (walk Directive.pack values ds').2 = (walk Directive.pack values ds).2 ∧
      (walk Directive.pack values ds').1.map Output.piece =
        (walk Directive.pack values ds).1.map Output.piece := by
  induction h with
  | nil => exact fun _ => ⟨rfl, rfl⟩
  | @cons d d' ds ds' first _ ih =>
      intro values
      simp only [walk, first.pack values]
      cases d.pack values with
      | error e => exact ⟨rfl, rfl⟩
      | ok result =>
          obtain ⟨last, pieces⟩ := ih result.2
          exact ⟨last, by simp only [Except.map, List.map_cons, pieces]⟩

private theorem readBatches_of_agree (bits : config'.maxBits = config.maxBits)
    (h : List.Forall₂ Directive.Agrees ds ds') :
    ∀ start data, readBatches config' start data ds' = readBatches config start data ds := by
  induction h with
  | nil => exact fun _ _ => rfl
  | cons first _ ih =>
      intro start data
      simp only [readBatches, first.decode bits, ih]

private theorem totalSize_of_agree (h : List.Forall₂ Directive.Agrees ds ds') :
    totalSize ds' = totalSize ds := by
  induction h with
  | nil => rfl
  | cons first _ ih => simp only [totalSize, first.size, ih]

end

/-! ## Templates that agree -/

inductive Group.Matches (config config' : Config) (g g' : Group) : Prop
  | directives {d d'} (own : g.directive config = .ok d) (other : g'.directive config' = .ok d')
      (agree : d.Agrees d')
  | faults {fault fault'} (own : g.directive config = .error fault)
      (other : g'.directive config' = .error fault') (same : fault'.error = fault.error)

private theorem Reading.ofGroups_of_matches {config config' : Config} {gs gs' : List Group}
    (h : List.Forall₂ (Group.Matches config config') gs gs') :
    List.Forall₂ Directive.Agrees (ofGroups config gs).directives
        (ofGroups config' gs').directives ∧
      (ofGroups config' gs').fault = (ofGroups config gs).fault := by
  induction h with
  | nil => exact ⟨.nil, rfl⟩
  | cons first _ ih =>
      rcases first with ⟨own, other, agree⟩ | ⟨own, other, same⟩
      · simp only [ofGroups, own, other]
        exact ⟨.cons agree ih.1, ih.2⟩
      · simp only [ofGroups, own, other, same]
        exact ⟨.nil, trivial⟩

namespace Template

/-- Packing, unpacking and measuring by one template come out as they do by another. -/
structure SameOutcomes (config : Config) (t : Text) (config' : Config) (t' : Text) : Prop where
  packed : ∀ values, packText config' values t' = packText config values t
  unpacked : ∀ data, unpackBatches config' data t' = unpackBatches config data t
  measured : size config' t' = size config t

theorem sameOutcomes_of_matches {config config' : Config} {t t' : Text}
    (bits : config'.maxBits = config.maxBits)
    (h : List.Forall₂ (Group.Matches config config') t.groups t'.groups) :
    SameOutcomes config t config' t' := by
  obtain ⟨agree, fault⟩ : List.Forall₂ Directive.Agrees (read config t).directives
      (read config' t').directives ∧ (read config' t').fault = (read config t).fault :=
    Reading.ofGroups_of_matches h
  refine ⟨fun values => ?_, fun data => ?_, ?_⟩
  · obtain ⟨last, pieces⟩ := walk_pack_of_agree agree values
    have data : written config' values t' = written config values t := by
      have joined : ∀ outputs : List Output, (outputs.flatMap fun o => o.piece.data) =
          (outputs.map Output.piece).flatMap Piece.data := fun _ => (List.flatMap_map _ _ _).symm
      rw [written, written, joined, joined, pieces]
    exact packText_congr fault data last
  · rw [unpackBatches_eq, unpackBatches_eq, readBatches_of_agree bits agree, fault]
  · simp only [size, totalSize_of_agree agree, fault]

end Template

namespace Suffix

inductive SameCount : Except Fault Suffix → Except Fault Suffix → Prop
  | ok {s s' : Suffix} (count : s'.count = s.count) : SameCount (.ok s) (.ok s')
  | error {fault fault' : Fault} (same : fault'.error = fault.error) :
      SameCount (.error fault) (.error fault')

theorem SameCount.refl (r : Except Fault Suffix) : SameCount r r := by
  cases r with
  | ok s => exact .ok rfl
  | error fault => exact .error rfl

variable {modifiable : Bool}

theorem inCount_of_push {s s' : Suffix} {m : Mark} (h : s.push modifiable m = .ok s') :
    s'.inCount = m.isDigit := by
  cases m with
  | digit d =>
      simp only [push, pushDigit] at h
      split at h
      · split at h
        · cases h
        · cases h
          assumption
      · cases h
        rfl
  | star =>
      cases h
      rfl
  | _ =>
      cases modifiable with
      | true =>
          cases h
          rfl
      | false => cases h

private theorem isDigit_of_inCount {marks : List Mark} {s : Suffix}
    (h : read modifiable {} marks = .ok s) (inside : s.inCount = true) :
    ∃ m ∈ marks.getLast?, m.isDigit = true := by
  rcases List.eq_nil_or_concat marks with rfl | ⟨front, m, rfl⟩
  · cases h
    cases inside
  · rw [List.concat_eq_append] at h ⊢
    rw [read_append] at h
    cases before : read modifiable {} front with
    | error fault => simp [before] at h
    | ok s₀ =>
        simp only [before, read] at h
        cases pushed : s₀.push modifiable m with
        | error e => simp [pushed] at h
        | ok s' =>
            simp only [pushed, Except.ok.injEq] at h
            subst h
            exact ⟨m, by simp, by rw [← inCount_of_push pushed, inside]⟩

private theorem push_of_count {s s' : Suffix} {m : Mark} (count : s'.count = s.count)
    (inside : m.isDigit = true → s'.inCount = s.inCount) :
    (∃ e, s.push modifiable m = .error e ∧ s'.push modifiable m = .error e) ∨
      ∃ next next', s.push modifiable m = .ok next ∧ s'.push modifiable m = .ok next' ∧
        next'.count = next.count := by
  cases m with
  | digit d =>
      simp only [push, pushDigit, inside rfl, count]
      split
      · split
        · exact .inl ⟨_, rfl, rfl⟩
        · exact .inr ⟨_, _, rfl, rfl, rfl⟩
      · exact .inr ⟨_, _, rfl, rfl, rfl⟩
  | star => exact .inr ⟨_, _, rfl, rfl, rfl⟩
  | _ =>
      cases modifiable with
      | true => exact .inr ⟨_, _, rfl, rfl, count⟩
      | false => exact .inl ⟨_, rfl, rfl⟩

private theorem read_of_count {marks : List Mark} :
    ∀ {s s' : Suffix}, s'.count = s.count →
      (∀ m ∈ marks.head?, m.isDigit = true → s'.inCount = s.inCount) →
        SameCount (read modifiable s marks) (read modifiable s' marks) := by
  induction marks with
  | nil => exact fun count _ => .ok count
  | cons m marks ih =>
      intro s s' count inside
      rcases @push_of_count modifiable s s' m count (inside m rfl) with
        ⟨e, own, other⟩ | ⟨next, next', own, other, more⟩
      · simp only [read, own, other]
        exact .error rfl
      · simp only [read, own, other]
        -- Whether a further digit continues the count depends on the mark just read alone.
        refine ih more fun _ _ _ => ?_
        rw [inCount_of_push own, inCount_of_push other]

/-- A modifier that does not part the digits of a count leaves the count as it is. -/
theorem sameCount_insert {front back : List Mark} {m : Mark} {own : Modifiers}
    (known : m.modifiers? = some own)
    (whole : ∀ a ∈ front.getLast?, ∀ b ∈ back.head?, ¬(a.isDigit = true ∧ b.isDigit = true)) :
    SameCount (read true {} (front ++ back)) (read true {} (front ++ m :: back)) := by
  rw [read_append, read_append]
  cases before : read true {} front with
  | error fault => exact .error rfl
  | ok s =>
      have pushed : s.push true m = .ok (s.modify own) := by
        cases m with
        | digit d => cases known
        | star => cases known
        | _ =>
            cases known
            rfl
      simp only [read, pushed]
      refine read_of_count rfl fun b head digit => ?_
      cases inside : s.inCount with
      | false => rfl
      | true =>
          obtain ⟨a, last, also⟩ := isDigit_of_inCount before inside
          exact absurd ⟨also, digit⟩ (whole a last b head)

end Suffix

theorem Group.matches_of_read {config config' : Config} {g g' : Group} (lead : g'.lead = g.lead)
    (entries : Group.entry config' g.lead = Group.entry config g.lead)
    (counts : Suffix.SameCount (Suffix.read (isModifiable g.lead) {} g.marks)
      (Suffix.read (isModifiable g.lead) {} g'.marks))
    (agree : ∀ d d', g.directive config = .ok d → g'.directive config' = .ok d' →
      d'.codec = d.codec ∧ (d.codec.isOrdered = true → d'.order = d.order)) :
    g.Matches config config' g' := by
  cases found : Group.entry config g.lead with
  | error e =>
      have own : g.directive config = .error ⟨e, g.marks.length⟩ := by
        simp only [Group.directive, found]
      have other : g'.directive config' = .error ⟨e, g'.marks.length⟩ := by
        simp only [Group.directive, lead, entries, found]
      exact .faults own other rfl
  | ok entry =>
      generalize read : Suffix.read (isModifiable g.lead) {} g.marks = r at counts
      generalize read' : Suffix.read (isModifiable g.lead) {} g'.marks = r' at counts
      have own := Group.directive.eq_1 config g
      have other := Group.directive.eq_1 config' g'
      simp only [lead, entries, found, read, read'] at own other
      cases counts with
      | error same => exact .faults own other same
      | ok count =>
          obtain ⟨codec, order⟩ := agree _ _ own other
          exact .directives own other ⟨rfl, codec, count, order⟩

/-! ## Templates that leave nothing to the host -/

/-- Whether a group has the same sizes on every host, and the same byte order if it is seen. -/
structure Group.IsPortable (g : Group) : Prop where
  lead : g.lead ∉ Text.ofString "IidDfF"
  ordered : g.lead ∈ Text.ofString "sSlLqQ" → .less ∈ g.marks ∨ .greater ∈ g.marks
  fixed : g.lead ∈ Text.ofString "lL" → .underscore ∉ g.marks ∧ .bang ∉ g.marks

instance Group.decidableIsPortable (g : Group) : Decidable g.IsPortable :=
  decidable_of_iff
    (g.lead ∉ Text.ofString "IidDfF" ∧
      (g.lead ∈ Text.ofString "sSlLqQ" → .less ∈ g.marks ∨ .greater ∈ g.marks) ∧
      (g.lead ∈ Text.ofString "lL" → .underscore ∉ g.marks ∧ .bang ∉ g.marks))
    ⟨fun ⟨lead, ordered, fixed⟩ => ⟨lead, ordered, fixed⟩,
      fun ⟨lead, ordered, fixed⟩ => ⟨lead, ordered, fixed⟩⟩

theorem Modifiers.order_of_set {m : Modifiers} (set : m.little = true ∨ m.big = true)
    (host host' : ByteOrder) : m.order host = m.order host' := by
  unfold Modifiers.order
  rcases set with set | set <;> simp [set]

private theorem Entry.isOrdered_ofChar {c : Char} (integer : c ∉ "sSlLqQ".toList)
    (float : c ∉ "dDfF".toList) :
    (ofChar c).codec.isOrdered = true →
      (ofChar c).modifiers.little = true ∨ (ofChar c).modifiers.big = true := by
  unfold ofChar
  split <;> simp_all [Codec.isOrdered]

namespace Group.IsPortable

variable {g : Group} {c : Char}

theorem entry (h : g.IsPortable) (lead : g.lead = .scalar c) (config : Config) :
    Group.entry config g.lead = .ok (Entry.ofChar c) := by
  have outside := h.lead
  rw [lead] at outside ⊢
  refine Group.entry_of_ne config ?_ ?_
  · rintro rfl
    exact outside (by decide)
  · rintro rfl
    exact outside (by decide)

theorem toNative (h : g.IsPortable) (native : (Modifiers.ofMarks g.marks).native = true)
    (codec : Codec) (config : Config) :
    codec.toNative config g.lead = codec.toNative .default g.lead := by
  have marked : .underscore ∈ g.marks ∨ .bang ∈ g.marks := by
    simpa [Modifiers.ofMarks] using native
  have outside := h.lead
  have long := h.fixed
  cases lead : g.lead with
  | surrogate offset => cases codec <;> rfl
  | scalar c =>
      rw [lead] at outside long
      refine Codec.toNative_eq_of_ne codec ⟨?_, ?_, ?_, ?_⟩ <;> rintro rfl
      · exact outside (by decide)
      · exact outside (by decide)
      · obtain ⟨no_underscore, no_bang⟩ := long (by decide)
        exact marked.elim no_underscore no_bang
      · obtain ⟨no_underscore, no_bang⟩ := long (by decide)
        exact marked.elim no_underscore no_bang

theorem order (h : g.IsPortable) {d : Directive} {config : Config}
    (own : g.directive config = .ok d) (ordered : d.codec.isOrdered = true) :
    d.modifiers.little = true ∨ d.modifiers.big = true := by
  obtain ⟨entry, s, found, read, rfl⟩ := Group.directive_eq_ok own
  obtain ⟨sums, -⟩ := Suffix.sums_of_read read
  simp only [Modifiers.union, Bool.or_eq_true]
  cases lead : g.lead with
  | surrogate offset =>
      rw [lead] at found
      cases found
      simp [Codec.toNative, Codec.isOrdered] at ordered
  | scalar c =>
      have outside := h.lead
      have marked := h.ordered
      rw [h.entry lead] at found
      obtain rfl := Except.ok.inj found
      rw [lead] at outside marked ordered
      by_cases integer : CodePoint.scalar c ∈ Text.ofString "sSlLqQ"
      · rw [sums.modifiers]
        simp only [Modifiers.ofMarks, List.contains_iff_mem]
        exact (marked integer).imp .inr .inr
      · simp only [Text.ofString, Text.ofChars, List.mem_map, CodePoint.scalar.injEq,
          exists_eq_right] at outside integer
        -- No family has the character, so that its own width is its native one.
        have kept : ∀ codec : Codec, codec.toNative config (.scalar c) = codec := by
          intro codec
          rw [Codec.toNative_eq]
          refine Codec.resize_self (fun width => ?_) codec
          simp only [familyWidth, Text.ofString, Text.ofChars, List.mem_map,
            CodePoint.scalar.injEq, exists_eq_right]
          simp_all
        rw [kept, ite_self] at ordered
        have float : c ∉ "dDfF".toList := fun mem => outside (by simp_all)
        exact (Entry.isOrdered_ofChar integer float ordered).imp .inl .inl

theorem agrees (h : g.IsPortable) (config config' : Config) : g.Matches config config' g := by
  have entries : Group.entry config' g.lead = Group.entry config g.lead := by
    cases lead : g.lead with
    | surrogate offset => rfl
    | scalar c => rw [← lead, h.entry lead, h.entry lead]
  refine Group.matches_of_read rfl entries (.refl _) fun d d' own other => ?_
  have set : d.codec.isOrdered = true → _ := h.order own
  obtain ⟨entry, s, found, read, rfl⟩ := Group.directive_eq_ok own
  obtain ⟨entry', s', found', read', rfl⟩ := Group.directive_eq_ok other
  rw [entries, found] at found'
  obtain rfl := Except.ok.inj found'
  rw [read] at read'
  obtain rfl := Except.ok.inj read'
  refine ⟨?_, fun ordered => Modifiers.order_of_set (set ordered) _ _⟩
  have asked : (entry.modifiers.union s.modifiers).native = (Modifiers.ofMarks g.marks).native := by
    rw [Modifiers.union, (Group.entry_eq_ok_iff.mp found).native_eq_false, Bool.false_or,
      (Suffix.sums_of_read read).1.modifiers]
  cases native : (Modifiers.ofMarks g.marks).native with
  | false => simp only [asked, native, Bool.false_eq_true, if_false]
  | true => simp only [asked, native, if_true, h.toNative native]

end Group.IsPortable

/-! ## Marks that stand for the host -/

def ByteOrder.mark : ByteOrder → Mark
  | .little => .less
  | .big => .greater

/-- One group is another with one more mark, which does not part the digits of a count. -/
inductive Group.IsWith (m : Mark) : Group → Group → Prop
  | insert {lead front back}
      (whole : ∀ a ∈ front.getLast?, ∀ b ∈ back.head?, ¬(a.isDigit = true ∧ b.isDigit = true)) :
      IsWith m ⟨lead, front ++ back⟩ ⟨lead, front ++ m :: back⟩

/-- Whether a group has integers and leaves their byte order to the host. -/
structure Group.IsHostOrdered (g : Group) : Prop where
  lead : g.lead ∈ Text.ofString "sSlLqQIi"
  no_less : .less ∉ g.marks
  no_greater : .greater ∉ g.marks

instance Group.decidableIsHostOrdered (g : Group) : Decidable g.IsHostOrdered :=
  decidable_of_iff
    (g.lead ∈ Text.ofString "sSlLqQIi" ∧ .less ∉ g.marks ∧ .greater ∉ g.marks)
    ⟨fun ⟨lead, no_less, no_greater⟩ => ⟨lead, no_less, no_greater⟩,
      fun ⟨lead, no_less, no_greater⟩ => ⟨lead, no_less, no_greater⟩⟩

def Config.withByteOrder (config : Config) (order : ByteOrder) : Config :=
  { config with byteOrder := order }

theorem Group.entry_withByteOrder (config : Config) (order : ByteOrder) (c : CodePoint) :
    Group.entry (config.withByteOrder order) c = Group.entry config c := rfl

private theorem Codec.toNative_withByteOrder (config : Config) (order : ByteOrder) (c : CodePoint)
    (codec : Codec) : codec.toNative (config.withByteOrder order) c = codec.toNative config c := rfl

theorem Modifiers.ofMarks_insert {front back : List Mark} {m : Mark} {own : Modifiers}
    (known : m.modifiers? = some own) :
    ofMarks (front ++ m :: back) = (ofMarks (front ++ back)).union own := by
  cases m with
  | digit d => cases known
  | star => cases known
  | _ =>
      cases known
      simp [ofMarks, union]

namespace Group.IsHostOrdered

variable {g : Group}

theorem isModifiable (h : g.IsHostOrdered) : isModifiable g.lead = true := by
  have all : ∀ c ∈ Text.ofString "sSlLqQIi", ByteTemplate.isModifiable c = true := by decide
  exact all _ h.lead

private theorem modifiers_eq (h : g.IsHostOrdered) {config : Config} {entry : Entry}
    (found : Group.entry config g.lead = .ok entry) : entry.modifiers = {} := by
  have all : ∀ c ∈ "sSlLqQIi".toList, (Entry.ofChar c).modifiers = {} := by simp [Entry.ofChar]
  have stands : ∀ known ∈ Entry.aliases, (Entry.ofChar known.2.2).modifiers = {} := by decide
  have lead := h.lead
  have own := Group.entry_eq_ok_iff.mp found
  generalize g.lead = c at lead own
  cases own with
  | surrogate offset => rfl
  | own upper lower => exact all _ (by simpa [Text.ofString, Text.ofChars] using lead)
  | native known => exact stands _ known

theorem unset (h : g.IsHostOrdered) :
    (Modifiers.ofMarks g.marks).little = false ∧ (Modifiers.ofMarks g.marks).big = false := by
  simp [Modifiers.ofMarks, h.no_less, h.no_greater]

end Group.IsHostOrdered

theorem Group.IsWith.agrees {order : ByteOrder} {g g' : Group} (h : IsWith order.mark g g')
    (host : g.IsHostOrdered) (config : Config) :
    g.Matches (config.withByteOrder order) config g' := by
  obtain ⟨own, known, no_native, sets⟩ : ∃ own, order.mark.modifiers? = some own ∧
      own.native = false ∧ ∀ host, own.order host = order := by
    cases order <;> exact ⟨_, rfl, rfl, fun _ => rfl⟩
  cases h with
  | @insert lead front back whole =>
      refine Group.matches_of_read rfl rfl ?_ fun d d' before after => ?_
      · rw [host.isModifiable]
        exact Suffix.sameCount_insert known whole
      · obtain ⟨entry, s, found, read, rfl⟩ := Group.directive_eq_ok before
        obtain ⟨entry', s', found', read', rfl⟩ := Group.directive_eq_ok after
        rw [Group.entry_withByteOrder, found'] at found
        obtain rfl := Except.ok.inj found
        obtain ⟨no_little, no_big⟩ := host.unset
        have plain : entry'.modifiers = {} := host.modifiers_eq found'
        have marks := (Suffix.sums_of_read read).1.modifiers
        have marks' := (Suffix.sums_of_read read').1.modifiers
        rw [Modifiers.ofMarks_insert known, ← marks] at marks'
        rw [← marks] at no_little no_big
        refine ⟨?_, fun _ => ?_⟩
        · simp only [plain, marks', Modifiers.union, no_native, Bool.or_false,
            Codec.toNative_withByteOrder]
        · have after : (entry'.modifiers.union s'.modifiers).order config.byteOrder =
              own.order config.byteOrder := by
            simp only [plain, marks', Modifiers.union, Modifiers.order, no_little, no_big,
              Bool.false_or]
          have before : (entry'.modifiers.union s.modifiers).order order = order := by
            simp only [plain, Modifiers.union, Modifiers.order, no_little, no_big]
            rfl
          exact (after.trans (sets _)).trans before.symm

/-! ## Whole templates -/

namespace Template

/-- A template of portable groups does the same on every host; and a template that leaves the byte
order of its integers to the host does on any host what it does with the mark of the host's byte
order put into every group. -/
theorem independent_of_host :
    (∀ (config config' : Config) (t : Text), config'.maxBits = config.maxBits →
      (∀ g ∈ t.groups, g.IsPortable) → SameOutcomes config t config' t) ∧
    ∀ (config : Config) (order : ByteOrder) (t t' : Text), (∀ g ∈ t.groups, g.IsHostOrdered) →
      List.Forall₂ (Group.IsWith order.mark) t.groups t'.groups →
        SameOutcomes (config.withByteOrder order) t config t' := by
  constructor
  · intro config config' t bits portable
    refine sameOutcomes_of_matches bits (List.forall₂_same.mpr fun g mem => ?_)
    exact (portable g mem).agrees config config'
  · intro config order t t' host inserted
    refine sameOutcomes_of_matches rfl ?_
    have paired : ∀ {gs gs'}, (∀ g ∈ gs, Group.IsHostOrdered g) →
        List.Forall₂ (Group.IsWith order.mark) gs gs' →
          List.Forall₂ (Group.Matches (config.withByteOrder order) config) gs gs' := by
      intro gs gs' host inserted
      induction inserted with
      | nil => exact .nil
      | @cons g g' gs gs' first _ ih =>
          rw [List.forall_mem_cons] at host
          exact .cons (first.agrees host.1 config) (ih host.2)
    exact paired host inserted

theorem independent_of_host_short_int :
    packText (Config.default.withByteOrder .big) [.int 1, .int 2, .int 3]
        (Text.ofChars ['s', '2', '<', 'C']) = .ok [1, 0, 2, 0, 3] ∧
      packText .default [.int 1, .int 2] (Text.ofChars ['I', '>', '2']) =
        .ok [0, 0, 0, 1, 0, 0, 0, 2] := by
  constructor
  · have same := independent_of_host.1 .default (Config.default.withByteOrder .big)
      (Text.ofChars ['s', '2', '<', 'C']) rfl (by decide)
    rw [same.packed]
    decide
  · have same := independent_of_host.2 .default .big (Text.ofChars ['I', '2'])
      (Text.ofChars ['I', '>', '2']) (by decide)
      (.cons (@Group.IsWith.insert _ (.scalar 'I') [] [.digit 2] (by decide)) .nil)
    rw [same.packed]
    decide

/-- A mark between two digits starts another count. -/
example : size .default (Text.ofChars ['s', '1', '2']) = .ok 24 ∧
    size .default (Text.ofChars ['s', '1', '<', '2']) = .ok 4 :=
  ⟨rfl, rfl⟩

end Template

end ByteTemplate
