import ByteTemplate.Proofs.Pieces
import ByteTemplate.Proofs.Unread
import ByteTemplate.Size

/-!
# Templates without a fault

A template that is read to its end is packed, unpacked and measured by the directives in it that
do something, and the directives of two templates put together are those of the first and then
those of the second.
-/

namespace ByteTemplate

def Directive.hasValues (d : Directive) : Bool :=
  match d.codec with
  | .element _ | .block _ => true
  | .null | .ignored => false

theorem Directive.isIgnored_of_hasValues {d : Directive} (h : d.hasValues = true) :
    d.isIgnored = false := by
  unfold hasValues at h
  unfold isIgnored
  cases codec : d.codec <;> simp_all

theorem Directive.demand_eq_one {d : Directive} (has : d.hasValues = true)
    (single : ∀ e, d.codec = .element e → d.count = some 1) (available : Nat) :
    d.demand available = 1 := by
  unfold Directive.demand
  unfold Directive.hasValues at has
  cases codec : d.codec with
  | element e => simp [single e codec]
  | block b => rfl
  | _ => simp [codec] at has

theorem Directive.decode_ne_none {config : Config} {d : Directive} {data : Bytes} {size : Nat}
    (has : d.hasValues = true) : d.decode config data ≠ .ok (none, size) := by
  cases codec : d.codec with
  | element e =>
      simp only [Directive.decode, codec]
      cases e.decode config d.order d.count data <;> simp [Except.map]
  | block b => simp [Directive.decode, codec]
  | _ => simp [Directive.hasValues, codec] at has

theorem Directive.decode_ne_some {config : Config} {d : Directive} {data : Bytes}
    (has : d.hasValues = false) {vs : List Value} {size : Nat} :
    d.decode config data ≠ .ok (some vs, size) := by
  cases codec : d.codec with
  | ignored => simp [Directive.decode, codec]
  | null =>
      simp only [Directive.decode, codec]
      split
      · simp
      · split <;> simp
  | _ => simp [Directive.hasValues, codec] at has

theorem readBatches_cons_of_hasValues {config : Config} {d : Directive} {ds : List Directive}
    (has : d.hasValues = true) {start stop : Nat} {data : Bytes} {batches : List Batch}
    (read : readBatches config start data (d :: ds) = .ok (batches, stop)) :
    ∃ vs size rest, d.decode config data = .ok (some vs, size) ∧
      readBatches config (start + size) (data.drop size) ds = .ok (rest, stop) ∧
      batches = ⟨vs, (start + size : Nat)⟩ :: rest := by
  obtain ⟨out, size, rest, first, more, rfl⟩ := readBatches_cons_eq_ok_iff.mp read
  cases out with
  | none => exact absurd first (Directive.decode_ne_none has)
  | some vs => exact ⟨vs, size, rest, first, more, rfl⟩

/-- What passes over directives that do nothing is the same without them. -/
theorem filter_isIgnored {α : Type} {F : List Directive → α}
    (skip : ∀ d ds, d.codec = .ignored → F (d :: ds) = F ds)
    (step : ∀ d ds ds', F ds = F ds' → F (d :: ds) = F (d :: ds')) (ds : List Directive) :
    F (ds.filter fun d => !d.isIgnored) = F ds := by
  induction ds with
  | nil => rfl
  | cons d ds ih =>
      cases ignored : d.isIgnored with
      | false =>
          rw [List.filter_cons_of_pos (by simp [ignored])]
          exact step d _ _ ih
      | true =>
          have codec : d.codec = .ignored := by simpa [Directive.isIgnored] using ignored
          rw [List.filter_cons_of_neg (by simp [ignored]), ih, skip d ds codec]

theorem packPieces_filter (ds : List Directive) (values : List Value) :
    packPieces values (ds.filter fun d => !d.isIgnored) = packPieces values ds := by
  refine congrFun (filter_isIgnored (F := fun ds values => packPieces values ds) ?_ ?_ ds) values
  · intro d ds codec
    funext values
    simp only [packPieces, Directive.pack, codec, Piece.data, List.nil_append]
    cases packPieces values ds <;> rfl
  · intro d ds ds' same
    funext values
    simp only [packPieces, congrFun same]

theorem walk_pack_filter (ds : List Directive) (values : List Value) :
    ((walk Directive.pack values (ds.filter fun d => !d.isIgnored)).1.flatMap fun o =>
        o.piece.data) = ((walk Directive.pack values ds).1.flatMap fun o => o.piece.data) ∧
      (walk Directive.pack values (ds.filter fun d => !d.isIgnored)).2 =
        (walk Directive.pack values ds).2 := by
  refine Prod.mk.inj (congrFun (filter_isIgnored
    (F := fun ds values => ((walk Directive.pack values ds).1.flatMap fun o => o.piece.data,
      (walk Directive.pack values ds).2)) ?_ ?_ ds) values)
  · intro d ds codec
    funext values
    simp [walk, Directive.pack, codec, Piece.data]
  · intro d ds ds' same
    funext values
    simp only [walk]
    cases d.pack values with
    | error e => rfl
    | ok result =>
        obtain ⟨data, last⟩ := Prod.mk.inj (congrFun same result.2)
        simp [data, last]

theorem readBatches_filter {config : Config} (ds : List Directive) (start : Nat) (data : Bytes) :
    readBatches config start data (ds.filter fun d => !d.isIgnored) =
      readBatches config start data ds := by
  refine congrFun (congrFun (filter_isIgnored
    (F := fun ds start data => readBatches config start data ds) ?_ ?_ ds) start) data
  · intro d ds codec
    funext start data
    simp only [readBatches, Directive.decode, codec, Nat.add_zero, List.drop_zero]
    cases readBatches config start data ds <;> rfl
  · intro d ds ds' same
    funext start data
    simp only [readBatches, congrFun (congrFun same _) _]

theorem totalSize_filter (ds : List Directive) :
    totalSize (ds.filter fun d => !d.isIgnored) = totalSize ds := by
  refine filter_isIgnored ?_ ?_ ds
  · intro d ds codec
    simp only [totalSize, Directive.size, Directive.byteSize, codec]
    cases more : totalSize ds with
    | error e => rfl
    | ok n => simp [bind, Except.bind]
  · intro d ds ds' same
    simp only [totalSize, same]

/-! ## Whole templates -/

namespace Template

variable {config : Config} {t : Text} {ds : List Directive}

theorem parse_eq_ok_iff :
    parse config t = .ok ds ↔
      (read config t).fault = none ∧
        (read config t).directives.filter (fun d => !d.isIgnored) = ds := by
  unfold parse directives Reading.toExcept
  cases (read config t).fault <;> simp [Except.map]

theorem read_append_of_fault {s : Text} (head : ∀ c ∈ t.head?, Mark.ofCodePoint? c = none)
    {e : Error} (fault : (read config s).fault = some e) :
    read config (s ++ t) = read config s := by
  rw [read] at fault
  rw [read, read, Text.groups_append s head, Reading.ofGroups_append]
  cases first : Reading.ofGroups config s.groups with
  | mk ds found =>
      rw [first] at fault
      obtain rfl : found = some e := fault
      rfl

theorem read_append_of_whole {s : Text} (head : ∀ c ∈ t.head?, Mark.ofCodePoint? c = none)
    (whole : (read config s).fault = none) :
    read config (s ++ t) =
      ⟨(read config s).directives ++ (read config t).directives, (read config t).fault⟩ := by
  rw [read] at whole
  rw [read, read, Text.groups_append s head, Reading.ofGroups_append]
  cases first : Reading.ofGroups config s.groups with
  | mk ds found =>
      rw [first] at whole
      obtain rfl : found = none := whole
      rfl

theorem parse_append {s : Text} (head : ∀ c ∈ t.head?, Mark.ofCodePoint? c = none) :
    parse config (s ++ t) = .ok ds ↔
      ∃ first second, parse config s = .ok first ∧ parse config t = .ok second ∧
        ds = first ++ second := by
  simp only [parse_eq_ok_iff]
  cases fault : (read config s).fault with
  | some e => simp [read_append_of_fault head fault, fault]
  | none =>
      simp only [read_append_of_whole head fault, List.filter_append, true_and]
      constructor
      · rintro ⟨whole, rfl⟩
        exact ⟨_, _, rfl, ⟨whole, rfl⟩, rfl⟩
      · rintro ⟨_, _, rfl, ⟨whole, rfl⟩, rfl⟩
        exact ⟨whole, rfl⟩

theorem packText_eq_ok_iff {values : List Value} {bs : Bytes} :
    packText config values t = .ok bs ↔
      bs.length ≤ maxSize ∧
        ∃ ds rest, parse config t = .ok ds ∧ packPieces values ds = .ok (bs, rest) := by
  rw [ByteTemplate.packText_eq_ok_iff]
  constructor
  · rintro ⟨whole, fits, rest, packed⟩
    refine ⟨fits, _, rest, parse_eq_ok_iff.mpr ⟨whole, rfl⟩, ?_⟩
    rw [packPieces_filter, packed]
  · rintro ⟨fits, ds, rest, parsed, packed⟩
    obtain ⟨whole, rfl⟩ := parse_eq_ok_iff.mp parsed
    rw [packPieces_filter] at packed
    exact ⟨whole, fits, rest, packed⟩

theorem packText_of_packPieces (parsed : parse config t = .ok ds) {values rest : List Value}
    {bs : Bytes} (packed : packPieces values ds = .ok (bs, rest)) :
    packText config values t =
      if bs.length ≤ maxSize then .ok bs else .error .lengthOutOfRange := by
  obtain ⟨whole, rfl⟩ := parse_eq_ok_iff.mp parsed
  rw [packPieces_filter] at packed
  exact ByteTemplate.packText_of_packPieces whole packed

theorem packPieces_of_packText (parsed : parse config t = .ok ds) {values : List Value}
    {bs : Bytes} (packed : packText config values t = .ok bs) :
    ∃ rest, packPieces values ds = .ok (bs, rest) := by
  obtain ⟨-, ds', rest, parsed', pieces⟩ := packText_eq_ok_iff.mp packed
  rw [parsed] at parsed'
  rw [← Except.ok.inj parsed'] at pieces
  exact ⟨rest, pieces⟩

theorem unpackBatches_of_parse (parsed : parse config t = .ok ds) (data : Bytes) :
    unpackBatches config data t = (readBatches config 0 data ds).map Prod.fst := by
  obtain ⟨whole, rfl⟩ := parse_eq_ok_iff.mp parsed
  rw [unpackBatches_eq, readBatches_filter, whole]
  cases readBatches config 0 data (read config t).directives <;> rfl

theorem readBatches_of_unpackBatches {data : Bytes} {batches : List Batch}
    (unpacked : unpackBatches config data t = .ok batches) :
    ∃ ds stop, parse config t = .ok ds ∧ readBatches config 0 data ds = .ok (batches, stop) := by
  rw [unpackBatches_eq] at unpacked
  cases read : readBatches config 0 data (Template.read config t).directives with
  | error e => simp [read] at unpacked
  | ok result =>
      cases fault : (Template.read config t).fault with
      | some e => simp [read, fault] at unpacked
      | none =>
          simp only [read, fault, Except.ok.injEq] at unpacked
          refine ⟨_, result.2, parse_eq_ok_iff.mpr ⟨fault, rfl⟩, ?_⟩
          rw [readBatches_filter, read, ← unpacked]

theorem size_of_parse (parsed : parse config t = .ok ds) : size config t = totalSize ds := by
  obtain ⟨whole, rfl⟩ := parse_eq_ok_iff.mp parsed
  rw [size, whole, totalSize_filter]
  cases totalSize (read config t).directives <;> rfl

theorem size_eq_ok_iff {n : Nat} :
    size config t = .ok n ↔ ∃ ds, parse config t = .ok ds ∧ totalSize ds = .ok n := by
  simp only [size]
  constructor
  · intro h
    cases total : totalSize (read config t).directives with
    | error e => simp [total] at h
    | ok m =>
        cases whole : (read config t).fault with
        | some e => simp [total, whole] at h
        | none =>
            simp only [total, whole, Except.ok.injEq] at h
            refine ⟨_, parse_eq_ok_iff.mpr ⟨whole, rfl⟩, ?_⟩
            rw [totalSize_filter, total, h]
  · rintro ⟨ds, parsed, total⟩
    exact (size_of_parse parsed).trans total

end Template

/-! ## Faults -/

def Error.IsFault (e : Error) : Prop :=
  e.kind = .argument ∨ e.kind = .runtime

theorem Error.IsFault.isLibrary {e : Error} (h : e.IsFault) : e.isLibrary = true := by
  unfold Error.isLibrary
  rcases h with kind | kind <;> rw [kind]

private theorem Suffix.isFault_of_push {s : Suffix} {modifiable : Bool} {mark : Mark} {e : Error}
    (h : s.push modifiable mark = .error e) : e.IsFault := by
  unfold push at h
  split at h
  · unfold pushDigit at h
    split at h
    · dsimp only at h
      split at h <;> cases h
      exact .inr rfl
    · cases h
  · cases h
  · split at h <;> cases h
    exact .inl rfl

theorem Suffix.isFault_of_read {modifiable : Bool} {marks : List Mark} {fault : Fault} :
    ∀ {s : Suffix}, read modifiable s marks = .error fault → fault.error.IsFault := by
  induction marks with
  | nil =>
      intro s h
      cases h
  | cons m marks ih =>
      intro s h
      simp only [read] at h
      cases first : s.push modifiable m with
      | error e =>
          simp only [first, Except.error.injEq] at h
          rw [← h]
          exact Suffix.isFault_of_push first
      | ok s' =>
          simp only [first] at h
          exact ih h

/-- Whether a group fails with an integer in the message that is too long to be shown: the size of
the native one. -/
def Group.IsUnshown (config : Config) (g : Group) : Prop :=
  (g.lead = .scalar 'I' ∨ g.lead = .scalar 'i') ∧ 10 ^ Integer.maxDigits ≤ config.intSize

def Template.StopsUnshown (config : Config) (t : Text) : Prop :=
  ∃ front g back, t.groups = front ++ g :: back ∧
    (Reading.ofGroups config front).fault = none ∧ g.IsUnshown config

theorem Group.unsupportedSize_cases (size : Nat) :
    (unsupportedSize size).IsFault ∨
      10 ^ Integer.maxDigits ≤ size ∧ unsupportedSize size = .tooManyDigits := by
  unfold unsupportedSize
  by_cases shown : Integer.isShowable size = true
  · rw [if_pos shown]
    exact .inl (.inr rfl)
  · rw [if_neg shown]
    exact .inr ⟨Nat.not_lt.mp (mt Integer.isShowable_natCast_iff.mpr shown), rfl⟩

theorem Group.nativeEntry_of_long {config : Config} (signed : Bool)
    (long : 10 ^ Integer.maxDigits ≤ config.intSize) :
    nativeEntry config signed = .error .tooManyDigits := by
  have large : 8 < config.intSize :=
    calc
      8 < 10 ^ 1 := by decide
      _ ≤ 10 ^ Integer.maxDigits := Nat.pow_le_pow_right (by decide) (by decide)
      _ ≤ config.intSize := long
  have missing : Entry.ofNativeInt? signed config.intSize = none := by
    unfold Entry.ofNativeInt?
    split <;> first | omega | rfl
  have unshown : ¬Integer.isShowable config.intSize = true :=
    mt Integer.isShowable_natCast_iff.mp (Nat.not_lt.mpr long)
  simp only [nativeEntry, missing, unsupportedSize, if_neg unshown]
theorem Group.isFault_of_entry {config : Config} {g : Group} {e : Error}
    (h : Group.entry config g.lead = .error e) :
    e.IsFault ∨ g.IsUnshown config ∧ e = .tooManyDigits := by
  have native : ∀ {signed}, nativeEntry config signed = .error e →
      (g.lead = .scalar 'I' ∨ g.lead = .scalar 'i') →
        e.IsFault ∨ g.IsUnshown config ∧ e = .tooManyDigits := by
    intro signed h lead
    unfold nativeEntry at h
    split at h
    · cases h
    · rw [← Except.error.inj h]
      exact (unsupportedSize_cases config.intSize).imp_right fun ⟨long, unshown⟩ =>
        ⟨⟨lead, long⟩, unshown⟩
  unfold Group.entry at h
  split at h
  · next lead => exact native h (.inl lead)
  · next lead => exact native h (.inr lead)
  · cases h
  · cases h

theorem Group.isFault_of_directive {config : Config} {g : Group} {fault : Fault}
    (h : g.directive config = .error fault) :
    fault.error.IsFault ∨ g.IsUnshown config ∧ fault.error = .tooManyDigits := by
  unfold Group.directive at h
  split at h
  · next e missing =>
      cases h
      exact Group.isFault_of_entry missing
  · split at h
    · next own =>
        cases h
        exact .inl (Suffix.isFault_of_read own)
    · cases h

private theorem Reading.isFault_of_ofGroups {config : Config} {e : Error} {gs : List Group}
    (h : (ofGroups config gs).fault = some e) :
    e.IsFault ∨ e = .tooManyDigits ∧ ∃ front g back, gs = front ++ g :: back ∧
      (ofGroups config front).fault = none ∧ g.IsUnshown config := by
  induction gs with
  | nil => cases h
  | cons g gs ih =>
      simp only [ofGroups] at h
      cases one : g.directive config with
      | error fault =>
          simp only [one, Option.some.injEq] at h
          rw [← h]
          obtain kind | ⟨unshown, error⟩ := Group.isFault_of_directive one
          · exact .inl kind
          · exact .inr ⟨error, [], g, gs, rfl, rfl, unshown⟩
      | ok d =>
          simp only [one] at h
          refine (ih h).imp_right ?_
          rintro ⟨error, front, g', back, rfl, whole, unshown⟩
          exact ⟨error, g :: front, g', back, rfl, by simp [ofGroups, one, whole], unshown⟩

theorem Template.isFault_of_read {config : Config} {t : Text} {e : Error}
    (h : (Template.read config t).fault = some e) :
    e.IsFault ∨ e = .tooManyDigits ∧ StopsUnshown config t :=
  Reading.isFault_of_ofGroups h

theorem Template.fault_eq_tooManyDigits_iff {config : Config} {t : Text} :
    (Template.read config t).fault = some .tooManyDigits ↔ StopsUnshown config t := by
  constructor
  · intro h
    refine ((isFault_of_read h).resolve_left ?_).2
    rintro (kind | kind) <;> cases kind
  · rintro ⟨front, g, back, groups, whole, lead, long⟩
    have own : g.directive config = .error ⟨.tooManyDigits, g.marks.length⟩ := by
      have native := fun signed => Group.nativeEntry_of_long signed long
      have entry : Group.entry config g.lead = .error .tooManyDigits := by
        rcases lead with lead | lead <;> rw [lead] <;> exact native _
      simp only [Group.directive, entry]
    rw [Template.read, groups, Reading.ofGroups_append]
    rcases read : Reading.ofGroups config front with ⟨ds, fault⟩
    rw [read] at whole
    obtain rfl : fault = none := whole
    simp only [Reading.ofGroups, own]

/-! ## Codecs of directives -/

section

variable {config : Config} {P : Codec → Prop}

theorem Group.codec_of_entry (table : ∀ c, P (Entry.ofChar c).codec) {c : CodePoint}
    {entry : Entry} (h : Group.entry config c = .ok entry) : P entry.codec := by
  have native : ∀ {signed entry}, nativeEntry config signed = .ok entry → P entry.codec := by
    intro signed entry h
    unfold nativeEntry Entry.ofNativeInt? at h
    split at h
    · next found =>
        cases h
        split at found
        all_goals cases found
        all_goals exact table _
    · cases h
  unfold Group.entry at h
  split at h
  · exact native h
  · exact native h
  · cases h
    exact table _
  · cases h
    exact table ' '

theorem Group.codec_of_directive (table : ∀ c, P (Entry.ofChar c).codec)
    (native : ∀ {c entry}, Group.entry config c = .ok entry → P entry.codec →
      P (entry.codec.toNative config c)) {g : Group} {d : Directive}
    (h : g.directive config = .ok d) : P d.codec := by
  unfold Group.directive at h
  split at h
  · cases h
  · next entry found =>
      have own := Group.codec_of_entry table found
      split at h
      · cases h
      · cases h
        dsimp only
        split
        · exact native found own
        · exact own

theorem Reading.exists_group_of_mem {gs : List Group} {d : Directive}
    (h : d ∈ (ofGroups config gs).directives) : ∃ g ∈ gs, g.directive config = .ok d := by
  induction gs with
  | nil => cases h
  | cons g gs ih =>
      simp only [ofGroups] at h
      cases one : g.directive config with
      | error fault => simp [one] at h
      | ok first =>
          simp only [one, List.mem_cons] at h
          rcases h with rfl | rest
          · exact ⟨g, by simp, one⟩
          · obtain ⟨g', mem, own⟩ := ih rest
            exact ⟨g', List.mem_cons_of_mem _ mem, own⟩

end

def Codec.HasWidth : Codec → Prop
  | .element (.integer _ width) => 0 < width
  | _ => True

private theorem Entry.hasWidth_ofChar (c : Char) : (ofChar c).codec.HasWidth := by
  unfold ofChar
  split <;> simp [Codec.HasWidth]

private theorem Codec.hasWidth_toNative {config : Config} {c : CodePoint} {codec : Codec}
    (h : codec.HasWidth) : (codec.toNative config c).HasWidth := by
  unfold Codec.toNative
  split
  · next signed width =>
      change 0 < nativeWidth config c width
      have int_pos := config.intSize_pos
      have long_pos := config.longSize_pos
      unfold nativeWidth
      split <;> first | assumption | decide
  · exact h

theorem Group.hasWidth_of_directive {config : Config} {g : Group} {d : Directive}
    (h : g.directive config = .ok d) : d.codec.HasWidth :=
  Group.codec_of_directive Entry.hasWidth_ofChar (fun _ => Codec.hasWidth_toNative) h

theorem Reading.hasWidth_of_mem {config : Config} {gs : List Group} {d : Directive}
    (h : d ∈ (ofGroups config gs).directives) : d.codec.HasWidth := by
  obtain ⟨g, -, own⟩ := Reading.exists_group_of_mem h
  exact Group.hasWidth_of_directive own

theorem Template.hasWidth_of_parse {config : Config} {t : Text} {ds : List Directive}
    (parsed : Template.parse config t = .ok ds) : ∀ d ∈ ds, d.codec.HasWidth := by
  obtain ⟨-, rfl⟩ := parse_eq_ok_iff.mp parsed
  exact fun d mem => Reading.hasWidth_of_mem ((List.mem_filter.mp mem).1)

end ByteTemplate
