import ByteTemplate.Proofs.Size

/-!
# Templates put together

A template that begins with no mark can follow any other.  The two together read, pack and unpack
what the first does and then, from where it stopped, what the second does; the first failure of
the two in turn is the failure of both.
-/

namespace ByteTemplate

namespace Template

def Step.place (s : Step) : Except Error Directive × Nat :=
  (s.outcome, s.offset)

private theorem stepsFrom_ne_nil (config : Config) (offset : Nat) (gs : List Group) :
    stepsFrom config offset gs ≠ [] := by
  cases gs with
  | nil => simp [stepsFrom]
  | cons g gs => cases one : g.directive config <;> simp [stepsFrom, one]

variable {config : Config} {first : List Group}

private theorem place_stepsFrom_append_of_fault {e : Error}
    (fault : (Reading.ofGroups config first).fault = some e) (second : List Group) :
    ∀ offset, (stepsFrom config offset (first ++ second)).map Step.place =
      (stepsFrom config offset first).map Step.place := by
  induction first with
  | nil => cases fault
  | cons g first ih =>
      intro offset
      simp only [Reading.ofGroups] at fault
      simp only [List.cons_append, stepsFrom]
      cases one : g.directive config with
      | error _ => rfl
      | ok d =>
          rw [one] at fault
          simp [Step.place, ih fault]

/-- Only the answer that the first template is exhausted is left out. -/
theorem place_stepsFrom_append_of_whole (whole : (Reading.ofGroups config first).fault = none)
    (second : List Group) :
    ∀ offset, (stepsFrom config offset (first ++ second)).map Step.place =
      ((stepsFrom config offset first).map Step.place).dropLast ++
        (stepsFrom config (offset + (first.flatMap Group.text).length) second).map Step.place := by
  induction first with
  | nil => exact fun _ => rfl
  | cons g first ih =>
      intro offset
      simp only [Reading.ofGroups] at whole
      simp only [List.cons_append, stepsFrom]
      cases one : g.directive config with
      | error _ => simp [one] at whole
      | ok d =>
          rw [one] at whole
          have more : (stepsFrom config (offset + g.length) first).map Step.place ≠ [] := by
            simpa using stepsFrom_ne_nil config (offset + g.length) first
          simp only [List.map_cons, ih whole, List.flatMap_cons, List.length_append,
            Group.length_text, ← Nat.add_assoc, List.dropLast_cons_of_ne_nil more,
            List.cons_append]
          rfl

end Template

/-- Whether a template is read to its end and the next one after it: a fault of the first is met
at the same place, and the directives of the second come after those of the first. -/
def ReadsInTurn (config : Config) (s t : Text) : Prop :=
  match (Template.read config s).fault with
  | some _ =>
      Template.read config (s ++ t) = Template.read config s ∧
        (Template.steps config (s ++ t)).map Template.Step.place =
          (Template.steps config s).map Template.Step.place
  | none =>
      Template.read config (s ++ t) =
          ⟨(Template.read config s).directives ++ (Template.read config t).directives,
            (Template.read config t).fault⟩ ∧
        (Template.steps config (s ++ t)).map Template.Step.place =
          ((Template.steps config s).map Template.Step.place).dropLast ++
            (Template.stepsFrom config s.length t.groups).map Template.Step.place

section

variable {config : Config} {s t : Text}

private theorem readsInTurn (head : ∀ c ∈ t.head?, Mark.ofCodePoint? c = none) :
    ReadsInTurn config s t := by
  unfold ReadsInTurn Template.steps
  rw [Text.groups_append s head]
  split
  · next e fault =>
      exact ⟨Template.read_append_of_fault head fault,
        Template.place_stepsFrom_append_of_fault fault _ 0⟩
  · next whole =>
      refine ⟨Template.read_append_of_whole head whole, ?_⟩
      have steps := Template.place_stepsFrom_append_of_whole whole t.groups 0
      rw [Text.flatMap_text_groups, Nat.zero_add] at steps
      exact steps

/-! ## Packing -/

variable {values left : List Value}

private theorem run_append (head : ∀ c ∈ t.head?, Mark.ofCodePoint? c = none) :
    match (Packing.run config values s).rest with
    | .error e =>
        written config values (s ++ t) = written config values s ∧
          (Packing.run config values (s ++ t)).rest = .error e
    | .ok left =>
        written config values (s ++ t) = written config values s ++ written config left t ∧
          (Packing.run config values (s ++ t)).rest = (Packing.run config left t).rest := by
  cases fault : (Template.read config s).fault with
  | some e =>
      have same := Template.read_append_of_fault head fault
      have stopped : ∃ e, (Packing.run config values s).rest = .error e := by
        simp only [Packing.run, fault]
        cases (walk Directive.pack values (Template.read config s).directives).2 with
        | error e => exact ⟨e, rfl⟩
        | ok left => exact ⟨e, rfl⟩
      obtain ⟨e', stopped⟩ := stopped
      rw [stopped]
      simp only [Packing.run] at stopped
      simp only [written, Packing.run, same, stopped, and_self]
  | none =>
      have both := Template.read_append_of_whole head fault
      simp only [Packing.run, written, both, fault, walk_append]
      rcases walk Directive.pack values (Template.read config s).directives with ⟨outs, last⟩
      cases last with
      | error e => simp
      | ok left => simp

/-- Whether the data of two templates together is that of the first and then, for the values it
leaves, that of the second, as far as a buffer can hold both. -/
def PacksInTurn (config : Config) (values : List Value) (s t : Text) : Prop :=
  match packText config values s with
  | .error e => packText config values (s ++ t) = .error e
  | .ok bs =>
      ∃ k ≤ values.length, (Packing.run config values s).rest = .ok (values.drop k) ∧
        packText config values (s ++ t) =
          if bs.length + (written config (values.drop k) t).length ≤ maxSize then
            (packText config (values.drop k) t).map (bs ++ ·)
          else .error .lengthOutOfRange

private theorem packsInTurn (head : ∀ c ∈ t.head?, Mark.ofCodePoint? c = none)
    (values : List Value) :
    PacksInTurn config values s t := by
  have run := @run_append config s t values head
  unfold PacksInTurn
  rw [packText_eq config values s, packText_eq config values (s ++ t)]
  by_cases fits : (written config values s).length ≤ maxSize
  · rw [if_pos fits]
    cases rest : (Packing.run config values s).rest with
    | error e =>
        rw [rest] at run
        rw [run.1, run.2, if_pos fits]
        rfl
    | ok left =>
        rw [rest] at run
        have taken : left = values.drop (values.length - left.length) :=
          List.suffix_iff_eq_drop.mp (packPieces_suffix (Packing.rest_eq_ok_iff.mp rest).2)
        refine ⟨values.length - left.length, Nat.sub_le _ _, by rw [← taken], ?_⟩
        rw [← taken, run.1, run.2, List.length_append, packText_eq config left t]
        split
        · rw [if_pos (by omega)]
          cases (Packing.run config left t).rest <;> rfl
        · rfl
  · rw [if_neg fits]
    have longer : ¬(written config values (s ++ t)).length ≤ maxSize := by
      cases rest : (Packing.run config values s).rest with
      | error e =>
          rw [rest] at run
          rwa [run.1]
      | ok left =>
          rw [rest] at run
          rw [run.1, List.length_append]
          omega
    exact if_neg longer

/-! ## Unpacking -/

/-- Whether the batches of two templates together are those of the first and then those that the
second reads from the position after it. -/
def UnpacksInTurn (config : Config) (data : Bytes) (s t : Text) : Prop :=
  match unpackBatches config data s with
  | .error e => unpackBatches config data (s ++ t) = .error e
  | .ok batches =>
      ∃ p : Nat, (Unpacking.run config data s).last = .ok ⟨data, p⟩ ∧ p ≤ data.length ∧
        unpackBatches config data (s ++ t) =
          (unpackBatches config (data.drop p) t).map fun more =>
            batches ++ more.map (Batch.shift p)

private theorem unpacksInTurn (head : ∀ c ∈ t.head?, Mark.ofCodePoint? c = none) (data : Bytes) :
    UnpacksInTurn config data s t := by
  have ran := Unpacking.run_eq config data s
  unfold UnpacksInTurn
  rw [unpackBatches_eq config data s, unpackBatches_eq config data (s ++ t)]
  cases fault : (Template.read config s).fault with
  | some e =>
      rw [Template.read_append_of_fault head fault, fault]
      cases readBatches config 0 data (Template.read config s).directives <;> rfl
  | none =>
      rw [fault] at ran
      rw [Template.read_append_of_whole head fault, readBatches_append]
      cases first : readBatches config 0 data (Template.read config s).directives with
      | error e => rfl
      | ok result =>
          rcases result with ⟨batches, stop⟩
          rw [first] at ran
          have bounds := readBatches_bounds first
          refine ⟨stop, by rw [ran], by omega, ?_⟩
          have later := @readBatches_shift config stop (Template.read config t).directives 0
            (data.drop stop)
          rw [Nat.zero_add] at later
          simp only [Nat.sub_zero, later, unpackBatches_eq config (data.drop stop) t]
          cases readBatches config 0 (data.drop stop) (Template.read config t).directives with
          | error e => rfl
          | ok result => cases (Template.read config t).fault <;> rfl

end

/-- Reading, packing and unpacking are compositional in the template, failures included. -/
theorem inTurn_append {config : Config} {s t : Text}
    (head : ∀ c ∈ t.head?, Mark.ofCodePoint? c = none) :
    ReadsInTurn config s t ∧ (∀ values, PacksInTurn config values s t) ∧
      ∀ data, UnpacksInTurn config data s t :=
  ⟨readsInTurn head, packsInTurn head, unpacksInTurn head⟩

theorem inTurn_append_blank :
    packText .default [.int 258, .int 7, .int 8]
        (Text.ofChars ['n'] ++ Text.ofChars [' ', 'C', '*']) = .ok [1, 2, 7, 8] ∧
      unpackBatches .default [1, 2, 7, 8] (Text.ofChars ['n'] ++ Text.ofChars [' ', 'C', '*']) =
        .ok [⟨[.int 258], 2⟩, ⟨[.int 7, .int 8], 4⟩] := by
  obtain ⟨-, packs, unpacks⟩ := @inTurn_append .default (Text.ofChars ['n'])
    (Text.ofChars [' ', 'C', '*']) (by intro c mem; cases mem; rfl)
  constructor
  · obtain ⟨k, within, left, packed⟩ := packs [.int 258, .int 7, .int 8]
    have taken : [Value.int 7, .int 8] = [Value.int 258, .int 7, .int 8].drop k :=
      Except.ok.inj left
    obtain rfl : k = 1 := by
      have length := congrArg List.length taken
      simp at length within
      omega
    exact packed
  · obtain ⟨p, last, -, unpacked⟩ := unpacks [1, 2, 7, 8]
    have stop : (2 : Int) = p := congrArg Cursor.position (Except.ok.inj last)
    obtain rfl : p = 2 := by omega
    exact unpacked

end ByteTemplate
