import ByteTemplate.Proofs.Size

/-!
# Packing fewer values

Running out of values is no error: the directives write what there is a value for, and nothing in
place of a missing one.  So fewer values pack to a beginning of the data of all of them, as long as
no zeros are written without a value, and values beyond those that are taken do not matter.
-/

namespace ByteTemplate

def Directive.zeros (d : Directive) : Nat :=
  match d.codec with
  | .null => d.count.getD 0
  | _ => 0

private theorem Element.encodeAll_take {order : ByteOrder} {e : Element} {values : List Value} :
    ∀ {bs : Bytes} (k : Nat), e.encodeAll order values = .ok bs →
      ∃ first, e.encodeAll order (values.take k) = .ok first ∧ first <+: bs := by
  induction values with
  | nil =>
      intro bs k written
      rw [List.take_nil]
      exact ⟨bs, written, List.prefix_rfl⟩
  | cons v values ih =>
      intro bs k written
      cases k with
      | zero => exact ⟨[], rfl, List.nil_prefix⟩
      | succ k =>
          obtain ⟨own, rest, one, others, rfl⟩ := Element.encodeAll_cons written
          obtain ⟨first, front, begins⟩ := ih k others
          exact ⟨own ++ first, Element.encodeAll_cons_of_ok one front,
            (List.prefix_append_right_inj own).mpr begins⟩

namespace Directive

variable {d : Directive} {values left : List Value} {o : Output} {k : Nat}

theorem pack_take_append (counts : d.takesAll = false) (served : d.demand 0 ≤ values.length)
    (packed : d.pack values = .ok (o, left)) (more : List Value) :
    d.pack (values.take (d.demand 0) ++ more) = .ok (o, more) := by
  cases codec : d.codec with
  | ignored | null =>
      simp only [pack, codec, Except.ok.injEq, Prod.mk.injEq] at packed
      simp only [pack, demand, codec, List.take_zero, List.nil_append, packed.1]
  | block b =>
      cases values with
      | nil => simp [demand, codec] at served
      | cons v vs =>
          simp only [pack, codec] at packed
          simp only [pack, demand, codec, List.take_succ_cons, List.take_zero, List.cons_append,
            List.nil_append]
          cases bytes : v.toBytes with
          | error fault => simp [bytes, bind, Except.bind] at packed
          | ok source =>
              simp only [bytes, bind, Except.bind, Except.ok.injEq, Prod.mk.injEq] at packed ⊢
              exact ⟨packed.1, trivial⟩
  | element e =>
      cases count : d.count with
      | none => simp [takesAll, codec, count] at counts
      | some n =>
          simp only [demand, codec, count, Option.getD_some] at served ⊢
          have length : (values.take n).length = n := List.length_take_of_le served
          have missing : n - (values.take n ++ more).length = n - values.length := by
            rw [List.length_append, length]
            omega
          simp only [pack, codec, count, Option.getD_some, List.take_left' length,
            List.drop_left' length, missing] at packed ⊢
          cases written : e.encodeAll d.order (values.take n) with
          | error fault => simp [written, bind, Except.bind] at packed
          | ok bs =>
              simp only [written, bind, Except.bind, Except.ok.injEq, Prod.mk.injEq] at packed ⊢
              exact ⟨packed.1, trivial⟩

/-- A directive that the first values do not serve takes them all and writes a beginning of its
piece. -/
theorem pack_take_of_few (few : d.takesAll = true ∨ min k values.length < d.demand 0)
    (packed : d.pack values = .ok (o, left)) :
    ∃ o', d.pack (values.take k) = .ok (o', []) ∧ o'.piece.data <+: o.piece.data := by
  cases codec : d.codec with
  | ignored | null => simp [takesAll, demand, codec] at few
  | block b =>
      have none_left : values.take k = [] := by
        rw [← List.length_eq_zero_iff, List.length_take]
        simpa [takesAll, demand, codec] using few
      refine ⟨⟨d, .bytes [], 0⟩, ?_, List.nil_prefix⟩
      simp only [pack, codec, none_left]
  | element e =>
      obtain ⟨bs, written, piece, -⟩ := pack_element codec packed
      have all : (values.take k).length ≤ d.count.getD (values.take k).length ∧
          values.take k = (values.take (d.demand values.length)).take k := by
        rw [List.take_take, List.take_eq_take_iff, List.length_take]
        cases count : d.count with
        | none => simp [demand, codec, count]
        | some n =>
            simp only [takesAll, demand, codec, count, Option.isNone_some, Option.getD_some,
              Bool.false_eq_true, false_or] at few ⊢
            omega
      obtain ⟨first, front, begins⟩ := Element.encodeAll_take k written
      rw [← all.2] at front
      refine ⟨⟨d, .bytes first, d.count.getD (values.take k).length - (values.take k).length⟩,
        ?_, by rw [piece]; exact begins⟩
      simp only [pack, codec, List.take_of_length_le all.1, List.drop_of_length_le all.1, front]
      rfl

end Directive

/-! ## Directives in a row -/

section

variable {ds : List Directive}

private theorem packPieces_nil (bare : ∀ d ∈ ds, d.zeros = 0) :
    packPieces [] ds = .ok ([], []) := by
  induction ds with
  | nil => rfl
  | cons d ds ih =>
      rw [List.forall_mem_cons] at bare
      have nothing : ∃ o, d.pack [] = .ok (o, []) ∧ o.piece.data = [] := by
        cases codec : d.codec with
        | ignored | block => exact ⟨⟨d, .bytes [], 0⟩, by simp only [Directive.pack, codec], rfl⟩
        | element e =>
            refine ⟨⟨d, .bytes [], d.count.getD 0⟩, ?_, rfl⟩
            simp only [Directive.pack, codec, List.take_nil, List.drop_nil]
            rfl
        | null =>
            have zero : d.count.getD 0 = 0 := by simpa only [Directive.zeros, codec] using bare.1
            exact ⟨⟨d, .zeros 0, 0⟩, by simp only [Directive.pack, codec, zero], rfl⟩
      obtain ⟨o, packed, data⟩ := nothing
      simp only [packPieces, packed, ih bare.2, data, List.append_nil]

/-- The first values pack to a beginning of the data: up to the directive that they do not serve
everything is the same, and the directives after it have no values. -/
theorem packPieces_take (bare : ∀ d ∈ ds, d.zeros = 0) :
    ∀ {values rest : List Value} {bs : Bytes} (k : Nat), packPieces values ds = .ok (bs, rest) →
      ∃ first last, packPieces (values.take k) ds = .ok (first, last) ∧ first <+: bs := by
  induction ds with
  | nil =>
      intro values rest bs k packed
      exact ⟨[], values.take k, rfl, List.nil_prefix⟩
  | cons d ds ih =>
      intro values rest bs k packed
      rw [List.forall_mem_cons] at bare
      obtain ⟨o, left, tail, one, more, rfl⟩ := packPieces_cons packed
      by_cases served : d.takesAll = false ∧ d.demand 0 ≤ min k values.length
      · obtain ⟨counts, served⟩ := served
        have taken := Directive.eq_drop_of_not_takesAll counts one
        have split : values.take k = values.take (d.demand 0) ++ left.take (k - d.demand 0) := by
          rw [taken, ← List.take_add, Nat.add_sub_cancel' (by omega)]
        obtain ⟨first, last, others, begins⟩ := ih bare.2 (k - d.demand 0) more
        refine ⟨o.piece.data ++ first, last, ?_, (List.prefix_append_right_inj _).mpr begins⟩
        rw [split]
        simp only [packPieces, Directive.pack_take_append counts (by omega) one, others]
      · have few : d.takesAll = true ∨ min k values.length < d.demand 0 := by
          cases all : d.takesAll with
          | true => exact .inl rfl
          | false => exact .inr (Nat.lt_of_not_le fun enough => served ⟨all, enough⟩)
        obtain ⟨o', first, begins⟩ := Directive.pack_take_of_few few one
        refine ⟨o'.piece.data, [], ?_, begins.trans (List.prefix_append _ _)⟩
        simp only [packPieces, first, packPieces_nil bare.2, List.append_nil]

theorem packPieces_take_append (count : ∀ d ∈ ds, d.takesAll = false) :
    ∀ {values rest : List Value} {bs : Bytes}, totalDemand ds ≤ values.length →
      packPieces values ds = .ok (bs, rest) →
        rest = values.drop (totalDemand ds) ∧
          ∀ more, packPieces (values.take (totalDemand ds) ++ more) ds = .ok (bs, more) := by
  induction ds with
  | nil =>
      intro values rest bs _ packed
      cases packed
      exact ⟨rfl, fun more => rfl⟩
  | cons d ds ih =>
      intro values rest bs served packed
      rw [List.forall_mem_cons] at count
      obtain ⟨o, left, tail, one, others, rfl⟩ := packPieces_cons packed
      rw [totalDemand] at served ⊢
      have taken := Directive.eq_drop_of_not_takesAll count.1 one
      obtain ⟨last, frame⟩ := ih count.2 (by rw [taken, List.length_drop]; omega) others
      refine ⟨by rw [last, taken, List.drop_drop], fun more => ?_⟩
      have own := Directive.pack_take_append count.1 (by omega) one
        (left.take (totalDemand ds) ++ more)
      rw [List.take_add, ← taken, List.append_assoc]
      simp only [packPieces, own, frame]

private theorem served_of_rest :
    ∀ {values rest : List Value} {bs : Bytes}, packPieces values ds = .ok (bs, rest) →
      rest ≠ [] → (∀ d ∈ ds, d.takesAll = false) ∧ totalDemand ds ≤ values.length := by
  induction ds with
  | nil => exact fun _ _ => ⟨List.forall_mem_nil _, Nat.zero_le _⟩
  | cons d ds ih =>
      intro values rest bs packed some_left
      obtain ⟨o, left, tail, one, others, -⟩ := packPieces_cons packed
      have taken := Directive.eq_drop_of_pack one
      obtain ⟨count, served⟩ := ih others some_left
      have nonempty : left ≠ [] := by
        rintro rfl
        have suffix := packPieces_suffix others
        exact some_left (List.suffix_nil.mp suffix)
      have within : d.demand values.length < values.length := by
        rw [taken] at nonempty
        exact Nat.lt_of_not_le fun all => nonempty (List.drop_of_length_le all)
      have counts : d.takesAll = false := by
        cases all : d.takesAll with
        | false => rfl
        | true =>
            rw [Directive.demand_of_takesAll all] at within
            exact absurd within (Nat.lt_irrefl _)
      rw [Directive.demand_of_not_takesAll counts] at within taken
      rw [taken, List.length_drop] at served
      rw [totalDemand]
      exact ⟨List.forall_mem_cons.mpr ⟨counts, count⟩, by omega⟩

private theorem packPieces_take_of_le {values rest : List Value} {bs : Bytes} {k : Nat}
    (packed : packPieces values ds = .ok (bs, rest)) (enough : values.length - rest.length ≤ k) :
    ∃ last, packPieces (values.take k) ds = .ok (bs, last) := by
  cases rest with
  | nil =>
      have all : values.take k = values := List.take_of_length_le (by simpa using enough)
      exact ⟨[], by rw [all, packed]⟩
  | cons v vs =>
      obtain ⟨count, served⟩ := served_of_rest packed (List.cons_ne_nil v vs)
      obtain ⟨left, frame⟩ := packPieces_take_append count served packed
      rw [left, List.length_drop] at enough
      have split : values.take k = values.take (totalDemand ds) ++
          (values.drop (totalDemand ds)).take (k - totalDemand ds) := by
        rw [← List.take_add, Nat.add_sub_cancel' (by omega)]
      rw [split]
      exact ⟨_, frame _⟩

end

/-! ## Templates -/

/-- The first values pack to a beginning of the data of all values, and to all of it from the
number `u` of values on that are taken.  Where each directive is served and none takes all values,
any others may stand in the place of those that are not taken. -/
theorem packText_take {config : Config} {values : List Value} {t : Text} {bs : Bytes}
    (bare : ∀ d ∈ (Template.read config t).directives, d.zeros = 0)
    (packed : packText config values t = .ok bs) :
    (∀ k, ∃ first, packText config (values.take k) t = .ok first ∧ first <+: bs) ∧
      ∃ u ≤ values.length, (Packing.run config values t).rest = .ok (values.drop u) ∧
        (∀ k, u ≤ k → packText config (values.take k) t = .ok bs) ∧
        ((∀ d ∈ (Template.read config t).directives, d.takesAll = false) →
          totalDemand (Template.read config t).directives ≤ values.length →
            ∀ more, packText config (values.take u ++ more) t = .ok bs) := by
  obtain ⟨whole, fits, rest, pieces⟩ := packText_eq_ok_iff.mp packed
  have data : written config values t = bs := by
    have walked := walk_pack (Template.read config t).directives values
    rw [pieces] at walked
    exact walked.2
  have left : (Packing.run config values t).rest = .ok rest :=
    Packing.rest_eq_ok_iff.mpr ⟨whole, by rw [pieces, data]⟩
  have suffix := packPieces_suffix pieces
  have drop : rest = values.drop (values.length - rest.length) := List.suffix_iff_eq_drop.mp suffix
  refine ⟨fun k => ?_, values.length - rest.length, Nat.sub_le _ _, by rw [← drop, left], ?_, ?_⟩
  · obtain ⟨first, last, front, begins⟩ := packPieces_take bare k pieces
    have short := begins.length_le
    exact ⟨first, packText_eq_ok_iff.mpr ⟨whole, by omega, last, front⟩, begins⟩
  · intro k enough
    obtain ⟨last, front⟩ := packPieces_take_of_le pieces enough
    exact packText_eq_ok_iff.mpr ⟨whole, fits, last, front⟩
  · intro count served more
    obtain ⟨last, same⟩ := packPieces_take_append count served pieces
    have taken : values.length - rest.length =
        totalDemand (Template.read config t).directives := by
      rw [last, List.length_drop]
      omega
    rw [taken]
    exact packText_eq_ok_iff.mpr ⟨whole, fits, more, same more⟩

theorem packText_take_fields :
    (∃ first, packText .default [.int 258, .ofBytes [0x61]]
        (Text.ofChars ['n', 'A', '2', 'C', '2']) = .ok first ∧
          first <+: [1, 2, 0x61, 0x20, 7, 8]) ∧
      packText .default [.int 258, .ofBytes [0x61], .int 7, .int 8, .none]
        (Text.ofChars ['n', 'A', '2', 'C', '2']) = .ok [1, 2, 0x61, 0x20, 7, 8] := by
  have packed : packText .default [.int 258, .ofBytes [0x61], .int 7, .int 8, .int 9]
      (Text.ofChars ['n', 'A', '2', 'C', '2']) = .ok [1, 2, 0x61, 0x20, 7, 8] := rfl
  obtain ⟨begins, u, within, left, -, others⟩ := packText_take (by decide) packed
  refine ⟨begins 2, ?_⟩
  have taken : [Value.int 9] = [Value.int 258, .ofBytes [0x61], .int 7, .int 8, .int 9].drop u :=
    Except.ok.inj left
  obtain rfl : u = 4 := by
    have length := congrArg List.length taken
    simp at length within
    omega
  exact others (by decide) (by decide) [.none]

end ByteTemplate
