import ByteTemplate.Proofs.Safety
import ByteTemplate.Proofs.Stability

/-!
# The limit on integers

A limit on the width of integers changes no value.  Unpacking under a limit fails with the first
integer that is wider, in the order in which integers are read, and does otherwise what it does
without a limit, up to the failure that it may end in.
-/

namespace ByteTemplate

namespace Integer

def HasBits (bits : Nat) (n : Int) : Prop :=
  -2 ^ (bits - 1) ≤ n ∧ n < 2 ^ (bits - 1)

instance (bits : Nat) (n : Int) : Decidable (HasBits bits n) :=
  inferInstanceAs (Decidable (_ ∧ _))

variable {bits : Nat} {n : Int}

theorem fits_iff : fits bits n = true ↔ HasBits bits n := by
  simp [fits, HasBits, and_comm]

private theorem limit_of_hasBits (two_le : 2 ≤ bits) (h : HasBits bits n) :
    limit (some bits) n = .ok n := by
  cases bits with
  | zero => omega
  | succ k => simp only [limit, fits_iff.mpr h, if_true]

private theorem limit_of_wide (two_le : 2 ≤ bits) (wide : ¬HasBits bits n)
    (shown : isShowable n = true) :
    limit (some bits) n = .error (.integerTooWide n) := by
  cases bits with
  | zero => omega
  | succ k =>
      rw [← fits_iff] at wide
      simp only [limit, wide, shown, Bool.false_eq_true, if_true, if_false]

/-- Fails with the first integer of a list that is beyond the limit. -/
def limitAll (maxBits : Option Nat) : List Int → Except Error Unit
  | [] => .ok ()
  | n :: ns =>
      match limit maxBits n with
      | .error e => .error e
      | .ok _ => limitAll maxBits ns

theorem limitAll_append (maxBits : Option Nat) (first second : List Int) :
    limitAll maxBits (first ++ second) =
      (limitAll maxBits first).bind fun _ => limitAll maxBits second := by
  induction first with
  | nil => rfl
  | cons n first ih =>
      simp only [List.cons_append, limitAll]
      cases limit maxBits n with
      | error e => rfl
      | ok _ => exact ih

theorem limitAll_of_hasBits (two_le : 2 ≤ bits) {ns : List Int} (h : ∀ n ∈ ns, HasBits bits n) :
    limitAll (some bits) ns = .ok () := by
  induction ns with
  | nil => rfl
  | cons n ns ih =>
      rw [List.forall_mem_cons] at h
      simp only [limitAll, limit_of_hasBits two_le h.1, ih h.2]

end Integer

/-! ## One directive -/

def Directive.integers (d : Directive) (vs : List Value) : List Int :=
  match d.codec with
  | .element (.integer _ _) => vs.filterMap fun
      | .int n => some n
      | _ => none
  | _ => []

private theorem readElements_decodeWithin (maxBits : Option Nat) (signed : Bool) (order : ByteOrder)
    (width limit : Nat) : ∀ data : Bytes, ∃ ns : List Int,
      (∀ n ∈ ns, n.natAbs < 256 ^ width) ∧
        readElements width (fun bs => (Integer.decodeWithin none signed order bs).map Value.int)
          limit data = .ok (ns.map Value.int) ∧
        readElements width (fun bs => (Integer.decodeWithin maxBits signed order bs).map Value.int)
          limit data = (Integer.limitAll maxBits ns).map fun _ => ns.map Value.int := by
  induction limit with
  | zero => exact fun _ => ⟨[], nofun, rfl, rfl⟩
  | succ limit ih =>
      intro data
      by_cases short : (data.take width).length < width
      · refine ⟨[], nofun, ?_, ?_⟩ <;> simp only [readElements, if_pos short] <;> rfl
      · obtain ⟨ns, small, free, limited⟩ := ih (data.drop width)
        have length : (data.take width).length = width := by
          rw [List.length_take] at short ⊢
          omega
        have own := Integer.natAbs_decode_lt signed order (data.take width)
        rw [length] at own
        refine ⟨Integer.decode signed order (data.take width) :: ns, ?_, ?_, ?_⟩
        · rw [List.forall_mem_cons]
          exact ⟨own, small⟩
        · have first : (Integer.decodeWithin none signed order (data.take width)).map Value.int =
              .ok (.int (Integer.decode signed order (data.take width))) := rfl
          simp only [readElements, if_neg short, first, free]
          rfl
        · simp only [readElements, if_neg short, limited, Integer.limitAll]
          cases within : Integer.limit maxBits (Integer.decode signed order (data.take width)) with
          | error e =>
              simp only [Integer.decodeWithin, within]
              rfl
          | ok n =>
              obtain rfl := Integer.eq_of_limit within
              simp only [Integer.decodeWithin, within]
              cases Integer.limitAll maxBits ns <;> rfl

section

variable {config : Config} {maxBits : Option Nat} {set : ∀ b ∈ maxBits, 2 ≤ b}

theorem Element.decode_integer_withMaxBits (signed : Bool) (width : Nat) (order : ByteOrder)
    (count : Option Nat) (data : Bytes) : ∃ ns missing size, (∀ n ∈ ns, n.natAbs < 256 ^ width) ∧
      (Element.integer signed width).decode config.unlimited order count data =
        .ok (ns.map .int ++ List.replicate missing .none, size) ∧
      (Element.integer signed width).decode (config.withMaxBits maxBits set) order count data =
        (Integer.limitAll maxBits ns).map fun _ =>
          (ns.map .int ++ List.replicate missing .none, size) := by
  obtain ⟨ns, small, free, limited⟩ :=
    readElements_decodeWithin maxBits signed order width (count.getD data.length) data
  refine ⟨ns, count.getD 0 - (ns.map Value.int).length, width * (ns.map Value.int).length, small,
    ?_, ?_⟩
  · simp only [Element.decode, decodeFixed]
    change Except.map _ (readElements width
      (fun bs => (Integer.decodeWithin none signed order bs).map .int) _ data) = _
    rw [free]
    rfl
  · simp only [Element.decode, decodeFixed]
    change Except.map _ (readElements width
      (fun bs => (Integer.decodeWithin maxBits signed order bs).map .int) _ data) = _
    rw [limited]
    cases Integer.limitAll maxBits ns <;> rfl

namespace Directive

theorem integers_of_ints {d : Directive} {signed : Bool} {width : Nat}
    (codec : d.codec = .element (.integer signed width)) (ns : List Int) (missing : Nat) :
    d.integers (ns.map .int ++ List.replicate missing .none) = ns := by
  simp [integers, codec, List.filterMap_append, List.filterMap_map]

private theorem decode_withMaxBits (data : Bytes) (d : Directive) :
    d.decode (config.withMaxBits maxBits set) data =
      (d.decode config.unlimited data).bind fun result =>
        (Integer.limitAll maxBits (d.integers (result.1.getD []))).map fun _ => result := by
  have no_integers : (∀ vs, d.integers vs = []) →
      ∀ outcome : Except Error (Option (List Value) × Nat), outcome =
        outcome.bind fun result =>
          (Integer.limitAll maxBits (d.integers (result.1.getD []))).map fun _ => result := by
    intro none outcome
    cases outcome <;> simp only [none] <;> rfl
  cases codec : d.codec with
  | element e =>
      cases e with
      | integer signed width =>
          obtain ⟨ns, missing, size, -, free, limited⟩ :=
            @Element.decode_integer_withMaxBits config maxBits set signed width d.order d.count data
          simp only [decode, codec, free, limited, Except.map, Except.bind, Option.getD_some,
            integers_of_ints codec]
          cases Integer.limitAll maxBits ns <;> rfl
      | _ =>
          have none : ∀ vs, d.integers vs = [] := fun _ => by simp only [integers, codec]
          rw [← no_integers none]
          simp only [decode, codec]
          rfl
  | _ =>
      have none : ∀ vs, d.integers vs = [] := fun _ => by simp only [integers, codec]
      rw [← no_integers none]
      simp only [decode, codec]

private theorem isShowable_of_mem_integers {data : Bytes} {d : Directive}
    (shown : 256 ^ config.longSize ≤ 10 ^ Integer.maxDigits) (narrow : d.codec.IsNarrow config)
    {result : Option (List Value) × Nat} (read : d.decode config.unlimited data = .ok result)
    {n : Int} (mem : n ∈ d.integers (result.1.getD [])) : Integer.isShowable n = true := by
  cases codec : d.codec with
  | element e =>
      cases e with
      | integer signed width =>
          obtain ⟨ns, missing, size, small, free, -⟩ := @Element.decode_integer_withMaxBits config
            none Config.two_le_of_mem_none signed width d.order d.count data
          simp only [decode, codec, free, Except.map, Except.ok.injEq] at read
          subst read
          simp only [Option.getD_some, integers_of_ints codec] at mem
          have bound : 256 ^ width ≤ 10 ^ Integer.maxDigits := by
            rw [codec] at narrow
            rcases narrow with eight | long
            · exact Integer.pow_le_of_le_eight eight
            · rw [long]
              exact shown
          exact decide_eq_true (Nat.lt_of_lt_of_le (small n mem) bound)
      | _ => simp [integers, codec] at mem
  | _ => simp [integers, codec] at mem

end Directive

end

/-! ## Whole templates -/

/-- The integers that directives read from the data, up to the first directive that fails. -/
def readIntegers (config : Config) (data : Bytes) : List Directive → List Int
  | [] => []
  | d :: ds =>
      match d.decode config data with
      | .error _ => []
      | .ok (out, size) => d.integers (out.getD []) ++ readIntegers config (data.drop size) ds

/-- The integers that unpacking reads, in this order, until it ends or fails. -/
def integersRead (config : Config) (data : Bytes) (t : Text) : List Int :=
  let ds := (Template.read config t).directives
  let outs := (walk (Directive.unpack config) ⟨data, 0⟩ ds).1
  (ds.zip outs).flatMap fun (d, out) => d.integers (out.elim [] Batch.values)

private theorem zip_walk_unpack {config : Config} {data : Bytes} (ds : List Directive) :
    ∀ {n : Nat}, n ≤ data.length →
      ((ds.zip (walk (Directive.unpack config) ⟨data, n⟩ ds).1).flatMap fun (d, out) =>
        d.integers (out.elim [] Batch.values)) = readIntegers config (data.drop n) ds := by
  induction ds with
  | nil => exact fun _ => rfl
  | cons d ds ih =>
      intro n inside
      simp only [walk, readIntegers, Directive.unpack_eq inside]
      cases read : d.decode config (data.drop n) with
      | error e => rfl
      | ok result =>
          rcases result with ⟨out, size⟩
          have bound := Directive.size_le_of_decode read
          rw [List.length_drop] at bound
          have rest := ih (show n + size ≤ data.length by omega)
          simp only [Except.map, List.drop_drop, List.zip_cons_cons, List.flatMap_cons, rest]
          cases out <;> rfl

theorem Template.read_unlimited (config : Config) (t : Text) :
    read config.unlimited t = read config t :=
  read_withMaxBits config none Config.two_le_of_mem_none t

theorem integersRead_unlimited (config : Config) (data : Bytes) (t : Text) :
    integersRead config.unlimited data t =
      readIntegers config.unlimited data (Template.read config t).directives := by
  have integers := @zip_walk_unpack config.unlimited data (Template.read config t).directives 0
    (Nat.zero_le _)
  rw [List.drop_zero] at integers
  simp only [integersRead, Template.read_unlimited]
  exact integers

section

variable {config : Config} {maxBits : Option Nat} {set : ∀ b ∈ maxBits, 2 ≤ b}

private theorem readBatches_withMaxBits (ds : List Directive) : ∀ (start : Nat) (data : Bytes),
    readBatches (config.withMaxBits maxBits set) start data ds =
      (Integer.limitAll maxBits (readIntegers config.unlimited data ds)).bind fun _ =>
        readBatches config.unlimited start data ds := by
  induction ds with
  | nil => exact fun _ _ => rfl
  | cons d ds ih =>
      intro start data
      -- The integers of the first directive are checked before any of the others is read.
      simp only [readBatches, readIntegers, Directive.decode_withMaxBits]
      cases d.decode config.unlimited data with
      | error e => rfl
      | ok result =>
          simp only [Except.bind, Integer.limitAll_append]
          cases Integer.limitAll maxBits (d.integers (result.1.getD [])) with
          | error e => rfl
          | ok _ =>
              simp only [Except.map, ih]
              cases Integer.limitAll maxBits
                (readIntegers config.unlimited (data.drop result.2) ds) <;> rfl

/-- Unpacking under a limit fails with the first integer beyond it, or comes out as without a
limit. -/
theorem unpackBatches_withMaxBits (data : Bytes) (t : Text) :
    unpackBatches (config.withMaxBits maxBits set) data t =
      (Integer.limitAll maxBits (integersRead config.unlimited data t)).bind fun _ =>
        unpackBatches config.unlimited data t := by
  rw [integersRead_unlimited, unpackBatches_eq, unpackBatches_eq, Template.read_withMaxBits,
    Template.read_unlimited, readBatches_withMaxBits]
  cases Integer.limitAll maxBits
    (readIntegers config.unlimited data (Template.read config t).directives) <;> rfl

end

private theorem isShowable_of_mem_readIntegers {config : Config}
    (shown : 256 ^ config.longSize ≤ 10 ^ Integer.maxDigits) {ds : List Directive} :
    ∀ {data : Bytes} {n : Int}, (∀ d ∈ ds, d.codec.IsNarrow config) →
      n ∈ readIntegers config.unlimited data ds → Integer.isShowable n = true := by
  induction ds with
  | nil => exact fun _ mem => nomatch mem
  | cons d ds ih =>
      intro data n narrow mem
      rw [List.forall_mem_cons] at narrow
      simp only [readIntegers] at mem
      cases read : d.decode config.unlimited data with
      | error e => simp [read] at mem
      | ok result =>
          simp only [read, List.mem_append] at mem
          rcases mem with own | later
          · exact Directive.isShowable_of_mem_integers shown narrow.1 read own
          · exact ih narrow.2 later

def Config.limited (config : Config) (bits : Nat) (two_le : 2 ≤ bits) : Config :=
  config.withMaxBits (some bits) (by simpa using two_le)

/-- A limit only ever rejects.  Where all integers are within it, unpacking comes out as without a
limit, be it with values or with an error; else it fails with the first integer that is not. -/
theorem unpackBatches_limited {config : Config}
    (shown : 256 ^ config.longSize ≤ 10 ^ Integer.maxDigits) {bits : Nat} (two_le : 2 ≤ bits)
    (data : Bytes) (t : Text) :
    ((∀ n ∈ integersRead config.unlimited data t, Integer.HasBits bits n) →
      unpackBatches (config.limited bits two_le) data t =
        unpackBatches config.unlimited data t) ∧
    ∀ before n after, integersRead config.unlimited data t = before ++ n :: after →
      (∀ m ∈ before, Integer.HasBits bits m) → ¬Integer.HasBits bits n →
        unpackBatches (config.limited bits two_le) data t = .error (.integerTooWide n) := by
  constructor
  · intro within
    rw [Config.limited, unpackBatches_withMaxBits, Integer.limitAll_of_hasBits two_le within]
    rfl
  · intro before n after first within wide
    have mem : n ∈ integersRead config.unlimited data t := by simp [first]
    rw [integersRead_unlimited] at mem
    have showable := isShowable_of_mem_readIntegers shown (fun _ => Template.isNarrow_of_mem) mem
    rw [Config.limited, unpackBatches_withMaxBits, first, Integer.limitAll_append,
      Integer.limitAll_of_hasBits two_le within]
    simp only [Except.bind, Integer.limitAll, Integer.limit_of_wide two_le wide showable]

theorem unpackBatches_limited_bytes :
    unpackBatches (Config.default.limited 8 (by decide)) [100, 200, 0x80]
        (Text.ofChars ['C', '2', 'U']) = .error (.integerTooWide 200) ∧
      unpackBatches (Config.default.limited 9 (by decide)) [100, 200, 0x80]
        (Text.ofChars ['C', '2', 'U']) =
          unpackBatches Config.default.unlimited [100, 200, 0x80] (Text.ofChars ['C', '2', 'U']) := by
  have shown : 256 ^ Config.default.longSize ≤ 10 ^ Integer.maxDigits :=
    Integer.pow_le_of_le_eight (by decide)
  have read : integersRead Config.default.unlimited [100, 200, 0x80]
      (Text.ofChars ['C', '2', 'U']) = [100, 200] := by decide
  constructor
  · refine (unpackBatches_limited shown (by decide) _ _).2 [100] 200 [] read ?_ ?_ <;> decide
  · refine (unpackBatches_limited shown (by decide) _ _).1 ?_
    rw [read]
    decide

end ByteTemplate
