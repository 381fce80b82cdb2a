import ByteTemplate.Proofs.Elements
import ByteTemplate.Proofs.Text.Utf8

/-!
# Errors that escape from packing

Packing is to fail with the library's own errors only.  Others get through in three places: where a
number becomes a float that is a signaling NaN or is out of range and too long to be shown, where a
text with surrogates becomes a string, and where the size of the native integer, which is not
supported, is too long to be shown.
-/

namespace ByteTemplate

theorem BinaryFloat.isInfinite_ofRatio {e f : Nat} {negative : Bool} {num den : Nat}
    (large : infiniteMagnitude e f ≤ roundedMagnitude f (num * unitDenominator e f) den) :
    (ofRatio negative num den : BinaryFloat e f).isInfinite = true := by
  simp only [isInfinite, ofRatio, Nat.min_eq_right large, beq_self_eq_true]

theorem Integer.isShowable_eq_false_iff {n : Int} :
    isShowable n = false ↔ 10 ^ maxDigits ≤ n.natAbs := by
  simp [isShowable]

def Number.IsUnshown : Number → Prop
  | .int n => 10 ^ Integer.maxDigits ≤ n.natAbs
  | .fraction q => 10 ^ Integer.maxDigits ≤ q.num.natAbs ∨ 10 ^ Integer.maxDigits ≤ q.den
  | _ => False

theorem Double.isInfinite_ofFraction {n : Int} (long : (Number.int n).IsUnshown) :
    (ofFraction n 1).isInfinite = true := by
  have digits : 10 ^ Integer.maxDigits ≤ n.natAbs := long
  have many : 2 ^ Integer.maxDigits ≤ n.natAbs * BinaryFloat.unitDenominator 11 52 :=
    calc
      2 ^ Integer.maxDigits ≤ 10 ^ Integer.maxDigits :=
        Nat.pow_le_pow_left (by decide) Integer.maxDigits
      _ ≤ n.natAbs := digits
      _ ≤ n.natAbs * BinaryFloat.unitDenominator 11 52 :=
        Nat.le_mul_of_pos_right _ (BinaryFloat.unitDenominator_pos 11 52)
  have units := Nat.ne_of_gt (Nat.lt_of_lt_of_le (Nat.two_pow_pos _) many)
  have binade := (Nat.le_log2 units).mpr many
  apply BinaryFloat.isInfinite_ofRatio
  simp only [BinaryFloat.roundedMagnitude, Nat.div_one]
  calc
    BinaryFloat.infiniteMagnitude 11 52 ≤ (Integer.maxDigits - 52) * 2 ^ 52 := by decide
    _ ≤ (Nat.log2 (n.natAbs * BinaryFloat.unitDenominator 11 52) - 52) * 2 ^ 52 :=
      Nat.mul_le_mul_right _ (Nat.sub_le_sub_right binade 52)
    _ ≤ _ := Nat.le_add_right _ _

variable {e : Error}

theorem Number.outOfRange_eq_iff (foreign : e.isLibrary = false) {x : Number} {target : Target} :
    x.outOfRange target = e ↔ x.IsUnshown ∧ e = .tooManyDigits := by
  have shown : Error.outOfRange x target ≠ e := by
    rintro rfl
    cases foreign
  cases x with
  | float y => simp [outOfRange, IsUnshown, shown]
  | decimal d => simp [outOfRange, IsUnshown, shown]
  | int n =>
      simp only [outOfRange, IsUnshown, ← Integer.isShowable_eq_false_iff]
      by_cases showable : Integer.isShowable n = false
      · simp [showable, eq_comm]
      · simp [showable, shown]
  | fraction q =>
      have den := @Integer.isShowable_eq_false_iff q.den
      rw [Int.natAbs_natCast] at den
      simp only [outOfRange, IsUnshown, ← Integer.isShowable_eq_false_iff, ← den,
        ← Bool.and_eq_false_iff]
      by_cases showable : (Integer.isShowable q.num && Integer.isShowable q.den) = false
      · simp [showable, eq_comm]
      · simp [showable, shown]

/-- How a number fails to become a double with an error that is not the library's own. -/
inductive Number.Escapes : Number → Error → Prop
  | signaling (negative : Bool) (payload : Nat) :
      Escapes (.decimal (.nan negative true payload)) .signalingNaN
  | integer {n : Int} (long : (Number.int n).IsUnshown) : Escapes (.int n) .tooManyDigits
  | fraction {q : Rat} (out : (Double.ofFraction q.num q.den).isInfinite = true)
      (long : (Number.fraction q).IsUnshown) : Escapes (.fraction q) .tooManyDigits

theorem Number.finite_eq_error_iff {x : Number} {y : Double} :
    x.finite y = .error e ↔ y.isInfinite = true ∧ x.outOfRange .float = e := by
  unfold finite
  split
  · next out => simp [out]
  · next within => simp [within]

theorem Number.toDouble_eq_error_iff (foreign : e.isLibrary = false) {x : Number} :
    x.toDouble = .error e ↔ x.Escapes e := by
  cases x with
  | float y =>
      constructor
      · nofun
      · nofun
  | int n =>
      rw [toDouble, finite_eq_error_iff, Number.outOfRange_eq_iff foreign]
      constructor
      · rintro ⟨-, long, rfl⟩
        exact .integer long
      · intro escapes
        cases escapes with
        | integer long => exact ⟨Double.isInfinite_ofFraction long, long, rfl⟩
  | fraction q =>
      rw [toDouble, finite_eq_error_iff, Number.outOfRange_eq_iff foreign]
      constructor
      · rintro ⟨out, long, rfl⟩
        exact .fraction out long
      · intro escapes
        cases escapes with
        | fraction out long => exact ⟨out, long, rfl⟩
  | decimal d =>
      cases d with
      | finite negative coefficient exponent =>
          constructor
          · nofun
          · nofun
      | infinity negative =>
          constructor
          · nofun
          · nofun
      | nan negative signaling payload =>
          cases signaling with
          | false =>
              constructor
              · nofun
              · nofun
          | true =>
              constructor
              · rintro ⟨⟩
                exact .signaling negative payload
              · rintro ⟨⟩
                rfl

theorem Number.isLibrary_of_toInt {x : Number} (h : x.toInt = .error e) : e.isLibrary = true := by
  unfold toInt at h
  split at h
  · cases h
  · next no_integer =>
      cases h
      cases x with
      | float y => rfl
      | decimal d => rfl
      | int n => cases no_integer
      | fraction q => cases no_integer

theorem Value.isLibrary_of_toInt {v : Value} (h : v.toInt = .error e) : e.isLibrary = true := by
  unfold toInt at h
  split at h
  · exact Number.isLibrary_of_toInt h
  · cases h
  · cases h
    rfl

theorem Value.toBytes_eq_error_iff (foreign : e.isLibrary = false) {v : Value} :
    v.toBytes = .error e ↔
      ∃ t, v = .text t ∧ t.any CodePoint.isSurrogate = true ∧ e = Text.surrogateError 0 t := by
  cases v with
  | text t =>
      simp only [toBytes, Text.toUtf8, Value.text.injEq, exists_eq_left', ← Text.utf8?_eq_none_iff]
      cases t.utf8? <;> simp [eq_comm]
  | bytes form bs => simp [toBytes]
  | _ =>
      simp only [toBytes, Except.error.injEq, reduceCtorEq, false_and, exists_false, iff_false]
      rintro rfl
      cases foreign

/-! ## Directives -/

/-- How converting the values of a directive fails with an error that is not the library's own. -/
inductive Directive.Escapes (d : Directive) : List Value → Error → Prop
  | number {precision : Precision} {values before after : List Value} {v : Value} {x : Number}
      {bs : Bytes} {e : Error} (codec : d.codec = .element (.float precision))
      (taken : values.take (d.demand values.length) = before ++ v :: after)
      (converted : (Element.float precision).encodeAll d.order before = .ok bs)
      (number : v.number? = some x) (escapes : x.Escapes e) : Escapes d values e
  | text {b : Block} {t : Text} {rest : List Value} (codec : d.codec = .block b)
      (surrogates : t.any CodePoint.isSurrogate = true) :
      Escapes d (.text t :: rest) (Text.surrogateError 0 t)

theorem Element.encodeAll_cons_eq_error_iff {order : ByteOrder} {element : Element} {v : Value}
    {vs : List Value} :
    element.encodeAll order (v :: vs) = .error e ↔ element.encode order v = .error e ∨
      ∃ bs, element.encode order v = .ok bs ∧ element.encodeAll order vs = .error e := by
  simp only [encodeAll, bind, Except.bind]
  cases element.encode order v with
  | error fault => simp
  | ok bs => cases element.encodeAll order vs <;> simp

theorem Element.encodeAll_eq_error_iff {order : ByteOrder} {element : Element}
    {vs : List Value} :
    element.encodeAll order vs = .error e ↔
      ∃ before v after bs, vs = before ++ v :: after ∧
        element.encodeAll order before = .ok bs ∧ element.encode order v = .error e := by
  induction vs with
  | nil =>
      constructor
      · nofun
      · rintro ⟨before, v, after, bs, split, -⟩
        cases before <;> cases split
  | cons w vs ih =>
      rw [encodeAll_cons_eq_error_iff, ih]
      constructor
      · rintro (failed | ⟨own, written, before, v, after, bs, rfl, converted, failed⟩)
        · exact ⟨[], w, vs, [], rfl, rfl, failed⟩
        · refine ⟨w :: before, v, after, own ++ bs, rfl, ?_, failed⟩
          simp only [encodeAll, written, converted]
          rfl
      · rintro ⟨before, v, after, bs, split, converted, failed⟩
        cases before with
        | nil =>
            obtain ⟨rfl, -⟩ := List.cons.inj split
            exact .inl failed
        | cons w' before =>
            obtain ⟨rfl, rfl⟩ := List.cons.inj split
            obtain ⟨own, more, written, converted, -⟩ := Element.encodeAll_cons converted
            exact .inr ⟨own, written, before, v, after, more, rfl, converted, failed⟩

theorem Element.encode_eq_error_iff (foreign : e.isLibrary = false) {order : ByteOrder}
    {element : Element} {v : Value} :
    element.encode order v = .error e ↔
      ∃ precision x, element = .float precision ∧ v.number? = some x ∧ x.Escapes e := by
  cases element with
  | integer signed width =>
      simp only [encode, reduceCtorEq, false_and, exists_false, iff_false]
      cases value : v.toInt with
      | ok n =>
          intro h
          cases h
      | error fault =>
          intro h
          cases h
          rw [Value.isLibrary_of_toInt value] at foreign
          cases foreign
  | codepoint =>
      simp only [reduceCtorEq, false_and, exists_false, iff_false]
      have own : ∀ fault : Error, v.toInt.bind Codepoint.encode = .error fault →
          fault.isLibrary = true := by
        intro fault h
        cases value : v.toInt with
        | error cause =>
            rw [value] at h
            cases h
            exact Value.isLibrary_of_toInt value
        | ok n =>
            simp only [value, Except.bind, Codepoint.encode] at h
            split at h <;> cases h
            rfl
      intro h
      cases v with
      | float x =>
          cases h
          cases foreign
      | _ =>
          have library := own e h
          rw [foreign] at library
          cases library
  | float precision =>
      simp only [encode, Value.toDouble, Element.float.injEq, exists_and_left, exists_eq_left']
      cases number : v.number? with
      | none =>
          simp only [Except.map, Except.error.injEq, reduceCtorEq, false_and, exists_false,
            iff_false]
          rintro rfl
          cases foreign
      | some x =>
          simp only [Option.some.injEq, exists_eq_left']
          rw [← Number.toDouble_eq_error_iff foreign]
          cases x.toDouble <;> simp [Except.map]

theorem Directive.pack_eq_error_iff (foreign : e.isLibrary = false) {d : Directive}
    {values : List Value} : d.pack values = .error e ↔ d.Escapes values e := by
  cases codec : d.codec with
  | ignored =>
      simp only [pack, codec, reduceCtorEq, false_iff]
      rintro (⟨other⟩ | ⟨other⟩)
      · rw [codec] at other
        cases other
      · rw [codec] at other
        cases other
  | null =>
      simp only [pack, codec, reduceCtorEq, false_iff]
      rintro (⟨other⟩ | ⟨other⟩)
      · rw [codec] at other
        cases other
      · rw [codec] at other
        cases other
  | block b =>
      have failed : d.pack values = .error e ↔ ∃ v rest, values = v :: rest ∧ v.toBytes = .error e := by
        cases values with
        | nil => simp [pack, codec]
        | cons v rest =>
            simp only [pack, codec, List.cons.injEq]
            cases bytes : v.toBytes <;> simp [bind, Except.bind, bytes]
      rw [failed]
      constructor
      · rintro ⟨v, rest, rfl, no_bytes⟩
        obtain ⟨t, rfl, surrogates, rfl⟩ := (Value.toBytes_eq_error_iff foreign).mp no_bytes
        exact .text codec surrogates
      · rintro (⟨other⟩ | ⟨-, surrogates⟩)
        · rw [codec] at other
          cases other
        · exact ⟨_, _, rfl, (Value.toBytes_eq_error_iff foreign).mpr ⟨_, rfl, surrogates, rfl⟩⟩
  | element element =>
      have demand : d.demand values.length = d.count.getD values.length := by
        simp only [Directive.demand, codec]
      have failed : d.pack values = .error e ↔
          element.encodeAll d.order (values.take (d.demand values.length)) = .error e := by
        simp only [pack, codec, demand]
        cases element.encodeAll d.order (values.take (d.count.getD values.length)) <;>
          simp [bind, Except.bind]
      rw [failed, Element.encodeAll_eq_error_iff]
      constructor
      · rintro ⟨before, v, after, bs, taken, converted, no_bytes⟩
        obtain ⟨precision, x, rfl, number, escapes⟩ :=
          (Element.encode_eq_error_iff foreign).mp no_bytes
        exact .number codec taken converted number escapes
      · rintro (⟨own, taken, converted, number, escapes⟩ | ⟨other⟩)
        · rw [codec] at own
          cases own
          exact ⟨_, _, _, _, taken, converted,
            (Element.encode_eq_error_iff foreign).mpr ⟨_, _, rfl, number, escapes⟩⟩
        · rw [codec] at other
          cases other

/-! ## Templates -/

theorem packPieces_cons_eq_error_iff {d : Directive} {ds : List Directive} {values : List Value} :
    packPieces values (d :: ds) = .error e ↔ d.pack values = .error e ∨
      ∃ o left, d.pack values = .ok (o, left) ∧ packPieces left ds = .error e := by
  cases first : d.pack values with
  | error fault => simp [packPieces, first]
  | ok result =>
      rcases result with ⟨o, left⟩
      have later : packPieces values (d :: ds) = .error e ↔ packPieces left ds = .error e := by
        simp only [packPieces, first]
        cases packPieces left ds <;> simp
      rw [later]
      constructor
      · exact fun failed => .inr ⟨o, left, rfl, failed⟩
      · rintro (first_failed | ⟨_, _, same, failed⟩)
        · cases first_failed
        · cases same
          exact failed

theorem packPieces_eq_error_iff {ds : List Directive} {values : List Value} :
    packPieces values ds = .error e ↔
      ∃ front d back bs rest, ds = front ++ d :: back ∧
        packPieces values front = .ok (bs, rest) ∧ d.pack rest = .error e := by
  induction ds generalizing values with
  | nil =>
      constructor
      · nofun
      · rintro ⟨front, d, back, bs, rest, split, -⟩
        cases front <;> cases split
  | cons d ds ih =>
      rw [packPieces_cons_eq_error_iff]
      constructor
      · rintro (failed | ⟨o, left, first, later⟩)
        · exact ⟨[], d, ds, [], values, rfl, rfl, failed⟩
        · obtain ⟨front, d', back, bs, rest, rfl, packed, failed⟩ := ih.mp later
          refine ⟨d :: front, d', back, o.piece.data ++ bs, rest, rfl, ?_, failed⟩
          simp only [packPieces, first, packed]
      · rintro ⟨front, d', back, bs, rest, split, packed, failed⟩
        cases front with
        | nil =>
            obtain ⟨rfl, -⟩ := List.cons.inj split
            cases packed
            exact .inl failed
        | cons d' front =>
            obtain ⟨rfl, rfl⟩ := List.cons.inj split
            obtain ⟨o, left, tail, first, more, rfl⟩ := packPieces_cons packed
            exact .inr ⟨o, left, first, ih.mpr ⟨front, _, back, tail, rest, rfl, more, failed⟩⟩

variable {config : Config} {values : List Value} {t : Text}

theorem Packing.rest_eq_error_iff (foreign : e.isLibrary = false) :
    (run config values t).rest = .error e ↔
      packPieces values (Template.read config t).directives = .error e ∨
        e = .tooManyDigits ∧ Template.StopsUnshown config t ∧
          ∃ result, packPieces values (Template.read config t).directives = .ok result := by
  have walked := walk_pack (Template.read config t).directives values
  simp only [run]
  cases packed : packPieces values (Template.read config t).directives with
  | error cause =>
      rw [packed] at walked
      simp [walked]
  | ok result =>
      rw [packed] at walked
      simp only [walked.1, reduceCtorEq, false_or, Except.ok.injEq, exists_eq', and_true]
      rw [← Template.fault_eq_tooManyDigits_iff]
      cases fault : (Template.read config t).fault with
      | none => simp
      | some cause =>
          simp only [Except.error.injEq, Option.some.injEq]
          constructor
          · rintro rfl
            rcases Template.isFault_of_read fault with own | ⟨rfl, -⟩
            · rw [own.isLibrary] at foreign
              cases foreign
            · exact ⟨rfl, rfl⟩
          · rintro ⟨rfl, rfl⟩
            rfl

/-- An error that is not the library's own escapes from packing exactly where the pieces are not
too long and, of what fails first, either a value has a conversion that lets it through or a native
integer has a size that is too long to be shown. -/
theorem packText_eq_error_iff (foreign : e.isLibrary = false) :
    packText config values t = .error e ↔
      (written config values t).length ≤ maxSize ∧
        ((∃ front d back bs rest, (Template.read config t).directives = front ++ d :: back ∧
            packPieces values front = .ok (bs, rest) ∧ d.Escapes rest e) ∨
          e = .tooManyDigits ∧ Template.StopsUnshown config t ∧
            ∃ result, packPieces values (Template.read config t).directives = .ok result) := by
  have first : (Packing.run config values t).rest = .error e ↔
      (∃ front d back bs rest, (Template.read config t).directives = front ++ d :: back ∧
          packPieces values front = .ok (bs, rest) ∧ d.Escapes rest e) ∨
        e = .tooManyDigits ∧ Template.StopsUnshown config t ∧
          ∃ result, packPieces values (Template.read config t).directives = .ok result := by
    simp only [Packing.rest_eq_error_iff foreign, packPieces_eq_error_iff,
      Directive.pack_eq_error_iff foreign]
  rw [packText_eq, ← first]
  by_cases fits : (written config values t).length ≤ maxSize
  · simp only [fits, if_true, true_and]
    cases (Packing.run config values t).rest <;> simp [Except.map]
  · simp only [fits, if_false, false_and, iff_false, Except.error.injEq]
    rintro rfl
    cases foreign

theorem packText_signalingNaN :
    packText .default [.int 7, .decimal (.nan false true 0)] (Text.ofChars ['C', 'd']) =
      .error .signalingNaN := by
  refine (packText_eq_error_iff rfl).mpr ⟨by decide, .inl ⟨[_], _, [], [7], _, rfl, rfl, ?_⟩⟩
  have taken : [Value.decimal (.nan false true 0)] = [] ++ .decimal (.nan false true 0) :: [] := rfl
  exact .number rfl taken rfl rfl (.signaling false 0)

end ByteTemplate
