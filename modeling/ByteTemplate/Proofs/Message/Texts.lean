import ByteTemplate.Proofs.Message.Codec
import ByteTemplate.Proofs.Message.Declaration
import ByteTemplate.Proofs.RoundTrip
import ByteTemplate.Proofs.Text.Cut

/-!
# Texts of packed messages

Texts are cut at a number of bytes, and validation limits no text to the width of its field.
A message that packs is therefore not always unpacked again: what its fields keep is UTF-8 unless
one of them cuts its text inside a character.
-/

namespace ByteTemplate

theorem Value.toBytes_eq_ok {v : Value} {bs : Bytes} (h : v.toBytes = .ok bs) :
    (∃ form, v = .bytes form bs) ∨
      ∃ cs, v = .text (Text.ofChars cs) ∧ bs = Text.utf8OfChars cs := by
  cases v with
  | bytes form own =>
      cases h
      exact .inl ⟨form, rfl⟩
  | text t =>
      simp only [Value.toBytes, Text.toUtf8] at h
      cases utf8 : t.utf8? with
      | none => simp [utf8] at h
      | some own =>
          rw [utf8] at h
          cases h
          obtain ⟨cs, rfl, rfl⟩ := Text.utf8?_eq_some_iff.mp utf8
          exact .inr ⟨cs, rfl, rfl⟩
  | _ => cases h

namespace Message

namespace FieldSchema

def IsFixedString (f : FieldSchema) : Prop :=
  ∃ padding n, f.directive.codec = .block (.string padding) ∧ f.directive.count = some n

/-- Whether a text field of a message cuts its text inside a character; where a byte string takes
the place of the text, whether what is kept of it is no UTF-8. -/
def isUnreadable (m : Record) (f : FieldSchema) : Bool :=
  match f.type, f.directive.codec, f.directive.count, m.lookup f.name with
  | .text, .block (.string padding), some n, some (.text t) =>
      t.chars?.any (Text.isCut padding n)
  | .text, .block (.string padding), some n, some (.bytes _ bs) =>
      (Text.ofUtf8? (Padded.kept padding (some n) bs)).isNone
  | _, _, _, _ => false

theorem IsFixedString.byteSize {f : FieldSchema} (h : f.IsFixedString) :
    ∃ n, f.directive.byteSize = some n := by
  obtain ⟨padding, n, codec, count⟩ := h
  exact ⟨n, by simp only [Directive.byteSize, codec, count]⟩

end FieldSchema

namespace Class

variable {f : FieldSchema} {m : Record} {w : Value}

private theorem unpackedValue_of_not_text (other : f.type ≠ .text) (v : Value) :
    unpackedValue f v = .ok v := by
  have no_text : f.isText = false := by simpa [FieldSchema.isText] using other
  cases v with
  | bytes form bs => simp only [unpackedValue, no_text, Bool.false_eq_true, if_false]
  | _ => rfl

private theorem unpackedValue_ofBytes (text : f.type = .text) (bs : Bytes) :
    ((Text.ofUtf8? bs).isNone = true ∧
        unpackedValue f (.ofBytes bs) = .error (.notUtf8 f.name)) ∨
      ((Text.ofUtf8? bs).isNone = false ∧ ∃ u, unpackedValue f (.ofBytes bs) = .ok u) := by
  have is_text : f.isText = true := by simp [FieldSchema.isText, text]
  simp only [unpackedValue, Value.ofBytes, is_text, if_true]
  cases Text.ofUtf8? bs with
  | none => exact .inl ⟨rfl, rfl⟩
  | some t => exact .inr ⟨rfl, _, rfl⟩

private theorem unpackedValue_of_canonical (strings : f.type = .text → f.IsFixedString)
    (form : f.directive.canonical ((m.lookup f.name).getD .none) = .ok w) :
    (f.isUnreadable m = true ∧ unpackedValue f w = .error (.notUtf8 f.name)) ∨
      (f.isUnreadable m = false ∧ ∃ u, unpackedValue f w = .ok u) := by
  by_cases text : f.type = .text
  · obtain ⟨padding, n, codec, count⟩ := strings text
    simp only [Directive.canonical, codec, count] at form
    cases bytes : ((m.lookup f.name).getD .none).toBytes with
    | error e =>
        rw [bytes] at form
        cases form
    | ok source =>
        rw [bytes] at form
        obtain rfl := Except.ok.inj form
        have same : f.isUnreadable m =
            (Text.ofUtf8? (Padded.kept padding (some n) source)).isNone := by
          cases given : m.lookup f.name with
          | none => simp [given, Value.toBytes] at bytes
          | some v =>
              rw [given, Option.getD_some] at bytes
              rcases Value.toBytes_eq_ok bytes with ⟨form, rfl⟩ | ⟨cs, rfl, rfl⟩
              · simp only [FieldSchema.isUnreadable, text, codec, count, given]
              · simp only [FieldSchema.isUnreadable, text, codec, count, given,
                  Text.chars?_ofChars, Option.any_some, Text.ofUtf8?_kept]
        rw [same]
        exact unpackedValue_ofBytes text _
  · refine .inr ⟨?_, w, unpackedValue_of_not_text text w⟩
    unfold FieldSchema.isUnreadable
    split
    · next own _ _ _ => exact absurd own text
    · next own _ _ _ => exact absurd own text
    · rfl

/-! ## Messages -/

theorem decode_field (own : f.IsAccepted) {n : Nat} (size : f.directive.byteSize = some n)
    {v : Value} {values left : List Value} {o : Output}
    (packed : f.directive.pack (v :: values) = .ok (o, left)) (tail : Bytes) (start : Nat) :
    left = values ∧ ∃ w, f.directive.canonical v = .ok w ∧
      f.directive.decode .default (o.piece.data ++ tail) = .ok (some [w], o.piece.data.length) ∧
      isTruncated f start ⟨[w], (start + o.piece.data.length : Nat)⟩ = false := by
  obtain ⟨g, -, read⟩ := own.group
  obtain ⟨delimited, no_end⟩ := Directive.isDelimited_of_byteSize size
  obtain ⟨rfl, w, taken, form, first, whole⟩ := @Directive.decode_pack_one .default _ _ _ o rfl
    (Group.hasWidth_of_directive read) own.hasValues own.single _ packed tail (.inl delimited)
  obtain rfl := whole delimited fun ends => by
    rw [no_end] at ends
    cases ends
  have length := Directive.length_pack_one own.hasValues own.single size packed
  have enough : n ≤ (o.piece.data ++ tail).length := by
    rw [List.length_append, length]
    exact Nat.le_add_right _ _
  obtain ⟨-, w', same, present⟩ :=
    Directive.decode_of_byteSize own.hasValues own.single size enough first
  obtain rfl : w = w' := by
    cases same
    rfl
  refine ⟨rfl, w, form, first, isTruncated_of_whole present fun k known => ?_⟩
  rw [size] at known
  rw [length, Option.some.inj known]

private theorem unpackedFields_of_packPieces {s : Schema} (accepted : ∀ f ∈ s, f.IsAccepted)
    (strings : ∀ f ∈ s, f.type = .text → f.IsFixedString)
    (sized : ∀ f ∈ s, ∃ n, f.directive.byteSize = some n) :
    ∀ {bs : Bytes} {rest : List Value},
      packPieces (fieldValues m s) (s.map FieldSchema.directive) = .ok (bs, rest) →
        ∀ start : Nat, ∃ batches stop,
          readBatches .default start bs (s.map FieldSchema.directive) = .ok (batches, stop) ∧
            ((∃ f, s.find? (FieldSchema.isUnreadable m) = some f ∧
                unpackedFields start s batches = .error (.notUtf8 f.name)) ∨
              (s.find? (FieldSchema.isUnreadable m) = none ∧
                ∃ given, unpackedFields start s batches = .ok given)) := by
  induction s with
  | nil => exact fun _ start => ⟨[], start, rfl, .inr ⟨rfl, [], rfl⟩⟩
  | cons f s ih =>
      intro bs rest packed start
      simp only [fieldValues, List.map_cons] at packed
      obtain ⟨o, left, tail, one, more, rfl⟩ := packPieces_cons packed
      obtain ⟨n, size⟩ := sized f (by simp)
      obtain ⟨rfl, w, form, first, kept⟩ := decode_field (accepted f (by simp)) size one tail start
      obtain ⟨batches, stop, read_more, outcome⟩ := ih
        (fun f mem => accepted f (by simp [mem])) (fun f mem => strings f (by simp [mem]))
        (fun f mem => sized f (by simp [mem])) more (start + o.piece.data.length)
      have after : readBatches .default (start + o.piece.data.length)
          ((o.piece.data ++ tail).drop o.piece.data.length) (s.map FieldSchema.directive) =
            .ok (batches, stop) := by
        rw [List.drop_left]
        exact read_more
      refine ⟨⟨[w], (start + o.piece.data.length : Nat)⟩ :: batches, stop,
        readBatches_cons_eq_ok_iff.mpr ⟨_, _, batches, first, after, rfl⟩, ?_⟩
      rw [unpackedFields_of_whole kept, List.headD_cons]
      rcases unpackedValue_of_canonical (strings f (by simp)) form with
        ⟨unreadable, value⟩ | ⟨readable, u, value⟩
      · refine .inl ⟨f, List.find?_cons_of_pos unreadable, ?_⟩
        rw [value]
        rfl
      · rw [value, List.find?_cons_of_neg (by simp [readable])]
        refine outcome.imp ?_ ?_
        · rintro ⟨g, found, stopped⟩
          refine ⟨g, found, ?_⟩
          rw [stopped]
          rfl
        · rintro ⟨none_found, given, unpacked⟩
          refine ⟨none_found, (f.name, u) :: given, ?_⟩
          rw [unpacked]
          rfl

/-- A packed message with texts of declared lengths is called no UTF-8 in a field exactly where
this field is the first to cut its text inside a character. -/
theorem decode_notUtf8_iff {c : Class} {ds : List Declaration}
    (declared : Declaration.fields ds = .ok c.fields)
    (texts : ∀ d ∈ ds, d.type = .text → d.form = .text ∧ ∃ n, d.length = .int n) {s : Schema}
    (schema : c.schema = .ok s)
    (sized : ∀ f ∈ s, f.type ≠ .text → f.directive.byteSize.isSome = true) {bs : Bytes}
    (packed : c.encode .default m = .ok bs) (name : String) (validator : Validator) :
    c.decode .default bs validator = .error (.notUtf8 name) ↔
      ∃ f, s.find? (FieldSchema.isUnreadable m) = some f ∧ f.name = name := by
  have accepted := Schema.isAccepted_of_ofFields schema
  have parsed := Schema.parse_default accepted
  have strings : ∀ f ∈ s, f.type = .text → f.IsFixedString := by
    intro f mem text
    obtain ⟨d, own, field, first, second⟩ := Schema.exists_declaration declared schema f mem
    obtain ⟨-, -, type, -⟩ := FieldSchema.of_ofField second
    have is_text : d.type = .text := by rw [← Declaration.type_of_field first, ← type, text]
    obtain ⟨form, n, length⟩ := texts d own is_text
    obtain ⟨padding, k, -, codec, count⟩ := FieldSchema.string_of_text form length first second
    exact ⟨padding, k, codec, count⟩
  have all_sized : ∀ f ∈ s, ∃ n, f.directive.byteSize = some n := by
    intro f mem
    by_cases text : f.type = .text
    · exact (strings f mem text).byteSize
    · exact Option.isSome_iff_exists.mp (sized f mem text)
  obtain ⟨rest, pieces⟩ := packPieces_of_encode schema parsed packed
  obtain ⟨batches, stop, read, outcome⟩ :=
    unpackedFields_of_packPieces accepted strings all_sized pieces 0
  rw [decode_eq_error_iff schema rfl, Template.unpackBatches_of_parse parsed, read]
  simp only [Except.map, Except.ok.injEq, exists_eq_left']
  rw [← Int.natCast_zero]
  rcases outcome with ⟨f, found, stopped⟩ | ⟨none_found, given, unpacked⟩
  · rw [stopped, found]
    simp only [Except.error.injEq, CodecError.notUtf8.injEq, Option.some.injEq, exists_eq_left']
  · rw [unpacked, none_found]
    simp only [reduceCtorEq, false_and, exists_false]

theorem decode_notUtf8_short_text :
    encode
        ⟨"Label", [{ name := "text", type := .text, directive := some [.scalar 'A', .scalar '1'] }],
          none⟩
        .default [("text", .ofChars ['é'])] = .ok [0xC3] ∧
      decode
        ⟨"Label", [{ name := "text", type := .text, directive := some [.scalar 'A', .scalar '1'] }],
          none⟩
        .default [0xC3] = .error (.notUtf8 "text") := by
  have declared : Declaration.fields
      [{ name := "text", type := .text, form := .text, length := .int 1 }] =
        .ok [{ name := "text", type := .text, directive := some [.scalar 'A', .scalar '1'] }] :=
    rfl
  refine ⟨rfl, (@decode_notUtf8_iff [("text", .ofChars ['é'])]
    ⟨"Label", _, none⟩ _ declared ?_ _ rfl ?_ [0xC3] rfl "text" .standard).mpr ⟨_, rfl, rfl⟩⟩
  · intro d mem _
    rw [List.mem_singleton.mp mem]
    exact ⟨rfl, 1, rfl⟩
  · intro f mem other
    rw [List.mem_singleton.mp mem] at other
    exact absurd rfl other

end Class

end Message

end ByteTemplate
