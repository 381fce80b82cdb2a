import ByteTemplate.Proofs.Lossless
import ByteTemplate.Proofs.Text.Utf8

/-!
# Texts as code points

A text can be packed as a string, through its UTF-8 form, or as the numbers of its characters,
one after another.  Both write the same bytes, and from these the numbers are read back.
-/

namespace ByteTemplate

namespace Text

def numbers (t : Text) : List Value :=
  t.map fun c => .int c.value

end Text

open Text

theorem encodeAll_numbers (order : ByteOrder) (cs : List Char) :
    Element.codepoint.encodeAll order (ofChars cs).numbers = .ok (utf8OfChars cs) := by
  induction cs with
  | nil => rfl
  | cons c cs ih =>
      have first : Element.codepoint.encode order (.int c.toNat) =
          .ok (String.utf8EncodeChar c) := by
        rw [utf8EncodeChar_eq_bytes]
        exact Element.encode_codepoint_of_lt (toNat_lt_bound c)
      rw [utf8OfChars_cons]
      exact Element.encodeAll_cons_of_ok first ih

private theorem packPieces_numbers {d : Directive} (codec : d.codec = .element .codepoint)
    (all : d.count = none) (cs : List Char) :
    packPieces (ofChars cs).numbers [d] = .ok (utf8OfChars cs, []) := by
  have written := encodeAll_numbers d.order cs
  have packed : d.pack (ofChars cs).numbers = .ok (⟨d, .bytes (utf8OfChars cs), 0⟩, []) := by
    simp only [Directive.pack, codec, all, Option.getD_none, List.take_length, written,
      List.drop_length, Nat.sub_self]
    rfl
  simp only [packPieces, packed, Piece.data, List.append_nil]

private theorem packPieces_string {d : Directive} (codec : d.codec = .block (.string .nulls))
    (all : d.count = none) (cs : List Char) :
    packPieces [.text (ofChars cs)] [d] = .ok (utf8OfChars cs, []) := by
  have packed : d.pack [.text (ofChars cs)] = .ok (⟨d, .bytes (utf8OfChars cs), 0⟩, []) := by
    simp only [Directive.pack, codec, all, Value.toBytes_ofChars]
    rfl
  simp only [packPieces, packed, Piece.data, List.append_nil]

private theorem mapM_canonical_numbers (t : Text) :
    t.numbers.mapM Element.codepoint.canonical = .ok t.numbers := by
  induction t with
  | nil => rfl
  | cons c t ih => exact mapM_cons_ok rfl ih

private theorem decode_utf8OfChars (config : Config) (order : ByteOrder) (cs : List Char) :
    Element.codepoint.decode config order none (utf8OfChars cs) =
      .ok ((ofChars cs).numbers, (utf8OfChars cs).length) := by
  obtain ⟨kept, forms, read⟩ := @Element.decode_encodeAll .default rfl order none .codepoint
    trivial _ _ (encodeAll_numbers order cs) nofun [] (fun _ => rfl)
  rw [mapM_canonical_numbers] at forms
  cases forms
  rw [List.append_nil] at read
  -- No code point is subject to the limit on integers.
  exact read

private theorem readBatches_numbers (config : Config) {d : Directive}
    (codec : d.codec = .element .codepoint) (all : d.count = none) (cs : List Char) :
    readBatches config 0 (utf8OfChars cs) [d] =
      .ok ([⟨(ofChars cs).numbers, (utf8OfChars cs).length⟩], (utf8OfChars cs).length) := by
  have read : d.decode config (utf8OfChars cs) =
      .ok (some (ofChars cs).numbers, (utf8OfChars cs).length) := by
    simp only [Directive.decode, codec, all, decode_utf8OfChars]
    rfl
  simp [readBatches, read]

/-- Packed as numbers and as a string a text is the same, and its numbers are unpacked from it. -/
theorem packText_numbers (config : Config) {t : Text}
    (scalar : t.any CodePoint.isSurrogate = false) :
    ∃ bs, (Value.text t).toBytes = .ok bs ∧
      packText config [.text t] (ofChars ['a', '*']) =
        (if bs.length ≤ maxSize then .ok bs else .error .lengthOutOfRange) ∧
      packText config t.numbers (ofChars ['U', '*']) =
        packText config [.text t] (ofChars ['a', '*']) ∧
      unpack config bs (ofChars ['U', '*']) = .ok t.numbers := by
  obtain ⟨cs, rfl⟩ := exists_eq_ofChars scalar
  obtain ⟨d, numbers, codec, all⟩ : ∃ d : Directive,
      Template.parse config (ofChars ['U', '*']) = .ok [d] ∧
        d.codec = .element .codepoint ∧ d.count = none := ⟨_, rfl, rfl, rfl⟩
  obtain ⟨d', string, codec', all'⟩ : ∃ d : Directive,
      Template.parse config (ofChars ['a', '*']) = .ok [d] ∧
        d.codec = .block (.string .nulls) ∧ d.count = none := ⟨_, rfl, rfl, rfl⟩
  have asNumbers := Template.packText_of_packPieces numbers (packPieces_numbers codec all cs)
  have asString := Template.packText_of_packPieces string (packPieces_string codec' all' cs)
  refine ⟨utf8OfChars cs, Value.toBytes_ofChars cs, asString, asNumbers.trans asString.symm, ?_⟩
  rw [unpack, Template.unpackBatches_of_parse numbers, readBatches_numbers config codec all]
  simp [Except.map]

theorem packText_numbers_planes :
    packText .default [.int 0x61, .int 0x1F600, .int 0xD7FF] (ofChars ['U', '*']) =
        .ok [0x61, 0xF0, 0x9F, 0x98, 0x80, 0xED, 0x9F, 0xBF] ∧
      unpack .default [0x61, 0xF0, 0x9F, 0x98, 0x80, 0xED, 0x9F, 0xBF] (ofChars ['U', '*']) =
        .ok [.int 0x61, .int 0x1F600, .int 0xD7FF] := by
  obtain ⟨bs, form, string, same, back⟩ := @packText_numbers .default
    (ofChars ['a', Char.ofNat 0x1F600, Char.ofNat 0xD7FF]) rfl
  cases form
  exact ⟨same.trans string, back⟩

end ByteTemplate
