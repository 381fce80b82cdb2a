import ByteTemplate.Proofs.Codec.Base64
import ByteTemplate.Proofs.Codec.Nibbles
import ByteTemplate.Proofs.Codec.Padded
import ByteTemplate.Proofs.Unread
import ByteTemplate.Pack

/-!
# Blocks

A string that was written as a block is read back in its canonical form.  A block is delimited
when it can be read back whatever follows it; the others reach to the end of the data.
-/

namespace ByteTemplate

namespace Block

/-- The value that is read where `source` was written. -/
def canonical (count : Option Nat) (source : Bytes) : Block → Value
  | .string padding => .ofBytes (Padded.kept padding count source)
  | .hex _ => .ofChars (Nibbles.kept count source)
  | .base64 => .ofBytes source

/-- Whether what is written shows where it ends. -/
def isDelimited (count : Option Nat) : Block → Bool
  | .string .terminated => true
  | .base64 => false
  | _ => count.isSome

theorem size_decode_le (count : Option Nat) (data : Bytes) (b : Block) :
    (b.decode count data).2 ≤ data.length := by
  cases b with
  | string padding => exact Padded.size_decode_le padding count data
  | hex order => exact Int.ofNat_le.mpr (Nibbles.size_decode_le order (count.map Int.ofNat) data)
  | base64 =>
      simp only [Block.decode, Base64.decode]
      omega

end Block

namespace Directive

variable {config : Config} {d : Directive} {b : Block} {source tail : Bytes}

/-- What a directive wrote for a string is read back in the canonical form.  A terminated string
that holds a NUL is the only delimited one that is not read to its end. -/
def ReadsBack (config : Config) (d : Directive) (b : Block) (source tail : Bytes) : Prop :=
  ∃ size, d.decode config (b.encode d.count source ++ tail) =
      .ok (some [b.canonical d.count source], size) ∧
    size ≤ (b.encode d.count source).length ∧
    (b.isDelimited d.count = true →
      (b = .string .terminated → d.count = none → 0 ∉ source) →
        size = (b.encode d.count source).length)

theorem readsBack_of_byteSize {n : Nat} (codec : d.codec = .block b)
    (size : d.byteSize = some n) (length : (b.encode d.count source).length = n)
    (read : b.decode d.count (b.encode d.count source) = (b.canonical d.count source, (n : Int))) :
    ReadsBack config d b source tail := by
  have look : d.look (b.encode d.count source ++ tail) = b.encode d.count source := by
    simp only [Directive.look, size]
    exact List.take_left' length
  have taken : min (n : Int).toNat (b.encode d.count source ++ tail).length = n := by
    rw [List.length_append, length]
    omega
  refine ⟨n, ?_, Nat.le_of_eq length.symm, fun _ _ => length.symm⟩
  simp only [decode, codec, look, read, taken]

theorem decode_of_no_byteSize {v : Value} {size : Int} {data : Bytes}
    (codec : d.codec = .block b) (unsized : d.byteSize = none)
    (read : b.decode d.count data = (v, size)) :
    d.decode config data = .ok (some [v], min size.toNat data.length) := by
  have look : d.look data = data := by simp only [Directive.look, unsized]
  simp only [decode, codec, look, read]

theorem readsBack_of_open (codec : d.codec = .block b) (unsized : d.byteSize = none)
    (undelimited : b.isDelimited d.count = false)
    (read : (b.decode d.count (b.encode d.count source)).1 = b.canonical d.count source) :
    ReadsBack config d b source [] := by
  have decoded := @decode_of_no_byteSize config d b _ _ _ codec unsized (Prod.ext read rfl)
  rw [← List.append_nil (b.encode d.count source)] at decoded
  refine ⟨_, decoded, ?_, fun delimited => ?_⟩
  · rw [List.append_nil]
    exact Nat.min_le_right _ _
  · rw [undelimited] at delimited
    cases delimited

private theorem readsBack_terminated (codec : d.codec = .block (.string .terminated))
    (all : d.count = none) : ReadsBack config d (.string .terminated) source tail := by
  have unsized : d.byteSize = none := by simp [byteSize, codec, all]
  have written : (Block.string .terminated).encode d.count source =
      Padded.encode .terminated none source := by rw [all]; rfl
  have read : (Block.string .terminated).decode d.count
      (Padded.encode .terminated none source ++ tail) =
        ((Block.string .terminated).canonical d.count source,
          ((Padded.kept .terminated none source).length + 1 : Int)) := by
    rw [all]
    simp only [Block.decode, Option.map, Padded.decode_encode_terminated, Block.canonical]
  have length : (Padded.encode .terminated none source).length = source.length + 1 := by
    simp [Padded.encode]
  have bound : (Padded.kept .terminated none source).length ≤ source.length :=
    (List.takeWhile_sublist _).length_le
  have taken : min ((Padded.kept .terminated none source).length + 1 : Int).toNat
      (Padded.encode .terminated none source ++ tail).length =
        (Padded.kept .terminated none source).length + 1 := by
    rw [List.length_append, length]
    omega
  unfold ReadsBack
  rw [written, length]
  refine ⟨_, decode_of_no_byteSize codec unsized read, ?_, ?_⟩
  · rw [taken]
    omega
  · intro _ noNull
    rw [taken, Padded.kept_terminated_of_no_null (noNull rfl all)]

private theorem readsBack_string {padding : Padding} (codec : d.codec = .block (.string padding))
    (last : (Block.string padding).isDelimited d.count = true ∨ tail = []) :
    ReadsBack config d (.string padding) source tail := by
  cases count : d.count with
  | some n =>
      have size : d.byteSize = some n := by simp [byteSize, codec, count]
      have read := Padded.decode_encode_append padding n source []
      rw [List.append_nil] at read
      refine readsBack_of_byteSize codec size ?_ ?_
      · rw [count]
        exact Padded.length_encode _ _ _
      · rw [count]
        simp only [Block.decode, Block.encode, Option.map, Int.ofNat_eq_natCast, read,
          Block.canonical]
  | none =>
      by_cases terminated : padding = .terminated
      · subst terminated
        exact readsBack_terminated codec count
      · have unsized : d.byteSize = none := by simp [byteSize, codec, count]
        have undelimited : (Block.string padding).isDelimited d.count = false := by
          rw [count]
          cases padding <;> first | rfl | exact absurd rfl terminated
        obtain rfl : tail = [] := last.resolve_left (by rw [undelimited]; decide)
        refine readsBack_of_open codec unsized undelimited ?_
        rw [count]
        simp only [Block.decode, Block.encode, Option.map, Padded.decode_encode_all terminated,
          Block.canonical]

private theorem readsBack_hex {order : NibbleOrder} (codec : d.codec = .block (.hex order))
    (last : (Block.hex order).isDelimited d.count = true ∨ tail = []) :
    ReadsBack config d (.hex order) source tail := by
  cases count : d.count with
  | some n =>
      have size : d.byteSize = some ((n + 1) / 2) := by simp [byteSize, codec, count]
      have read := Nibbles.decode_encode_append order n source []
      rw [List.append_nil] at read
      refine readsBack_of_byteSize codec size ?_ ?_
      · rw [count]
        exact Nibbles.length_encode _ _ _
      · rw [count]
        simp only [Block.decode, Block.encode, Option.map, Int.ofNat_eq_natCast, read,
          Block.canonical]
  | none =>
      have unsized : d.byteSize = none := by simp [byteSize, codec, count]
      have undelimited : (Block.hex order).isDelimited d.count = false := by rw [count]; rfl
      obtain rfl : tail = [] := last.resolve_left (by rw [undelimited]; decide)
      refine readsBack_of_open codec unsized undelimited ?_
      rw [count]
      simp only [Block.decode, Block.encode, Option.map, Nibbles.decode_encode_all,
        Block.canonical]

private theorem readsBack_base64 (codec : d.codec = .block .base64) :
    ReadsBack config d .base64 source [] := by
  have unsized : d.byteSize = none := by simp [byteSize, codec]
  refine readsBack_of_open codec unsized rfl ?_
  simp only [Block.decode, Block.encode, Block.canonical]
  rw [Base64.decode_encode]

theorem readsBack_block (codec : d.codec = .block b)
    (last : b.isDelimited d.count = true ∨ tail = []) : ReadsBack config d b source tail := by
  cases b with
  | string padding => exact readsBack_string codec last
  | hex order => exact readsBack_hex codec last
  | base64 =>
      obtain rfl : tail = [] := last.resolve_left (by simp [Block.isDelimited])
      exact readsBack_base64 codec

end Directive

end ByteTemplate
