import ByteTemplate.Proofs.Blocks

/-!
# Looking ahead

Unpacking looks at a part of the unread data only: at as many bytes as a block has, where its size
is known, and at four bytes for a code point.  Nothing beyond this part has a say in what is found
there, so that a template is unpacked as if each directive had all of the unread data in sight.
-/

namespace ByteTemplate

theorem Directive.decode_look {d : Directive} {b : Block} (codec : d.codec = .block b)
    (data : Bytes) : b.decode d.count (d.look data) = b.decode d.count data := by
  cases b with
  | base64 => simp only [look, byteSize, codec]
  | string padding =>
      cases count : d.count with
      | none => simp only [look, byteSize, codec, count]
      | some n =>
          simp only [look, byteSize, codec, count, Block.decode, Option.map_some,
            Int.ofNat_eq_natCast, Padded.decode_take padding (Nat.le_refl n)]
  | hex order =>
      cases count : d.count with
      | none => simp only [look, byteSize, codec, count]
      | some n =>
          simp only [look, byteSize, codec, count, Block.decode, Option.map_some,
            Int.ofNat_eq_natCast, Nibbles.decode_take order (Nat.le_refl _)]

def readCodepointsInSight : Nat → Bytes → Except Error (List Value × Nat)
  | 0, _ => .ok ([], 0)
  | limit + 1, data => do
      match ← Codepoint.decode data with
      | (none, _) => .ok ([], 0)
      | (some n, size) =>
          let (vs, rest) ← readCodepointsInSight limit (data.drop size)
          .ok (.int n :: vs, size + rest)

private theorem readCodepointsInSight_eq (limit : Nat) :
    ∀ data, readCodepointsInSight limit data = readCodepoints limit data := by
  induction limit with
  | zero => exact fun _ => rfl
  | succ limit ih =>
      intro data
      simp only [readCodepointsInSight, readCodepoints, Codepoint.decode_take (Nat.le_refl 4)]
      cases Codepoint.decode data with
      | error e => rfl
      | ok result =>
          rcases result with ⟨_ | c, size⟩
          · rfl
          · simp only [bind, Except.bind, ih]

namespace Directive

/-- What a directive does that looks at all of the unread data and moves by what it has found. -/
def unpackInSight (config : Config) (c : Cursor) (d : Directive) :
    Except Error (Option Batch × Cursor) :=
  match d.codec with
  | .block b => do
      let (v, size) := b.decode d.count c.unread
      let c ← c.advance size
      .ok (some ⟨[v], c.position⟩, c)
  | .element .codepoint => do
      let data := c.unread
      let (vs, size) ← readCodepointsInSight (d.count.getD data.length) data
      let c ← c.advance size
      .ok (some ⟨vs, c.position⟩, c)
  | _ => d.unpack config c

private theorem unpackInSight_eq {config : Config} {data : Bytes} {n : Nat}
    (inside : n ≤ data.length)
    (d : Directive) : d.unpackInSight config ⟨data, n⟩ = d.unpack config ⟨data, n⟩ := by
  cases codec : d.codec with
  | ignored => simp only [unpackInSight, codec]
  | null => simp only [unpackInSight, codec]
  | block b =>
      have bound := Block.size_decode_le d.count (data.drop n) b
      rw [List.length_drop] at bound
      simp only [unpackInSight, unpack, codec, peek_window inside, decode_look codec,
        Cursor.unread_eq inside, Cursor.remaining_eq inside, Int.min_eq_left bound]
  | element e =>
      cases e with
      | codepoint =>
          simp only [unpackInSight, unpack, codec, Element.read, readCodepointsInSight_eq]
          cases readCodepoints (d.count.getD (Cursor.unread ⟨data, n⟩).length)
            (Cursor.unread ⟨data, n⟩) with
          | error fault => rfl
          | ok result =>
              simp only [bind, Except.bind]
              cases Cursor.advance ⟨data, n⟩ result.2 <;> rfl
      | _ => simp only [unpackInSight, codec]

end Directive

private theorem walk_unpackInSight {config : Config} {data : Bytes} (ds : List Directive) :
    ∀ {n : Nat}, n ≤ data.length →
      walk (Directive.unpackInSight config) ⟨data, n⟩ ds =
        walk (Directive.unpack config) ⟨data, n⟩ ds := by
  induction ds with
  | nil => exact fun _ => rfl
  | cons d ds ih =>
      intro n inside
      simp only [walk, Directive.unpackInSight_eq inside, Directive.unpack_eq inside]
      cases read : d.decode config (data.drop n) with
      | error e => rfl
      | ok result =>
          have bound := Directive.size_le_of_decode read
          rw [List.length_drop] at bound
          simp only [Except.map, ih (show n + result.2 ≤ data.length by omega)]

/-- What holds of looking at a part of the unread data, wherever in the data unpacking stands. -/
structure LooksFarEnough (config : Config) (data : Bytes) : Prop where
  /-- A block is what it is with all of the unread data in sight. -/
  block : ∀ (d : Directive) (b : Block), d.codec = .block b → ∀ n ≤ data.length,
    b.decode d.count (Cursor.peek ⟨data, (n : Nat)⟩ d.window) = b.decode d.count (data.drop n)
  /-- No block takes more than there is, so that the move after it is not cut short. -/
  size : ∀ (d : Directive) (b : Block), d.codec = .block b → ∀ n ≤ data.length,
    0 ≤ (b.decode d.count (data.drop n)).2 ∧
      (b.decode d.count (data.drop n)).2 ≤ (data.drop n).length ∧
      min (b.decode d.count (data.drop n)).2 (Cursor.remaining ⟨data, (n : Nat)⟩) =
        (b.decode d.count (data.drop n)).2
  /-- Four bytes decide on a code point, and on the error where there is none. -/
  codepoint : Codepoint.decode (data.take 4) = Codepoint.decode data
  run : ∀ ds, walk (Directive.unpack config) ⟨data, 0⟩ ds =
    walk (Directive.unpackInSight config) ⟨data, 0⟩ ds

theorem looksFarEnough (config : Config) (data : Bytes) : LooksFarEnough config data := by
  refine ⟨?_, ?_, ?_, ?_⟩
  · intro d b codec n inside
    rw [Directive.peek_window inside, Directive.decode_look codec]
  · intro d b _ n inside
    have nonneg := Block.size_decode_nonneg d.count (data.drop n) b
    have bound := Block.size_decode_le d.count (data.drop n) b
    refine ⟨nonneg, bound, ?_⟩
    rw [Cursor.remaining_eq inside, ← List.length_drop]
    exact Int.min_eq_left bound
  · exact Codepoint.decode_take (Nat.le_refl 4) data
  · exact fun ds => (walk_unpackInSight ds (Nat.zero_le _)).symm

end ByteTemplate
