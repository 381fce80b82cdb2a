import ByteTemplate.Proofs.Template

/-!
# Numbers on short data

A directive for integers or floats reads the whole elements that are there, as many as it counts
or all of them, and answers a marker for each that is missing.  A part of an element is left to the
directive after it.
-/

namespace ByteTemplate

def Element.ofBytes? (order : ByteOrder) : Element → Option (Bytes → Value)
  | .integer signed _ => some fun bs => .int (Integer.decode signed order bs)
  | .float precision => some fun bs => .float (Real.decode precision order bs)
  | .codepoint => none

def Directive.found (d : Directive) (data : Bytes) : Nat :=
  match d.count with
  | none => data.length / d.codec.width
  | some n => min n (data.length / d.codec.width)

private theorem readElements_eq {width : Nat} (pos : 0 < width) (value : Bytes → Value)
    (limit : Nat) :
    ∀ data : Bytes, readElements width (fun bs => .ok (value bs)) limit data =
      .ok ((List.range (min limit (data.length / width))).map fun j =>
        value ((data.drop (j * width)).take width)) := by
  induction limit with
  | zero => simp [readElements]
  | succ limit ih =>
      intro data
      simp only [readElements, List.length_take]
      by_cases enough : width ≤ data.length
      · have step : data.length / width = (data.drop width).length / width + 1 := by
          rw [List.length_drop, ← Nat.div_eq_sub_div pos enough]
        have later : ∀ j, (data.drop width).drop (j * width) = data.drop ((j + 1) * width) := by
          intro j
          rw [List.drop_drop, Nat.succ_mul, Nat.add_comm]
        rw [if_neg (by omega), ih, step, Nat.succ_min_succ, List.range_succ_eq_map]
        simp only [bind, Except.bind, later, List.map_cons, List.map_map, Nat.zero_mul,
          List.drop_zero]
        rfl
      · rw [if_pos (by omega), Nat.div_eq_of_lt (Nat.lt_of_not_le enough)]
        rfl

section

variable {config : Config} {d : Directive} {e : Element} {value : Bytes → Value}

theorem Element.decode_eq (unlimited : config.maxBits = none) (width : (Codec.element e).HasWidth)
    {order : ByteOrder} (number : e.ofBytes? order = some value) (count : Option Nat)
    (data : Bytes) :
    0 < (Codec.element e).width ∧ e.decode config order count data =
      decodeFixed (Codec.element e).width (fun bs => .ok (value bs)) count data := by
  cases e with
  | integer signed width =>
      cases number
      refine ⟨by assumption, ?_⟩
      simp only [decode, unlimited]
      rfl
  | float precision =>
      cases number
      exact ⟨by cases precision <;> decide, rfl⟩
  | codepoint => cases number

private theorem Directive.decode_number (codec : d.codec = .element e)
    (number : e.ofBytes? d.order = some value) (unlimited : config.maxBits = none)
    (width : d.codec.HasWidth) (data : Bytes) :
    d.decode config data =
      .ok (some ((List.range (d.found data)).map (fun j =>
          value ((data.drop (j * d.codec.width)).take d.codec.width)) ++
        List.replicate (d.count.getD 0 - d.found data) .none), d.codec.width * d.found data) := by
  rw [codec] at width
  obtain ⟨pos, fixed⟩ := Element.decode_eq unlimited width number d.count data
  have found : min (d.count.getD data.length) (data.length / (Codec.element e).width) =
      d.found data := by
    simp only [Directive.found, codec]
    cases d.count with
    | none => exact Nat.min_eq_right (Nat.div_le_self _ _)
    | some n => rfl
  simp only [Directive.decode, codec, fixed, decodeFixed, readElements_eq pos, found, Except.map,
    List.length_map, List.length_range]

/-- The whole elements at the cursor, up to the count, then markers for those that are missing;
the cursor moves over the elements alone. -/
theorem Directive.unpack_number {t : Text} (parsed : d ∈ (Template.read config t).directives)
    (codec : d.codec = .element e) (number : e.ofBytes? d.order = some value)
    (unlimited : config.maxBits = none) {c : Cursor} (start : 0 ≤ c.position)
    (inside : c.position ≤ c.data.length) :
    ∃ c', c'.data = c.data ∧ c'.position = c.position + (d.found c.unread * d.codec.width : Nat) ∧
      c'.unread = c.unread.drop (d.found c.unread * d.codec.width) ∧
      d.unpack config c =
        .ok (some ⟨(List.range (d.found c.unread)).map (fun j =>
            value ((c.unread.drop (j * d.codec.width)).take d.codec.width)) ++
          List.replicate (d.count.getD 0 - d.found c.unread) .none, c'.position⟩, c') := by
  obtain ⟨data, position⟩ := c
  obtain ⟨n, rfl⟩ := Int.eq_ofNat_of_zero_le start
  have inside : n ≤ data.length := Int.ofNat_le.mp inside
  have read := decode_number codec number unlimited (Reading.hasWidth_of_mem parsed) (data.drop n)
  have bound := size_le_of_decode read
  rw [List.length_drop] at bound
  rw [Nat.mul_comm] at read bound
  refine ⟨⟨data, (n + d.found (data.drop n) * d.codec.width : Nat)⟩, rfl, ?_, ?_, ?_⟩
  · rw [Cursor.unread_eq inside, Int.natCast_add]
  · rw [Cursor.unread_eq inside, Cursor.unread_eq (by omega), List.drop_drop]
  · rw [Cursor.unread_eq inside, Directive.unpack_eq inside, read]
    rfl

theorem Directive.unpack_number_half :
    ∃ c', Directive.unpack .default ⟨[9, 1, 2, 3, 4, 5], 1⟩
        ⟨.scalar 'n', .element (.integer false 2), some 3, { big := true }, .big⟩ =
          .ok (some ⟨[.int 258, .int 772, .none], 5⟩, c') ∧ c'.unread = [5] := by
  obtain ⟨c', -, position, unread, unpacked⟩ :=
    @Directive.unpack_number .default ⟨.scalar 'n', .element (.integer false 2), some 3,
      { big := true }, .big⟩ _ _ (Text.ofChars ['n', '3']) (List.mem_singleton_self _) rfl rfl rfl
      ⟨[9, 1, 2, 3, 4, 5], 1⟩ (by decide) (by decide)
  rw [position] at unpacked
  exact ⟨c', unpacked, unread⟩

end

end ByteTemplate
