import ByteTemplate.Proofs.Codec.Base64
import ByteTemplate.Proofs.Elements

/-!
# Safety of unpacking

Whatever the data and the template are, the data ends every loop of unpacking, and no directive
leaves the data or moves back in it.  Unpacking fails where the data or the template is at fault, or
where an integer is wider than a limit that is set; and, with an error that is not the library's own,
where the size of a native integer is not supported and too long to be shown.
-/

namespace ByteTemplate

/-- Each element takes a byte or more, so that the data ends before as many steps as it has bytes. -/
theorem readElements_steps {width : Nat} (pos : 0 < width) (decode : Bytes → Except Error Value)
    (steps : Nat) :
    ∀ {steps' : Nat} {data : Bytes}, data.length ≤ steps → data.length ≤ steps' →
      readElements width decode steps data = readElements width decode steps' data := by
  induction steps with
  | zero =>
      intro steps' data short _
      obtain rfl := List.length_eq_zero_iff.mp (Nat.le_zero.mp short)
      rw [readElements_nil pos, readElements_nil pos]
  | succ steps ih =>
      intro steps' data enough enough'
      cases steps' with
      | zero =>
          obtain rfl := List.length_eq_zero_iff.mp (Nat.le_zero.mp enough')
          rw [readElements_nil pos, readElements_nil pos]
      | succ steps' =>
          have left : (data.drop width).length = data.length - width := List.length_drop
          simp only [readElements]
          rw [ih (show (data.drop width).length ≤ steps by omega)
            (show (data.drop width).length ≤ steps' by omega)]

theorem Codepoint.size_pos_of_decode {data : Bytes} {n size : Nat}
    (h : Codepoint.decode data = .ok (some n, size)) : 0 < size := by
  obtain ⟨-, taken⟩ := Codepoint.bytes_of_decode h
  rcases Nat.eq_zero_or_pos size with rfl | pos
  · exact absurd taken (Codepoint.bytes_ne_nil n)
  · exact pos

private theorem readCodepoints_steps (steps : Nat) :
    ∀ {steps' : Nat} {data : Bytes}, data.length ≤ steps → data.length ≤ steps' →
      readCodepoints steps data = readCodepoints steps' data := by
  induction steps with
  | zero =>
      intro steps' data short _
      obtain rfl := List.length_eq_zero_iff.mp (Nat.le_zero.mp short)
      rw [readCodepoints_nil, readCodepoints_nil]
  | succ steps ih =>
      intro steps' data enough enough'
      cases steps' with
      | zero =>
          obtain rfl := List.length_eq_zero_iff.mp (Nat.le_zero.mp enough')
          rw [readCodepoints_nil, readCodepoints_nil]
      | succ steps' =>
          simp only [readCodepoints]
          cases first : Codepoint.decode (data.take 4) with
          | error e => rfl
          | ok result =>
              rcases result with ⟨_ | n, size⟩
              · rfl
              · have pos := Codepoint.size_pos_of_decode first
                have left : (data.drop size).length = data.length - size := List.length_drop
                simp only [bind, Except.bind]
                rw [ih (show (data.drop size).length ≤ steps by omega)
                  (show (data.drop size).length ≤ steps' by omega)]

namespace Base64

theorem length_takeSymbols (count : Nat) (data : Bytes) :
    (takeSymbols count data).1.length + (takeSymbols count data).2.length ≤ data.length := by
  fun_induction takeSymbols count data with
  | case1 => simp
  | case2 => simp
  | case3 count b data ignored ih =>
      rw [List.length_cons]
      omega
  | case4 count b data s counted symbols rest read ih =>
      rw [read] at ih
      simp only [List.length_cons] at ih ⊢
      omega

private theorem decodeGroups_steps (steps : Nat) :
    ∀ {steps' : Nat} {data : Bytes}, data.length ≤ steps → data.length ≤ steps' →
      decodeGroups steps data = decodeGroups steps' data := by
  induction steps with
  | zero =>
      intro steps' data short _
      rw [decodeGroups_of_short (by omega), decodeGroups_of_short (by omega)]
  | succ steps ih =>
      intro steps' data enough enough'
      cases steps' with
      | zero => rw [decodeGroups_of_short (by omega), decodeGroups_of_short (by omega)]
      | succ steps' =>
          have taken := length_takeSymbols 4 data
          simp only [decodeGroups]
          by_cases few : (takeSymbols 4 data).1.length < 4
          · simp only [few, if_true]
          · rw [ih (show (takeSymbols 4 data).2.length ≤ steps by omega)
              (show (takeSymbols 4 data).2.length ≤ steps' by omega)]

end Base64

def Element.readWithin (config : Config) (order : ByteOrder) (steps : Nat) (data : Bytes) :
    Element → Except Error (List Value × Nat)
  | .integer signed width =>
      (readElements width
        (fun bs => (Integer.decodeWithin config.maxBits signed order bs).map .int) steps data).map
          fun vs => (vs, width * vs.length)
  | .float precision =>
      (readElements precision.width (fun bs => .ok (.float (Real.decode precision order bs)))
        steps data).map fun vs => (vs, precision.width * vs.length)
  | .codepoint => readCodepoints steps data

theorem Element.decode_none (config : Config) (order : ByteOrder) (data : Bytes) (e : Element) :
    e.decode config order none data = e.readWithin config order data.length data := by
  cases e <;> simp [decode, readWithin, decodeFixed]

private theorem Element.readWithin_steps {config : Config} {order : ByteOrder} {e : Element}
    (width : (Codec.element e).HasWidth) {steps steps' : Nat} {data : Bytes}
    (enough : data.length ≤ steps) (enough' : data.length ≤ steps') :
    e.readWithin config order steps data = e.readWithin config order steps' data := by
  cases e with
  | integer signed size =>
      simp only [readWithin, readElements_steps width _ steps enough enough']
  | float precision =>
      have pos : 0 < precision.width := by cases precision <;> decide
      simp only [readWithin, readElements_steps pos _ steps enough enough']
  | codepoint => exact readCodepoints_steps steps enough enough'

/-- Whether the data ends what a directive repeats without a count of its own: the elements of one
that takes all, and groups of Base64.  In however many steps more they are read as they are. -/
def Directive.EndsWithData (config : Config) (d : Directive) : Prop :=
  ∀ (data : Bytes) (steps : Nat), data.length ≤ steps →
    match d.codec, d.count with
    | .element e, none =>
        e.readWithin config d.order steps data = e.decode config d.order none data
    | .block .base64, _ => Base64.decodeGroups steps data = Base64.decodeGroups data.length data
    | _, _ => True

private theorem Directive.endsWithData {config : Config} {d : Directive}
    (width : d.codec.HasWidth) :
    d.EndsWithData config := by
  intro data steps enough
  split
  · next e codec _ =>
      rw [codec] at width
      rw [Element.decode_none]
      exact Element.readWithin_steps width enough (Nat.le_refl _)
  · exact Base64.decodeGroups_steps steps enough (Nat.le_refl _)
  · trivial

/-- Whether an error says that the data or the template is at fault, or that an integer is wider
than the limit there is. -/
def Error.IsOfUnpacking (config : Config) (e : Error) : Prop :=
  e.kind = .argument ∨ e.kind = .runtime ∨ e.kind = .range ∧ config.maxBits.isSome = true

theorem Error.IsFault.isOfUnpacking {config : Config} {e : Error} (h : e.IsFault) :
    e.IsOfUnpacking config :=
  h.imp_right .inl

theorem Error.IsOfUnpacking.isLibrary {config : Config} {e : Error} (h : e.IsOfUnpacking config) :
    e.isLibrary = true := by
  unfold Error.isLibrary
  rcases h with kind | kind | ⟨kind, -⟩ <;> rw [kind]

/-- Whether an error says that an integer of all the bytes of `config.longSize` is too long to be
shown. -/
def Error.IsUnshown (config : Config) (data : Bytes) (e : Error) : Prop :=
  e = .tooManyDigits ∧ config.longSize ≤ data.length ∧
    10 ^ Integer.maxDigits < 256 ^ config.longSize

/-- An integer of more than eight bytes is as wide as the long native integer. -/
def Codec.IsNarrow (config : Config) : Codec → Prop
  | .element (.integer _ width) => width ≤ 8 ∨ width = config.longSize
  | _ => True

private theorem Entry.isNarrow_ofChar (config : Config) (c : Char) :
    (ofChar c).codec.IsNarrow config := by
  unfold ofChar
  split <;> simp [Codec.IsNarrow]

theorem Group.intSize_le_of_nativeEntry {config : Config} {signed : Bool} {entry : Entry}
    (h : nativeEntry config signed = .ok entry) : config.intSize ≤ 8 := by
  unfold nativeEntry Entry.ofNativeInt? at h
  split at h
  · next found => split at found <;> first | omega | cases found
  · cases h

private theorem Codec.isNarrow_toNative {config : Config} {c : CodePoint} {entry : Entry}
    (found : Group.entry config c = .ok entry) (h : entry.codec.IsNarrow config) :
    (entry.codec.toNative config c).IsNarrow config := by
  unfold Codec.toNative
  split
  · next signed width codec =>
      rw [codec] at h
      change nativeWidth config c width ≤ 8 ∨ nativeWidth config c width = config.longSize
      unfold nativeWidth
      split
      · exact .inl (by decide)
      · exact .inl (by decide)
      · exact .inl (Group.intSize_le_of_nativeEntry found)
      · exact .inl (Group.intSize_le_of_nativeEntry found)
      · exact .inr rfl
      · exact .inr rfl
      · exact h
  · exact h

theorem Template.isNarrow_of_mem {config : Config} {t : Text} {d : Directive}
    (h : d ∈ (read config t).directives) : d.codec.IsNarrow config := by
  obtain ⟨g, -, own⟩ := Reading.exists_group_of_mem h
  exact Group.codec_of_directive (Entry.isNarrow_ofChar config) Codec.isNarrow_toNative own

/-! ### One directive -/

theorem readElements_eq_error {width : Nat} {decode : Bytes → Except Error Value} {e : Error} :
    ∀ {limit : Nat} {data : Bytes}, readElements width decode limit data = .error e →
      ∃ bs, bs.length = width ∧ width ≤ data.length ∧ decode bs = .error e := by
  intro limit
  induction limit with
  | zero =>
      intro data h
      cases h
  | succ limit ih =>
      intro data h
      simp only [readElements] at h
      split at h
      · cases h
      · next enough =>
          have whole : width ≤ data.length := by
            rw [List.length_take] at enough
            omega
          cases first : decode (data.take width) with
          | error fault =>
              simp only [first, bind, Except.bind, Except.error.injEq] at h
              exact ⟨data.take width, List.length_take_of_le whole, whole, by rw [first, h]⟩
          | ok v =>
              cases rest : readElements width decode limit (data.drop width) with
              | error fault =>
                  simp only [first, rest, bind, Except.bind, Except.error.injEq] at h
                  rw [h] at rest
                  obtain ⟨bs, length, -, failed⟩ := ih rest
                  exact ⟨bs, length, whole, failed⟩
              | ok vs => simp [first, rest, bind, Except.bind] at h

private theorem kind_of_readCodepoints {e : Error} :
    ∀ {limit : Nat} {data : Bytes}, readCodepoints limit data = .error e →
      e.kind = .argument := by
  intro limit
  induction limit with
  | zero =>
      intro data h
      cases h
  | succ limit ih =>
      intro data h
      simp only [readCodepoints] at h
      cases first : Codepoint.decode (data.take 4) with
      | error fault =>
          simp only [first, bind, Except.bind, Except.error.injEq] at h
          rw [← h]
          exact Codepoint.kind_of_decode first
      | ok result =>
          rcases result with ⟨_ | n, size⟩
          · simp [first, bind, Except.bind] at h
          · cases rest : readCodepoints limit (data.drop size) with
            | error fault =>
                simp only [first, rest, bind, Except.bind, Except.error.injEq] at h
                rw [h] at rest
                exact ih rest
            | ok result => simp [first, rest, bind, Except.bind] at h

variable {config : Config} {data : Bytes} {e : Error}

private theorem Integer.isOfUnpacking_of_decodeWithin {signed : Bool} {order : ByteOrder}
    {bs : Bytes}
    (h : decodeWithin config.maxBits signed order bs = .error e) :
    e.IsOfUnpacking config ∨ e = .tooManyDigits ∧ 10 ^ maxDigits < 256 ^ bs.length := by
  obtain ⟨limited, wide | ⟨long, digits⟩⟩ := limit_eq_error config.two_le_maxBits h
  · rw [wide]
    exact .inl (.inr (.inr ⟨rfl, limited⟩))
  · exact .inr ⟨long, Nat.lt_of_le_of_lt digits (natAbs_decode_lt signed order bs)⟩

theorem Element.isOfUnpacking_of_decode {order : ByteOrder} {count : Option Nat} {element : Element}
    (narrow : (Codec.element element).IsNarrow config)
    (h : element.decode config order count data = .error e) :
    e.IsOfUnpacking config ∨ e.IsUnshown config data := by
  have elements : ∀ {width decode}, decodeFixed width decode count data = .error e →
      ∃ bs, bs.length = width ∧ width ≤ data.length ∧ decode bs = .error e := by
    intro width decode h
    unfold decodeFixed at h
    cases read : readElements width decode (count.getD data.length) data with
    | error fault =>
        rw [read] at h
        cases h
        exact readElements_eq_error read
    | ok vs =>
        rw [read] at h
        cases h
  cases element with
  | integer signed width =>
      obtain ⟨bs, length, whole, failed⟩ := elements h
      cases number : Integer.decodeWithin config.maxBits signed order bs with
      | ok n =>
          rw [number] at failed
          cases failed
      | error fault =>
          rw [number] at failed
          cases failed
          refine (Integer.isOfUnpacking_of_decodeWithin number).imp_right fun ⟨long, digits⟩ => ?_
          rw [length] at digits
          -- Eight bytes do not have so many digits.
          have native : width = config.longSize := narrow.resolve_left fun small =>
            Nat.lt_irrefl _ (Nat.lt_of_lt_of_le digits (Integer.pow_le_of_le_eight small))
          rw [native] at digits whole
          exact ⟨long, whole, digits⟩
  | float precision =>
      obtain ⟨bs, -, -, failed⟩ := elements h
      cases failed
  | codepoint => exact .inl (.inl (kind_of_readCodepoints h))

theorem Directive.isOfUnpacking_of_decode {d : Directive} (narrow : d.codec.IsNarrow config)
    (h : d.decode config data = .error e) :
    e.IsOfUnpacking config ∨ e.IsUnshown config data := by
  cases codec : d.codec with
  | ignored => simp [decode, codec] at h
  | null =>
      simp only [decode, codec] at h
      split at h
      · cases h
      · split at h
        · cases h
          exact .inl (.inl rfl)
        · cases h
  | block b => simp [decode, codec] at h
  | element element =>
      rw [codec] at narrow
      simp only [decode, codec] at h
      cases read : element.decode config d.order d.count data with
      | error fault =>
          rw [read] at h
          cases h
          exact Element.isOfUnpacking_of_decode narrow read
      | ok result =>
          rw [read] at h
          cases h

/-! ### Whole templates -/

theorem isOfUnpacking_of_readBatches {ds : List Directive} :
    ∀ {start : Nat} {data : Bytes}, (∀ d ∈ ds, d.codec.IsNarrow config) →
      readBatches config start data ds = .error e →
        e.IsOfUnpacking config ∨ e.IsUnshown config data := by
  induction ds with
  | nil =>
      intro start data _ h
      cases h
  | cons d ds ih =>
      intro start data narrow h
      simp only [readBatches] at h
      cases first : d.decode config data with
      | error fault =>
          simp only [first, Except.error.injEq] at h
          rw [h] at first
          exact Directive.isOfUnpacking_of_decode (narrow d (by simp)) first
      | ok result =>
          simp only [first] at h
          cases rest : readBatches config (start + result.2) (data.drop result.2) ds with
          | ok more => simp [rest] at h
          | error fault =>
              simp only [rest, Except.error.injEq] at h
              rw [h] at rest
              refine (ih (fun d mem => narrow d (by simp [mem])) rest).imp_right ?_
              rintro ⟨long, whole, digits⟩
              rw [List.length_drop] at whole
              exact ⟨long, by omega, digits⟩

def Unpacking.StopsUnshown (config : Config) (data : Bytes) (t : Text) : Prop :=
  Template.StopsUnshown config t ∧
    ∃ result, readBatches config 0 data (Template.read config t).directives = .ok result

theorem isOfUnpacking_of_unpackBatches {t : Text} (h : unpackBatches config data t = .error e) :
    e.IsOfUnpacking config ∨ e.IsUnshown config data ∨
      e = .tooManyDigits ∧ Unpacking.StopsUnshown config data t := by
  rw [unpackBatches_eq] at h
  cases read : readBatches config 0 data (Template.read config t).directives with
  | error fault =>
      simp only [read, Except.error.injEq] at h
      rw [h] at read
      exact (isOfUnpacking_of_readBatches (fun d => Template.isNarrow_of_mem) read).imp_right .inl
  | ok result =>
      cases whole : (Template.read config t).fault with
      | none => simp [read, whole] at h
      | some fault =>
          simp only [read, whole, Except.error.injEq] at h
          rw [h] at whole
          rcases Template.isFault_of_read whole with own | ⟨long, unshown⟩
          · exact .inl own.isOfUnpacking
          · exact .inr (.inr ⟨long, unshown, result, read⟩)

theorem Unpacking.StopsUnshown.unpackBatches_eq {t : Text} (h : StopsUnshown config data t) :
    unpackBatches config data t = .error .tooManyDigits := by
  obtain ⟨unshown, result, read⟩ := h
  rw [ByteTemplate.unpackBatches_eq, read, Template.fault_eq_tooManyDigits_iff.mpr unshown]

private theorem isOfUnpacking_of_firstBatch {ds : List Directive} :
    ∀ {n : Nat}, n ≤ data.length → (∀ d ∈ ds, d.codec.IsNarrow config) →
      firstBatch config ⟨data, n⟩ ds = .error e →
        e.IsOfUnpacking config ∨ e.IsUnshown config data := by
  induction ds with
  | nil =>
      intro n _ _ h
      cases h
  | cons d ds ih =>
      intro n inside narrow h
      simp only [firstBatch, Directive.unpack_eq inside] at h
      cases first : d.decode config (data.drop n) with
      | error fault =>
          simp only [first, Except.map, Except.error.injEq] at h
          rw [h] at first
          refine (Directive.isOfUnpacking_of_decode (narrow d (by simp)) first).imp_right ?_
          rintro ⟨long, whole, digits⟩
          rw [List.length_drop] at whole
          exact ⟨long, by omega, digits⟩
      | ok result =>
          rcases result with ⟨_ | vs, size⟩
          · have bound := Directive.size_le_of_decode first
            rw [List.length_drop] at bound
            simp only [first, Except.map, Option.map_none] at h
            exact ih (by omega) (fun d mem => narrow d (by simp [mem])) h
          · simp [first, Except.map] at h

/-- Whether looking for the first value goes on to a group that fails with too long an integer. -/
def Unpacking.StopsUnshownFirst (config : Config) (data : Bytes) (t : Text) : Prop :=
  Template.StopsUnshown config t ∧
    firstBatch config ⟨data, 0⟩ (Template.read config t).directives = .ok none

private theorem isOfUnpacking_of_unpackFirst {t : Text} (h : unpackFirst config data t = .error e) :
    e.IsOfUnpacking config ∨ e.IsUnshown config data ∨
      e = .tooManyDigits ∧ Unpacking.StopsUnshownFirst config data t := by
  simp only [unpackFirst] at h
  cases first : firstBatch config ⟨data, 0⟩ (Template.read config t).directives with
  | error fault =>
      simp only [first, Except.error.injEq] at h
      rw [h] at first
      exact (isOfUnpacking_of_firstBatch (Nat.zero_le _) (fun d => Template.isNarrow_of_mem)
        first).imp_right .inl
  | ok batch =>
      cases batch with
      | some batch => simp [first] at h
      | none =>
          cases whole : (Template.read config t).fault with
          | none => simp [first, whole] at h
          | some fault =>
              simp only [first, whole, Except.error.injEq] at h
              rw [h] at whole
              rcases Template.isFault_of_read whole with own | ⟨long, unshown⟩
              · exact .inl own.isOfUnpacking
              · exact .inr (.inr ⟨long, unshown, first⟩)

theorem Unpacking.StopsUnshownFirst.unpackFirst_eq {t : Text}
    (h : StopsUnshownFirst config data t) :
    unpackFirst config data t = .error .tooManyDigits := by
  obtain ⟨unshown, nothing⟩ := h
  simp only [unpackFirst, nothing, Template.fault_eq_tooManyDigits_iff.mpr unshown]

/-! ## Positions -/

theorem Directive.unpack_inside {d : Directive} {n : Nat} (inside : n ≤ data.length)
    {out : Option Batch} {c : Cursor} (h : d.unpack config ⟨data, n⟩ = .ok (out, c)) :
    ∃ stop, n ≤ stop ∧ stop ≤ data.length ∧ c = ⟨data, (stop : Nat)⟩ := by
  rw [Directive.unpack_eq inside] at h
  cases read : d.decode config (data.drop n) with
  | error fault =>
      rw [read] at h
      cases h
  | ok result =>
      have bound := Directive.size_le_of_decode read
      rw [List.length_drop] at bound
      rw [read] at h
      cases h
      exact ⟨n + result.2, by omega, by omega, rfl⟩

private theorem stops_of_readBatches {ds : List Directive} :
    ∀ {start stop : Nat} {data : Bytes} {batches : List Batch},
      readBatches config start data ds = .ok (batches, stop) →
        (batches.map Batch.stop).Pairwise (· ≤ ·) ∧
          ∀ b ∈ batches, (start : Int) ≤ b.stop ∧ b.stop ≤ stop := by
  induction ds with
  | nil =>
      intro start stop data batches read
      cases read
      exact ⟨.nil, nofun⟩
  | cons d ds ih =>
      intro start stop data batches read
      obtain ⟨out, size, rest, first, more, rfl⟩ := readBatches_cons_eq_ok_iff.mp read
      obtain ⟨ordered, within⟩ := ih more
      have bounds := readBatches_bounds more
      cases out with
      | none =>
          refine ⟨by simpa using ordered, fun b mem => ?_⟩
          have own := within b (by simpa using mem)
          omega
      | some vs =>
          constructor
          · simp only [Option.map_some, Option.toList_some, List.singleton_append, List.map_cons,
              List.pairwise_cons]
            refine ⟨fun later mem => ?_, ordered⟩
            obtain ⟨b, among, rfl⟩ := List.mem_map.mp mem
            exact (within b among).1
          · intro b mem
            rcases List.mem_cons.mp mem with rfl | mem
            · constructor <;> dsimp only <;> omega
            · have own := within b mem
              omega

/-- What holds of unpacking whatever the data and the template are.  An error that is not one of
unpacking escapes where the size of a native integer is too long to be shown, and nowhere else. -/
structure Unpacking.IsSafe (config : Config) (data : Bytes) (t : Text) : Prop where
  batches : ∀ e, unpackBatches config data t = .error e →
    e.IsOfUnpacking config ∨ e = .tooManyDigits ∧ StopsUnshown config data t
  values : ∀ e, unpack config data t = .error e →
    e.IsOfUnpacking config ∨ e = .tooManyDigits ∧ StopsUnshown config data t
  first : ∀ e, unpackFirst config data t = .error e →
    e.IsOfUnpacking config ∨ e = .tooManyDigits ∧ StopsUnshownFirst config data t
  escapes : StopsUnshown config data t →
    unpackBatches config data t = .error .tooManyDigits ∧
      unpack config data t = .error .tooManyDigits
  escapesFirst : StopsUnshownFirst config data t →
    unpackFirst config data t = .error .tooManyDigits
  ends : ∀ d ∈ (Template.read config t).directives, d.EndsWithData config
  moves : ∀ d ∈ (Template.read config t).directives, ∀ n ≤ data.length, ∀ out c,
    d.unpack config ⟨data, (n : Nat)⟩ = .ok (out, c) →
      ∃ stop, n ≤ stop ∧ stop ≤ data.length ∧ c = ⟨data, (stop : Nat)⟩
  stops : ∀ batches, unpackBatches config data t = .ok batches →
    (batches.map Batch.stop).Pairwise (· ≤ ·) ∧
      ∀ b ∈ batches, 0 ≤ b.stop ∧ b.stop ≤ data.length

theorem Unpacking.isSafe (shown : 256 ^ config.longSize ≤ 10 ^ Integer.maxDigits) (data : Bytes)
    (t : Text) : IsSafe config data t := by
  have short : ∀ {e : Error} {P : Prop}, e.IsOfUnpacking config ∨ e.IsUnshown config data ∨ P →
      e.IsOfUnpacking config ∨ P := by
    rintro e P (own | ⟨-, -, digits⟩ | other)
    · exact .inl own
    · exact absurd (Nat.lt_of_lt_of_le digits shown) (Nat.lt_irrefl _)
    · exact .inr other
  refine ⟨?_, ?_, ?_, ?_, ?_, ?_, ?_, ?_⟩
  · exact fun e h => short (isOfUnpacking_of_unpackBatches h)
  · intro e h
    unfold unpack at h
    cases read : unpackBatches config data t with
    | ok batches =>
        rw [read] at h
        cases h
    | error fault =>
        rw [read] at h
        cases h
        exact short (isOfUnpacking_of_unpackBatches read)
  · exact fun e h => short (isOfUnpacking_of_unpackFirst h)
  · intro unshown
    have batches := unshown.unpackBatches_eq
    exact ⟨batches, by rw [unpack, batches]; rfl⟩
  · exact StopsUnshownFirst.unpackFirst_eq
  · exact fun d mem => Directive.endsWithData (Reading.hasWidth_of_mem mem)
  · exact fun d _ n inside out c h => Directive.unpack_inside inside h
  · intro batches h
    obtain ⟨ds, stop, -, read⟩ := Template.readBatches_of_unpackBatches h
    obtain ⟨ordered, within⟩ := stops_of_readBatches read
    have bounds := readBatches_bounds read
    refine ⟨ordered, fun b mem => ?_⟩
    have own := within b mem
    omega

end ByteTemplate
