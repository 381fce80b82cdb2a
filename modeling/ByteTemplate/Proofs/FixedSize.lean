import Mathlib.Algebra.Ring.Nat
import ByteTemplate.Proofs.Analysis
import ByteTemplate.Proofs.Size

/-!
# Templates of fixed size

The size of a template, the data that packing writes and the data that unpacking reads are three
accounts of one layout.  They agree wherever the size is known.  Analysis prints the size too, as
long as no number in its table has too many digits.
-/

namespace ByteTemplate

variable {config : Config} {ds : List Directive} {n : Nat}

theorem byteSizes_of_totalSize :
    ∀ {n : Nat}, totalSize ds = .ok n →
      ∃ ns : List Nat, ds.map Directive.byteSize = ns.map some ∧ ns.sum = n := by
  induction ds with
  | nil =>
      intro n total
      cases total
      exact ⟨[], rfl, rfl⟩
  | cons d ds ih =>
      intro n total
      obtain ⟨k, m, sized, others, rfl⟩ := totalSize_cons total
      obtain ⟨ns, sizes, sum⟩ := ih others
      exact ⟨k :: ns, by simp [sized, sizes], by rw [List.sum_cons, sum]⟩

private theorem Directive.length_pack_le {d : Directive} {values rest : List Value} {o : Output}
    (sized : d.byteSize = some n) (packed : d.pack values = .ok (o, rest)) :
    o.piece.data.length ≤ n := by
  by_cases enough : d.demand values.length ≤ values.length
  · exact Nat.le_of_eq (length_pack sized enough packed)
  · cases codec : d.codec with
    | ignored => simp [demand, codec] at enough
    | null => simp [demand, codec] at enough
    | block b =>
        obtain rfl : values = [] := by
          cases values with
          | nil => rfl
          | cons v vs => simp [demand, codec] at enough
        simp only [pack, codec, Except.ok.injEq, Prod.mk.injEq] at packed
        rw [← packed.1]
        exact Nat.zero_le _
    | element e =>
        obtain ⟨bs, written, piece, -⟩ := pack_element codec packed
        obtain ⟨fixed, k, count, rfl⟩ := element_of_byteSize codec sized
        have taken : (values.take (d.demand values.length)).length ≤ k := by
          simp only [demand, codec, count, Option.getD_some]
          exact List.length_take_le _ _
        rw [piece]
        exact Nat.le_trans (Nat.le_of_eq (Element.length_encodeAll fixed written))
          (Nat.mul_le_mul_left _ taken)

theorem length_packPieces_le : ∀ {n : Nat} {values rest : List Value} {bs : Bytes},
    totalSize ds = .ok n → packPieces values ds = .ok (bs, rest) → bs.length ≤ n := by
  induction ds with
  | nil =>
      intro n values rest bs _ packed
      cases packed
      exact Nat.zero_le _
  | cons d ds ih =>
      intro n values rest bs total packed
      obtain ⟨k, m, sized, others, rfl⟩ := totalSize_cons total
      obtain ⟨o, left, tail, one, more, rfl⟩ := packPieces_cons packed
      have first := Directive.length_pack_le sized one
      have remaining := ih others more
      rw [List.length_append]
      omega

/-! ## Read -/

theorem readElements_ok {width : Nat} {decode : Bytes → Except Error Value}
    (reads : ∀ bs, ∃ v, decode bs = .ok v) (limit : Nat) :
    ∀ data, ∃ vs, readElements width decode limit data = .ok vs := by
  induction limit with
  | zero => exact fun _ => ⟨[], rfl⟩
  | succ limit ih =>
      intro data
      obtain ⟨v, first⟩ := reads (data.take width)
      obtain ⟨vs, rest⟩ := ih (data.drop width)
      by_cases short : (data.take width).length < width
      · exact ⟨[], by simp only [readElements, if_pos short]⟩
      · refine ⟨v :: vs, ?_⟩
        simp only [readElements, if_neg short, first, rest]
        rfl

theorem Element.decode_ok (unlimited : config.maxBits = none) {e : Element}
    (fixed : e ≠ .codepoint) (order : ByteOrder) (count : Option Nat) (data : Bytes) :
    ∃ result, e.decode config order count data = .ok result := by
  have elements : ∀ {width decode}, (∀ bs, ∃ v, decode bs = .ok v) →
      ∃ result, decodeFixed width decode count data = .ok result := by
    intro width decode reads
    obtain ⟨vs, read⟩ := @readElements_ok width _ reads (count.getD data.length) data
    exact ⟨_, by rw [decodeFixed, read]; rfl⟩
  cases e with
  | integer signed width =>
      refine elements fun bs => ⟨.int (Integer.decode signed order bs), ?_⟩
      simp only [Integer.decodeWithin, unlimited, Integer.limit, Except.map]
  | float precision => exact elements fun bs => ⟨_, rfl⟩
  | codepoint => exact absurd rfl fixed

theorem Directive.decode_ok (unlimited : config.maxBits = none) {d : Directive} {data : Bytes}
    (sized : d.byteSize = some n) (enough : n ≤ data.length) :
    ∃ result, d.decode config data = .ok result := by
  cases codec : d.codec with
  | ignored => exact ⟨(none, 0), by simp only [decode, codec]⟩
  | null =>
      cases count : d.count with
      | none => simp [byteSize, codec, count] at sized
      | some k =>
          simp only [byteSize, codec, count, Option.some.injEq] at sized
          have inside : ¬data.length < k := by omega
          exact ⟨(none, k), by simp only [decode, codec, count, if_neg inside]⟩
  | block b => exact ⟨_, decode_of_block codec sized data⟩
  | element e =>
      obtain ⟨fixed, -⟩ := element_of_byteSize codec sized
      obtain ⟨result, read⟩ := Element.decode_ok unlimited fixed d.order d.count data
      exact ⟨(some result.1, result.2), by simp only [decode, codec, read, Except.map]⟩

private theorem readBatches_of_enough (unlimited : config.maxBits = none) :
    ∀ {n : Nat} (start : Nat) {data : Bytes}, totalSize ds = .ok n → n ≤ data.length →
      ∃ batches, readBatches config start data ds = .ok (batches, start + n) ∧
        (batches.flatMap Batch.values).length = totalDemand ds ∧
        ∀ v ∈ batches.flatMap Batch.values, v.isNone = false := by
  induction ds with
  | nil =>
      intro n start data total _
      cases total
      exact ⟨[], rfl, rfl, nofun⟩
  | cons d ds ih =>
      intro n start data total enough
      obtain ⟨k, m, sized, others, rfl⟩ := totalSize_cons total
      obtain ⟨⟨out, size⟩, first⟩ := Directive.decode_ok unlimited sized (show k ≤ data.length by omega)
      obtain ⟨rfl, length, present⟩ := Directive.decode_of_enough sized (by omega) first
      obtain ⟨batches, more, lengths, presents⟩ := ih (start + size) others
        (show m ≤ (data.drop size).length by rw [List.length_drop]; omega)
      rw [Nat.add_assoc] at more
      have values : ((out.map fun vs => (⟨vs, (start + size : Nat)⟩ : Batch)).toList ++
          batches).flatMap Batch.values = out.getD [] ++ batches.flatMap Batch.values := by
        cases out <;> rfl
      refine ⟨_, readBatches_cons_eq_ok_iff.mpr ⟨out, size, batches, first, more, rfl⟩, ?_, ?_⟩
      · rw [values, List.length_append, length, lengths, totalDemand]
      · intro v mem
        rw [values] at mem
        rcases List.mem_append.mp mem with mem | mem
        · exact present v mem
        · exact presents v mem

/-- Directives of known size look at no bytes beyond the sum of their sizes, whether there are as
many or fewer. -/
theorem readBatches_take :
    ∀ {n k : Nat} (start : Nat) (data : Bytes), totalSize ds = .ok n → n ≤ k →
      readBatches config start (data.take k) ds = readBatches config start data ds := by
  induction ds with
  | nil => exact fun _ _ _ _ => rfl
  | cons d ds ih =>
      intro n k start data total within
      obtain ⟨j, m, sized, others, rfl⟩ := totalSize_cons total
      simp only [readBatches, Directive.decode_take sized (show j ≤ k by omega)]
      cases first : d.decode config data with
      | error e => rfl
      | ok result =>
          -- A directive that stops short of its size leaves the others more than they look at.
          have bound := Directive.size_decode_le sized first
          simp only [List.drop_take]
          rw [ih _ (data.drop result.2) others (show m ≤ k - result.2 by omega)]

/-! ## Templates -/

def Config.withMaxBits (config : Config) (bits : Option Nat) (h : ∀ b ∈ bits, 2 ≤ b) : Config :=
  { config with maxBits := bits, two_le_maxBits := h }

namespace Template

theorem read_withMaxBits (config : Config) (bits : Option Nat) (h : ∀ b ∈ bits, 2 ≤ b)
    (t : Text) : read (config.withMaxBits bits h) t = read config t := by
  have same : ∀ gs, Reading.ofGroups (config.withMaxBits bits h) gs =
      Reading.ofGroups config gs := by
    intro gs
    induction gs with
    | nil => rfl
    | cons g gs ih =>
        have one : g.directive (config.withMaxBits bits h) = g.directive config := rfl
        simp only [Reading.ofGroups, one, ih]
  exact same _

private theorem parse_withMaxBits (config : Config) (bits : Option Nat) (h : ∀ b ∈ bits, 2 ≤ b)
    (t : Text) : parse (config.withMaxBits bits h) t = parse config t := by
  simp only [parse, directives, read_withMaxBits]

private theorem run_of_parse {t : Text} (parsed : parse config t = .ok ds) {data : Bytes}
    {batches : List Batch} {stop : Nat}
    (read : readBatches config 0 data ds = .ok (batches, stop)) :
    Unpacking.run config data t = ⟨batches, .ok ⟨data, stop⟩⟩ := by
  obtain ⟨whole, rfl⟩ := parse_eq_ok_iff.mp parsed
  have ran := Unpacking.run_eq config data t
  rw [readBatches_filter] at read
  rw [read, whole] at ran
  exact ran

theorem sizes_of_parse {t : Text} (parsed : parse config t = .ok ds) :
    sizes config t = .ok (ds.map fun d => (d, d.byteSize)) := by
  rw [sizes, parsed]
  rfl

theorem analyze_eq {template : Value} {t : Text} (given : ofValue template = .ok t)
    (parsed : parse config t = .ok ds) :
    analyze config template = (Printout.ofLines
      (Analysis.table template.plain (ds.map fun d => (d, d.byteSize)))).toExcept := by
  rw [analyze, printAnalysis, given]
  simp only [Except.bind, sizes_of_parse parsed]

theorem shownIff_analyze {template : Value} {t : Text} (given : ofValue template = .ok t)
    (parsed : parse config t = .ok ds) (total : totalSize ds = .ok n) :
    ShownIff (analyze config template)
      (Integer.isShowable n ∧ ∀ d ∈ ds, d.HasShownWidth) := by
  obtain ⟨ns, known, rfl⟩ := byteSizes_of_totalSize total
  rw [analyze_eq given parsed]
  refine (Analysis.shownIff_table template.plain (by rw [List.map_map]; exact known)).congr ?_
  simp

/-- What the size `n` of a template says about analysis, packing and unpacking, for the
directives that the template denotes. -/
structure HasSize (config : Config) (t : Text) (ds : List Directive) (n : Nat) : Prop where
  listed : ∃ rows, ∃ ns : List Nat, sizes config t = .ok rows ∧
    rows.map Prod.snd = ns.map some ∧ ns.sum = n
  shown : ∀ template, ofValue template = .ok t →
    Integer.isShowable n → (∀ d ∈ ds, d.HasShownWidth) → ∃ front, analyze config template =
      .ok (front ++ Text.ofString s!"Packed size: {n} bytes" ++ Text.ofChars ['\n'])
  unshown : ∀ template, ofValue template = .ok t →
    ¬(Integer.isShowable n ∧ ∀ d ∈ ds, d.HasShownWidth) →
      analyze config template = .error .tooManyDigits
  packed : ∀ values bs, packText config values t = .ok bs →
    bs.length ≤ n ∧ (totalDemand ds ≤ values.length → bs.length = n)
  unpacked : config.maxBits = none → ∀ data : Bytes, n ≤ data.length →
    (Unpacking.run config data t).last = .ok ⟨data, n⟩ ∧
      ∃ values, unpack config data t = .ok values ∧ values.length = totalDemand ds ∧
        ∀ v ∈ values, v.isNone = false
  window : ∀ bits h data, unpackBatches (config.withMaxBits bits h) data t =
    unpackBatches (config.withMaxBits bits h) (data.take n) t

/-- The size of a template is that of its analysis, of what it packs and of what it reads. -/
theorem hasSize_of_size {t : Text} (sized : size config t = .ok n) :
    ∃ ds, parse config t = .ok ds ∧ HasSize config t ds n := by
  obtain ⟨ds, parsed, total⟩ := size_eq_ok_iff.mp sized
  obtain ⟨ns, known, sum⟩ := byteSizes_of_totalSize total
  have seconds : (ds.map fun d => (d, d.byteSize)).map Prod.snd = ns.map some := by
    rw [List.map_map]
    exact known
  refine ⟨ds, parsed, ⟨_, ns, sizes_of_parse parsed, seconds, sum⟩, ?_, ?_, ?_, ?_, ?_⟩
  · intro template given few widths
    obtain ⟨-, text, printed⟩ | ⟨unshown, -⟩ := shownIff_analyze given parsed total
    · rw [printed]
      rw [analyze_eq given parsed] at printed
      obtain ⟨front, last, size, rfl⟩ := Analysis.exists_printed_eq printed
      rw [Analysis.total_of_sizes seconds, sum, shownDigits, if_pos few] at size
      obtain rfl := Except.ok.inj size
      exact ⟨front, rfl⟩
    · exact absurd ⟨few, widths⟩ unshown
  · intro template given unshown
    exact ((shownIff_analyze given parsed total).resolve_left fun shown => unshown shown.1).2
  · intro values bs packed
    obtain ⟨rest, pieces⟩ := packPieces_of_packText parsed packed
    exact ⟨length_packPieces_le total pieces, fun enough => length_packPieces total enough pieces⟩
  · intro unlimited data enough
    obtain ⟨batches, read, length, present⟩ := readBatches_of_enough unlimited 0 total enough
    rw [Nat.zero_add] at read
    refine ⟨by rw [run_of_parse parsed read], _, ?_, length, present⟩
    rw [unpack, unpackBatches_of_parse parsed, read]
    rfl
  · intro bits h data
    have parsed' := (parse_withMaxBits config bits h t).trans parsed
    rw [unpackBatches_of_parse parsed', unpackBatches_of_parse parsed',
      readBatches_take 0 data total (Nat.le_refl n)]

theorem hasSize_of_size_fields :
    ∃ values, unpack .default (List.replicate 12 0x41)
        (Text.ofChars ['n', 'C', 'A', '4', 'x', '2', 'H', '3']) = .ok values ∧
      values.length = 4 ∧
      (Unpacking.run .default (List.replicate 12 0x41)
        (Text.ofChars ['n', 'C', 'A', '4', 'x', '2', 'H', '3'])).last =
          .ok ⟨List.replicate 12 0x41, 11⟩ := by
  obtain ⟨ds, parsed, known⟩ := @hasSize_of_size .default 11
    (Text.ofChars ['n', 'C', 'A', '4', 'x', '2', 'H', '3']) rfl
  cases parsed
  obtain ⟨last, values, read, length, -⟩ :=
    known.unpacked rfl (List.replicate 12 0x41) (by decide)
  exact ⟨values, read, length, last⟩

def wideLong : Config :=
  { Config.default with
    longSize := 10 ^ (Integer.maxDigits - 1)
    longSize_pos := Nat.pow_pos (Nat.succ_pos 9) }

/-- Ten of them have a size with one digit more, and analysis fails to print it. -/
theorem analyze_wideLong :
    wideLong.maxBits = none ∧
      size wideLong (Text.ofChars ['l', '!', '1', '0']) = .ok (10 ^ Integer.maxDigits) ∧
      analyze wideLong (.text (Text.ofChars ['l', '!', '1', '0'])) = .error .tooManyDigits := by
  -- Stated of any width, so that this one stays a power that nothing evaluates.
  have sized : ∀ config : Config, ∃ ds, parse config (Text.ofChars ['l', '!', '1', '0']) = .ok ds ∧
      totalSize ds = .ok (config.longSize * 10) :=
    fun config => ⟨[_], rfl, rfl⟩
  have long : wideLong.longSize * 10 = 10 ^ Integer.maxDigits := by
    simp only [wideLong]
    exact Nat.pow_pred_mul (by decide)
  obtain ⟨ds, parsed, total⟩ := sized wideLong
  rw [long] at total
  refine ⟨rfl, size_eq_ok_iff.mpr ⟨ds, parsed, total⟩, ?_⟩
  have given : ofValue (.text (Text.ofChars ['l', '!', '1', '0'])) = .ok _ := rfl
  obtain ⟨⟨few, -⟩, -⟩ | ⟨-, failed⟩ := shownIff_analyze given parsed total
  · exact absurd (Integer.isShowable_natCast_iff.mp few) (Nat.lt_irrefl _)
  · exact failed

end Template

end ByteTemplate
