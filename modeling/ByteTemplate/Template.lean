import ByteTemplate.Directive
import ByteTemplate.Error
import ByteTemplate.Value

/-!
# Templates

A template is a sequence of groups.  A group is one character, whichever it is, and the
longest run of count digits, stars and modifiers after it, so that a text falls into groups in
exactly one way.  Each group denotes one directive, unless it has a fault; a template with a
fault denotes the directives before the first one.
-/

namespace ByteTemplate

def maxSize : Nat := 2 ^ (63 : Nat) - 1

inductive Mark where
  | digit (d : Fin 10)
  | star
  | underscore
  | bang
  | less
  | greater
  deriving DecidableEq, Repr

namespace Mark

def ofChar? : Char → Option Mark
  | '0' => some (.digit 0)
  | '1' => some (.digit 1)
  | '2' => some (.digit 2)
  | '3' => some (.digit 3)
  | '4' => some (.digit 4)
  | '5' => some (.digit 5)
  | '6' => some (.digit 6)
  | '7' => some (.digit 7)
  | '8' => some (.digit 8)
  | '9' => some (.digit 9)
  | '*' => some .star
  | '_' => some .underscore
  | '!' => some .bang
  | '<' => some .less
  | '>' => some .greater
  | _ => none

def ofCodePoint? (c : CodePoint) : Option Mark :=
  c.char?.bind ofChar?

def char : Mark → Char
  | .digit d => Char.ofNat (0x30 + d.val)
  | .star => '*'
  | .underscore => '_'
  | .bang => '!'
  | .less => '<'
  | .greater => '>'

def modifiers? : Mark → Option Modifiers
  | .digit _ | .star => none
  | .underscore | .bang => some { native := true }
  | .less => some { little := true }
  | .greater => some { big := true }

def codePoint (m : Mark) : CodePoint :=
  .scalar m.char

theorem ofChar?_char (m : Mark) : ofChar? m.char = some m := by
  cases m with
  | digit d => revert d; decide
  | _ => rfl

@[simp] theorem ofCodePoint?_codePoint (m : Mark) : ofCodePoint? m.codePoint = some m := by
  simp [ofCodePoint?, codePoint, CodePoint.char?, ofChar?_char]

theorem codePoint_of_ofCodePoint? {c : CodePoint} {m : Mark} (h : ofCodePoint? c = some m) :
    m.codePoint = c := by
  cases c with
  | surrogate n => simp [ofCodePoint?, CodePoint.char?] at h
  | scalar c =>
      simp only [ofCodePoint?, CodePoint.char?, Option.bind_some] at h
      unfold ofChar? at h
      split at h <;> simp_all <;> subst h <;> rfl

end Mark

structure Group where
  lead : CodePoint
  marks : List Mark
  deriving DecidableEq, Repr

def Group.text (g : Group) : Text :=
  g.lead :: g.marks.map Mark.codePoint

/-- The marks a text begins with and the groups after them. -/
def splitGroups : Text → List Mark × List Group
  | [] => ([], [])
  | c :: rest =>
      let (marks, groups) := splitGroups rest
      match Mark.ofCodePoint? c with
      | some mark => (mark :: marks, groups)
      | none => ([], ⟨c, marks⟩ :: groups)

def Text.groups : Text → List Group
  | [] => []
  | c :: rest =>
      let (marks, groups) := splitGroups rest
      ⟨c, marks⟩ :: groups

theorem text_splitGroups (t : Text) :
    (splitGroups t).1.map Mark.codePoint ++ (splitGroups t).2.flatMap Group.text = t := by
  induction t with
  | nil => rfl
  | cons c rest ih =>
      cases h : Mark.ofCodePoint? c with
      | none => simp [splitGroups, h, Group.text, ih]
      | some m => simp [splitGroups, h, Mark.codePoint_of_ofCodePoint? h, ih]

theorem Text.flatMap_text_groups (t : Text) : t.groups.flatMap Group.text = t := by
  cases t with
  | nil => rfl
  | cons c rest => simp [Text.groups, Group.text, text_splitGroups]

theorem splitGroups_of_head {t : Text} (h : ∀ c ∈ t.head?, Mark.ofCodePoint? c = none) :
    splitGroups t = ([], t.groups) := by
  cases t with
  | nil => rfl
  | cons c rest => simp [splitGroups, Text.groups, h c (by simp)]

theorem splitGroups_append (s : Text) {t : Text}
    (h : ∀ c ∈ t.head?, Mark.ofCodePoint? c = none) :
    splitGroups (s ++ t) = ((splitGroups s).1, (splitGroups s).2 ++ t.groups) := by
  induction s with
  | nil => simp [splitGroups, splitGroups_of_head h]
  | cons c rest ih => cases hc : Mark.ofCodePoint? c <;> simp [splitGroups, hc, ih]

/-- A group does not reach beyond a character that is no mark. -/
theorem Text.groups_append (s : Text) {t : Text}
    (h : ∀ c ∈ t.head?, Mark.ofCodePoint? c = none) :
    (s ++ t).groups = s.groups ++ t.groups := by
  cases s with
  | nil => rfl
  | cons c rest => simp [Text.groups, splitGroups_append rest h]

/-! ## The directive of a group -/

structure Suffix where
  count : Option Nat := some 1
  modifiers : Modifiers := {}
  /-- Whether a further digit continues the count. -/
  inCount : Bool := false
  deriving DecidableEq, Repr

structure Fault where
  error : Error
  unread : Nat
  deriving DecidableEq

namespace Suffix

def modify (s : Suffix) (m : Modifiers) : Suffix :=
  { s with modifiers := s.modifiers.union m, inCount := false }

/-- One more digit.  Only digits after the first can make a count too large. -/
def pushDigit (s : Suffix) (d : Nat) : Except Error Suffix :=
  if s.inCount then
    let n := s.count.getD 0 * 10 + d
    if maxSize < n then .error .countTooLarge else .ok { s with count := some n }
  else .ok { s with count := some d, inCount := true }

def push (s : Suffix) (modifiable : Bool) (mark : Mark) : Except Error Suffix :=
  match mark, mark.modifiers? with
  | .digit d, _ => s.pushDigit d.val
  | _, none => .ok { s with count := none, inCount := false }
  | _, some m =>
      if modifiable then .ok (s.modify m) else .error (.modifierNotAllowed mark.char)

def read (modifiable : Bool) : Suffix → List Mark → Except Fault Suffix
  | s, [] => .ok s
  | s, m :: ms =>
      match s.push modifiable m with
      | .error e => .error ⟨e, ms.length⟩
      | .ok s => read modifiable s ms

theorem read_append (modifiable : Bool) (s : Suffix) (first second : List Mark) :
    read modifiable s (first ++ second) =
      match read modifiable s first with
      | .error fault => .error { fault with unread := fault.unread + second.length }
      | .ok s => read modifiable s second := by
  induction first generalizing s with
  | nil => rfl
  | cons m first ih =>
      simp only [List.cons_append, read]
      cases s.push modifiable m with
      | error e => simp
      | ok s => simp [ih]

end Suffix

namespace Group

def length (g : Group) : Nat :=
  g.marks.length + 1

@[simp] theorem length_text (g : Group) : g.text.length = g.length := by
  simp [text, length]

def unsupportedSize (size : Nat) : Error :=
  if Integer.isShowable size then .integerSizeUnsupported size else .tooManyDigits

def nativeEntry (config : Config) (signed : Bool) : Except Error Entry :=
  match Entry.ofNativeInt? signed config.intSize with
  | some entry => .ok entry
  | none => .error (unsupportedSize config.intSize)

def entry (config : Config) : CodePoint → Except Error Entry
  | .scalar 'I' => nativeEntry config false
  | .scalar 'i' => nativeEntry config true
  | .scalar c => .ok (Entry.ofChar c)
  | .surrogate _ => .ok { codec := .ignored }

def directive (config : Config) (g : Group) : Except Fault Directive :=
  match entry config g.lead with
  | .error e => .error ⟨e, g.marks.length⟩
  | .ok entry =>
    match Suffix.read (isModifiable g.lead) {} g.marks with
    | .error fault => .error fault
    | .ok suffix =>
      let modifiers := entry.modifiers.union suffix.modifiers
      .ok {
        char := g.lead
        codec := if modifiers.native then entry.codec.toNative config g.lead else entry.codec
        count := suffix.count
        modifiers := modifiers
        order := modifiers.order config.byteOrder }

end Group

/-! ## The directives of a template -/

structure Reading where
  directives : List Directive
  fault : Option Error
  deriving DecidableEq

def Reading.ofGroups (config : Config) : List Group → Reading
  | [] => ⟨[], none⟩
  | g :: gs =>
      match g.directive config with
      | .error fault => ⟨[], some fault.error⟩
      | .ok d =>
          let rest := ofGroups config gs
          ⟨d :: rest.directives, rest.fault⟩

namespace Reading

def toExcept (r : Reading) : Except Error (List Directive) :=
  match r.fault with
  | some e => .error e
  | none => .ok r.directives

theorem ofGroups_append (config : Config) (first second : List Group) :
    ofGroups config (first ++ second) =
      match ofGroups config first with
      | ⟨ds, some e⟩ => ⟨ds, some e⟩
      | ⟨ds, none⟩ =>
          ⟨ds ++ (ofGroups config second).directives, (ofGroups config second).fault⟩ := by
  induction first with
  | nil => rfl
  | cons g first ih =>
      simp only [List.cons_append, ofGroups]
      cases g.directive config with
      | error fault => rfl
      | ok d =>
          simp only [ih]
          rcases ofGroups config first with ⟨ds, fault⟩
          cases fault <;> rfl

end Reading

namespace Template

/-- A template is given as text or as bytes, which are read as one character each. -/
def ofValue : Value → Except Error Text
  | .text t => .ok t
  | .bytes .fixed bs | .bytes .growable bs => .ok (Text.ofBytes bs)
  | v => .error (.notConvertible v.typeName .string)

def read (config : Config) (t : Text) : Reading :=
  Reading.ofGroups config t.groups

/-- All directives of a template, those that do nothing included. -/
def directives (config : Config) (t : Text) : Except Error (List Directive) :=
  (read config t).toExcept

/-- The directives of a template that do something. -/
def parse (config : Config) (t : Text) : Except Error (List Directive) :=
  (directives config t).map (·.filter fun d => !d.isIgnored)

structure Step where
  outcome : Except Error Directive
  offset : Nat
  hasNext : Bool

/-- Reads on from `offset` until reading fails, at the latest at the end. -/
def stepsFrom (config : Config) (offset : Nat) : List Group → List Step
  | [] => [⟨.error .templateExhausted, offset, false⟩]
  | g :: gs =>
      match g.directive config with
      | .ok d => ⟨.ok d, offset + g.length, !gs.isEmpty⟩ :: stepsFrom config (offset + g.length) gs
      | .error fault =>
          [⟨.error fault.error, offset + g.length - fault.unread,
            fault.unread != 0 || !gs.isEmpty⟩]

def steps (config : Config) (t : Text) : List Step :=
  stepsFrom config 0 t.groups

end Template

end ByteTemplate
