import LineGrammar.Pattern.Basic

/-! Reading the text of a pattern from left to right. The reader keeps the groups that are still
open on a stack, so a text is read piece by piece and the first fault met is the one reported.
A quantifier belongs to the term just read; assertions take none. -/

namespace LineGrammar.Pattern

inductive ClassAtom
  | point (code : Nat)
  | property (kind : Property) (negated : Bool)
  deriving DecidableEq, Repr

def ClassAtom.member : ClassAtom → SetMember
  | .point code => .range code code
  | .property kind negated => .property kind negated

def hexValue? (c : Char) : Option Nat :=
  if '0' ≤ c ∧ c ≤ '9' then some (c.toNat - 48)
  else if 'a' ≤ c ∧ c ≤ 'f' then some (c.toNat - 87)
  else if 'A' ≤ c ∧ c ≤ 'F' then some (c.toNat - 55)
  else none

def hexDigits? (digits : List Char) : Option Nat :=
  digits.foldl (fun value c => value.bind fun v => (hexValue? c).map (v * 16 + ·)) (some 0)

def hexNumber? : List Char → Option Nat
  | [] => none
  | c :: rest =>
    if c = '+' then (if rest = [] then none else hexDigits? rest) else hexDigits? (c :: rest)

def fourDigits? (cs : List Char) : Option Nat :=
  if (cs.take 4).length = 4 then hexNumber? (cs.take 4) else none

def isLeadSurrogate (code : Nat) : Bool := decide (0xD800 ≤ code) && decide (code ≤ 0xDBFF)

def isTrailSurrogate (code : Nat) : Bool := decide (0xDC00 ≤ code) && decide (code ≤ 0xDFFF)

/-- The second half of a surrogate pair written as two escapes. -/
def trailSurrogate? : List Char → Option Nat
  | backslash :: u :: rest =>
    if backslash = '\\' ∧ u = 'u' then (fourDigits? rest).filter isTrailSurrogate else none
  | _ => none

/-- The code point after `\u` and the number of characters that spell it. -/
def unicodeEscape? (cs : List Char) : Option (Nat × Nat) :=
  match cs with
  | [] => none
  | c :: rest =>
    if c = '{' then
      let digits := rest.takeWhile (· ≠ '}')
      if digits.length < rest.length then
        ((hexNumber? digits).filter (· ≤ 0x10FFFF)).map fun code => (code, digits.length + 2)
      else none
    else
      (fourDigits? cs).map fun lead =>
        if isLeadSurrogate lead then
          match trailSurrogate? (cs.drop 4) with
          | some trail => (0x10000 + (lead - 0xD800) * 0x400 + (trail - 0xDC00), 10)
          | none => (lead, 4)
        else (lead, 4)

def hexEscape? : List Char → Option Nat
  | first :: second :: _ =>
    (hexValue? first).bind fun high => (hexValue? second).map fun low => high * 16 + low
  | _ => none

def propertyName? (cs : List Char) : Option (Property × Nat) :=
  if "\x7bL\x7d".toList.isPrefixOf cs then some (.letter, 3)
  else if "\x7bN\x7d".toList.isPrefixOf cs then some (.number, 3)
  else if "\x7bNd\x7d".toList.isPrefixOf cs then some (.decimalDigit, 4)
  else none

def reservedChars : List Char :=
  ['^', '$', '\\', '.', '*', '+', '?', '(', ')', '[', ']', '{', '}', '|', '/']

def escape (inClass : Bool) (c : Char) (rest : List Char) : Except Fault (ClassAtom × Nat) :=
  if c = 's' then .ok (.property .space false, 0)
  else if c = 'S' then .ok (.property .space true, 0)
  else if c = 'p' ∨ c = 'P' then
    match propertyName? rest with
    | some (kind, count) => .ok (.property kind (c = 'P'), count)
    | none => .error .characterEscape
  else if c = 'n' then .ok (.point 0xA, 0)
  else if c = 't' then .ok (.point 0x9, 0)
  else if c = 'r' then .ok (.point 0xD, 0)
  else if c = 'f' then .ok (.point 0xC, 0)
  else if c = 'v' then .ok (.point 0xB, 0)
  else if c = '0' then
    if (rest.head?.any Char.isDigit) then .error .characterEscape else .ok (.point 0, 0)
  else if c = 'x' then
    match hexEscape? rest with
    | some code => .ok (.point code, 2)
    | none => .error .characterEscape
  else if c = 'u' then
    match unicodeEscape? rest with
    | some (code, count) => .ok (.point code, count)
    | none => .error .unicodeEscape
  else if reservedChars.contains c then .ok (.point c.toNat, 0)
  else if inClass ∧ c = '-' then .ok (.point c.toNat, 0)
  else if inClass ∧ c = 'b' then .ok (.point 0x8, 0)
  else .error .characterEscape

/-- Counts above this are read as this. -/
def largestCount : Nat := 18446744073709551615

def decimal? (digits : List Char) : Option Nat :=
  if digits = [] then none
  else some (min largestCount (digits.foldl (fun value c => value * 10 + (c.toNat - 48)) 0))

def countedBounds? (cs : List Char) : Option ((Nat × Option Nat) × Nat) :=
  let low := cs.takeWhile Char.isDigit
  (decimal? low).bind fun least =>
    match cs.drop low.length with
    | [] => none
    | c :: rest =>
      if c = '}' then some ((least, some least), low.length + 1)
      else if c = ',' then
        let high := rest.takeWhile Char.isDigit
        if (rest.drop high.length).head? = some '}' then
          some ((least, decimal? high), low.length + high.length + 2)
        else none
      else none

def isQuantifierStart (c : Char) : Bool := c = '*' || c = '+' || c = '?' || c = '{'

def quantifier? (c : Char) (rest : List Char) : Option (Repetition × Nat) :=
  let bounds : Option ((Nat × Option Nat) × Nat) :=
    if c = '*' then some ((0, none), 0)
    else if c = '+' then some ((1, none), 0)
    else if c = '?' then some ((0, some 1), 0)
    else countedBounds? rest
  bounds.map fun ((least, most), count) =>
    if (rest.drop count).head? = some '?' then (⟨least, most, false⟩, count + 1)
    else (⟨least, most, true⟩, count)

/-- `dotAll` lets a dot match line ends; `lines` lets the two anchors hold at every line end. -/
structure Flags where
  ignoreCase : Bool
  lines : Bool
  dotAll : Bool
  deriving DecidableEq, Repr

def Flags.standard : Flags := ⟨false, false, true⟩

def Flags.set (flags : Flags) (value : Bool) (letter : Char) : Flags :=
  if letter = 'i' then { flags with ignoreCase := value }
  else if letter = 'm' then { flags with lines := value }
  else { flags with dotAll := value }

/-- The switches between `(?` and a colon: letters to turn on, then, after a minus, letters to
turn off, none of them twice. -/
def modifiers? (flags : Flags) (cs : List Char) : Option (Flags × Nat) :=
  let switches := cs.takeWhile (· ≠ ':')
  let on := switches.takeWhile (· ≠ '-')
  let off := (switches.drop on.length).drop 1
  let letters := on ++ off
  if switches.length < cs.length ∧ letters ≠ [] ∧ letters.all (['i', 'm', 's'].contains ·) ∧
      letters.eraseDups.length = letters.length then
    some (off.foldl (·.set false) (on.foldl (·.set true) flags), switches.length + 1)
  else none

def isNameStart (c : Char) : Bool := c = '_' || c = '$' || Text.isLetter c.toNat

def isNameChar (c : Char) : Bool := isNameStart c || Text.isNumber c.toNat

def groupName? (cs : List Char) : Option Nat :=
  let name := cs.takeWhile (· ≠ '>')
  if name.length < cs.length ∧ name.head?.any isNameStart ∧ name.all isNameChar then
    some (name.length + 1)
  else none

inductive GroupKind
  | plain
  | capture (group : Nat)
  | look (side : Direction) (negated : Bool)
  deriving DecidableEq, Repr

def GroupKind.enclose : GroupKind → Pattern → Pattern
  | .plain, body => body
  | .capture group, body => .capture group body
  | .look side negated, body => .look side negated body

structure Level where
  branches : List Pattern
  terms : List Pattern
  deriving DecidableEq, Repr

def Level.blank : Level := ⟨[], []⟩

def Level.body (level : Level) : Pattern :=
  ofBranches (ofTerms level.terms.reverse :: level.branches).reverse

structure OpenGroup where
  kind : GroupKind
  outside : Level
  flags : Flags
  deriving DecidableEq, Repr

/-- What was read last, as far as a quantifier is concerned. -/
inductive LastTerm
  | nothing
  | assertion
  | atom
  deriving DecidableEq, Repr

/-- An atom that may turn out to start a range, alone or with the dash after it. -/
inductive RangeStart
  | nothing
  | atom (first : ClassAtom)
  | dash (first : ClassAtom)
  deriving DecidableEq, Repr

structure OpenClass where
  negated : Bool
  members : List SetMember
  pending : RangeStart
  deriving DecidableEq, Repr

structure Reading where
  groups : List OpenGroup
  level : Level
  flags : Flags
  captures : Nat
  last : LastTerm
  openClass : Option OpenClass
  deriving DecidableEq, Repr

namespace Reading

def start : Reading := ⟨[], .blank, .standard, 0, .nothing, none⟩

def push (reading : Reading) (term : Pattern) (last : LastTerm) : Reading :=
  { reading with
    level := { reading.level with terms := term :: reading.level.terms }
    last := last }

def pushAtom (reading : Reading) : ClassAtom → Reading
  | .point code => reading.push (.one (.single code reading.flags.ignoreCase)) .atom
  | .property kind negated =>
    reading.push (.one ⟨[.property kind negated], false, reading.flags.ignoreCase⟩) .atom

def nextBranch (reading : Reading) : Reading :=
  { reading with
    level := ⟨ofTerms reading.level.terms.reverse :: reading.level.branches, []⟩
    last := .nothing }

def enter (reading : Reading) (kind : GroupKind) (flags : Flags) : Reading :=
  { reading with
    groups := ⟨kind, reading.level, reading.flags⟩ :: reading.groups
    level := .blank
    flags := flags
    captures := match kind with
      | .capture _ => reading.captures + 1
      | _ => reading.captures
    last := .nothing }

def openGroup (reading : Reading) (rest : List Char) : Except Fault (Reading × Nat) :=
  let enter kind := reading.enter kind reading.flags
  if rest.head? ≠ some '?' then .ok (enter (.capture (reading.captures + 1)), 0)
  else if "?:".toList.isPrefixOf rest then .ok (enter .plain, 2)
  else if "?=".toList.isPrefixOf rest then .ok (enter (.look .forward false), 2)
  else if "?!".toList.isPrefixOf rest then .ok (enter (.look .forward true), 2)
  else if "?<=".toList.isPrefixOf rest then .ok (enter (.look .backward false), 3)
  else if "?<!".toList.isPrefixOf rest then .ok (enter (.look .backward true), 3)
  else if "?<".toList.isPrefixOf rest then
    match groupName? (rest.drop 2) with
    | some count => .ok (enter (.capture (reading.captures + 1)), count + 2)
    | none => .error .groupName
  else
    match modifiers? reading.flags (rest.drop 1) with
    | some (flags, count) => .ok (reading.enter .plain flags, count + 1)
    | none => .error .groupModifier

def closeGroup (reading : Reading) : Except Fault Reading :=
  match reading.groups with
  | [] => .error .unbalancedParenthesis
  | group :: outer =>
    let closed : Reading :=
      { reading with groups := outer, level := group.outside, flags := group.flags }
    .ok (closed.push (group.kind.enclose reading.level.body)
      (match group.kind with
      | .look _ _ => .assertion
      | _ => .atom))

def quantify (reading : Reading) (c : Char) (rest : List Char) : Except Fault (Reading × Nat) :=
  match quantifier? c rest, reading.level.terms with
  | some (repetition, count), term :: before =>
    if reading.last = .assertion then .error .quantifierNotAllowed
    else if repetition.isReversed then .error .quantifier
    else
      .ok ({ reading with
        level := { reading.level with terms := .repeated term repetition :: before }
        last := .nothing }, count)
  | _, _ => .error .quantifier

def closeClass (reading : Reading) (cls : OpenClass) : Reading :=
  let members := match cls.pending with
    | .nothing => cls.members
    | .atom first => first.member :: cls.members
    | .dash first => .range 0x2D 0x2D :: first.member :: cls.members
  { reading with openClass := none }.push
    (.one ⟨members.reverse, cls.negated, reading.flags.ignoreCase⟩) .atom

def OpenClass.add (cls : OpenClass) (atom : ClassAtom) (plainDash : Bool) :
    Except Fault OpenClass :=
  match cls.pending with
  | .nothing => .ok { cls with pending := .atom atom }
  | .atom first =>
    if plainDash then .ok { cls with pending := .dash first }
    else .ok { cls with members := first.member :: cls.members, pending := .atom atom }
  | .dash first =>
    match first, atom with
    | .point low, .point high =>
      if high < low then .error .reversedRange
      else .ok { cls with members := .range low high :: cls.members, pending := .nothing }
    | _, _ => .error .characterRange

def stepClass (reading : Reading) (cls : OpenClass) (c : Char) (rest : List Char) :
    Except Fault (Reading × Nat) :=
  if c = ']' then .ok (reading.closeClass cls, 0)
  else if c = '\\' then
    match rest with
    | [] => .error .characterEscape
    | e :: more => do
      let (atom, count) ← escape true e more
      let cls ← OpenClass.add cls atom false
      return ({ reading with openClass := some cls }, count + 1)
  else do
    let cls ← OpenClass.add cls (.point c.toNat) (c = '-')
    return ({ reading with openClass := some cls }, 0)

def step (reading : Reading) (c : Char) (rest : List Char) : Except Fault (Reading × Nat) :=
  match reading.openClass with
  | some cls => reading.stepClass cls c rest
  | none =>
    if c = ')' then reading.closeGroup.map (·, 0)
    else if c = '|' then .ok (reading.nextBranch, 0)
    else if isQuantifierStart c ∧ reading.last ≠ .nothing then reading.quantify c rest
    else if c = '^' then .ok (reading.push (.boundary .backward reading.flags.lines) .assertion, 0)
    else if c = '$' then .ok (reading.push (.boundary .forward reading.flags.lines) .assertion, 0)
    else if c = '.' then
      .ok (reading.push (.one (if reading.flags.dotAll then .all else .notLineEnds)) .atom, 0)
    else if c = '(' then reading.openGroup rest
    else if c = '[' then
      let negated := rest.head? = some '^'
      .ok ({ reading with openClass := some ⟨negated, [], .nothing⟩ }, if negated then 1 else 0)
    else if c = '\\' then
      match rest with
      | [] => .error .characterEscape
      | e :: more => do
        let (atom, count) ← escape false e more
        return (reading.pushAtom atom, count + 1)
    else if reservedChars.contains c ∧ c ≠ '/' then .error .atomCharacter
    else .ok (reading.pushAtom (.point c.toNat), 0)

def run (reading : Reading) : List Char → Except Fault Reading
  | [] => .ok reading
  | c :: rest =>
    match reading.step c rest with
    | .error fault => .error fault
    | .ok (next, count) => next.run (rest.drop count)
termination_by cs => cs.length
decreasing_by simp only [List.length_drop, List.length_cons]; omega

def finish (reading : Reading) : Except Fault Pattern :=
  if reading.openClass.isSome then .error .unbalancedBracket
  else if reading.groups = [] then .ok reading.level.body
  else .error .unbalancedParenthesis

end Reading

def read (text : String) : Except Fault Pattern :=
  (Reading.start.run text.toList).bind Reading.finish

end LineGrammar.Pattern
