import LineGrammar.Text.Blank
import LineGrammar.Text.CaseFolding
import LineGrammar.Text.Letter
import LineGrammar.Text.Number

/-! Native patterns: the backtracking notation that grammars are lowered to. A pattern matches
code points one at a time, numbers its capture groups by their opening parentheses, and tries
the branches of a choice from left to right. -/

namespace LineGrammar

inductive Property
  | letter
  | number
  | decimalDigit
  | space
  deriving DecidableEq, Repr

def Property.holds : Property → Nat → Bool
  | .letter => Text.isLetter
  | .number => Text.isNumber
  | .decimalDigit => Text.isDecimalDigit
  | .space => Text.isPatternSpace

inductive SetMember
  | range (low high : Nat)
  | property (kind : Property) (negated : Bool)
  deriving DecidableEq, Repr

def SetMember.contains : SetMember → Nat → Bool
  | .range low high, code => decide (low ≤ code) && decide (code ≤ high)
  | .property kind negated, code => kind.holds code != negated

/-- A set of code points. With `ignoreCase` a code point belongs when one that folds to the same
form does; `negated` is applied last. -/
structure CodeSet where
  members : List SetMember
  negated : Bool
  ignoreCase : Bool
  deriving DecidableEq, Repr

namespace CodeSet

def hasMember (set : CodeSet) (code : Nat) : Bool := set.members.any (·.contains code)

def contains (set : CodeSet) (code : Nat) : Bool :=
  (if set.ignoreCase then (Text.caseVariants code).any set.hasMember else set.hasMember code)
    != set.negated

def single (code : Nat) (ignoreCase : Bool) : CodeSet := ⟨[.range code code], false, ignoreCase⟩

def all : CodeSet := ⟨[], true, false⟩

def lineEnds : CodeSet := ⟨[.range 0xA 0xA, .range 0xD 0xD, .range 0x2028 0x2029], false, false⟩

def notLineEnds : CodeSet := { lineEnds with negated := true }

@[simp] theorem contains_all (code : Nat) : all.contains code = true := by
  simp [contains, all, hasMember]

@[simp] theorem contains_single (code other : Nat) :
    (single code false).contains other = decide (other = code) := by
  rw [Bool.eq_iff_iff]
  simp [contains, single, hasMember, SetMember.contains]
  omega

end CodeSet

structure Repetition where
  min : Nat
  max : Option Nat
  greedy : Bool
  deriving DecidableEq, Repr

def Repetition.isReversed (repetition : Repetition) : Bool :=
  repetition.max.any fun most => decide (most < repetition.min)

inductive Direction
  | forward
  | backward
  deriving DecidableEq, Repr

/-- `boundary .backward` holds where the text starts and `boundary .forward` where it ends; with
`lines` they hold at the ends of every line. -/
inductive Pattern
  | empty
  | one (set : CodeSet)
  | boundary (side : Direction) (lines : Bool)
  | sequence (first second : Pattern)
  | choice (first second : Pattern)
  | capture (group : Nat) (body : Pattern)
  | repeated (body : Pattern) (repetition : Repetition)
  | look (side : Direction) (negated : Bool) (body : Pattern)
  deriving DecidableEq, Repr

namespace Pattern

def ofTerms (terms : List Pattern) : Pattern :=
  match terms with
  | [] => .empty
  | [term] => term
  | term :: rest => .sequence term (ofTerms rest)

def ofBranches (branches : List Pattern) : Pattern :=
  match branches with
  | [] => .empty
  | [branch] => branch
  | branch :: rest => .choice branch (ofBranches rest)

inductive Fault
  | unicodeEscape
  | characterEscape
  | atomCharacter
  | unbalancedParenthesis
  | unbalancedBracket
  | reversedRange
  | quantifierNotAllowed
  | quantifier
  | characterRange
  | groupModifier
  | groupName
  deriving DecidableEq, Repr

def Fault.message : Fault → String
  | .unicodeEscape => "Invalid unicode escape"
  | .characterEscape => "Invalid character escape"
  | .atomCharacter => "Invalid atom character"
  | .unbalancedParenthesis => "Unbalanced parenthesis"
  | .unbalancedBracket => "Unbalanced bracket"
  | .reversedRange =>
    "Range values reversed, start char code is greater than end char code."
  | .quantifierNotAllowed => "Quantifier not allowed here"
  | .quantifier => "Invalid quantifier"
  | .characterRange => "Invalid character range"
  | .groupModifier => "Invalid group modifier"
  | .groupName => "Invalid group name"

end Pattern

end LineGrammar
