import LineGrammar.Grammar.Lowering
import LineGrammar.Expression.Parsing
import LineGrammar.Pattern.Matching
import LineGrammar.Pattern.Reading
import LineGrammar.Registry

/-! Compiled grammars. Each lowered body becomes a pattern that has to cover the whole input; each
beginning becomes a second one that leaves as little of the input as it can to a group of its
own, the trailing input. -/

namespace LineGrammar

structure Span where
  start : Nat
  stop : Nat
  deriving DecidableEq, Repr

namespace Span

def length (span : Span) : Nat := span.stop - span.start

def contains (span : Span) (position : Nat) : Bool :=
  decide (span.start ≤ position) && decide (position < span.stop)

end Span

/-- A pattern and the identifiers of its first capture groups. -/
structure CompiledPattern where
  source : String
  pattern : Pattern
  groups : List Nat

namespace CompiledPattern

def ofSource (source : String) (groups : List Nat) : Except GrammarError CompiledPattern :=
  match Pattern.read source with
  | .ok pattern => .ok ⟨source, pattern, groups⟩
  | .error fault => .error (.pattern fault)

def anchored (body : Fragment) : Except GrammarError CompiledPattern :=
  ofSource ("^(?:" ++ body.source ++ ")$") body.groups

def withTrailing (body : Fragment) : Except GrammarError CompiledPattern :=
  ofSource ("^(?:" ++ body.source ++ ")(.*?)$") body.groups

def spanOf (input : List Char) (capture : Capture) : Span :=
  let offset position := Text.byteLength (input.take position)
  ⟨offset capture.start, offset capture.stop⟩

def find? (compiled : CompiledPattern) (input : String) : Option (List (Nat × Span)) :=
  (compiled.pattern.find? input.toList.toArray).map fun captures =>
    captures.map fun capture => (capture.group, spanOf input.toList capture)

def identified (compiled : CompiledPattern) (captures : List (Nat × Span)) : List (Nat × Span) :=
  compiled.groups.zipIdx.filterMap fun (group, index) =>
    (captures.lookup (index + 1)).map fun span => (group, span)

def trailing? (compiled : CompiledPattern) (captures : List (Nat × Span)) : Option Span :=
  captures.lookup (compiled.groups.length + 1)

end CompiledPattern

/-- A grammar ready for matching. `escapes` and `unescapes` turn the value of a variable into the
text that is typed for it and back. -/
structure Grammar where
  root : Tree
  whole : CompiledPattern
  beginnings : List CompiledPattern
  withTrailing : List CompiledPattern
  groupNames : Array String
  escapes : Registry (String → String)
  unescapes : Registry (String → String)

namespace Grammar

/-- The first pattern that cannot be read decides the error. -/
def ofTree (root : Tree) (escapes unescapes : Registry (String → String)) :
    Except GrammarError Grammar := do
  let lowered ← root.lower
  let whole ← CompiledPattern.anchored lowered.whole
  let beginnings ← lowered.beginnings.mapM CompiledPattern.anchored
  let withTrailing ← lowered.beginnings.mapM CompiledPattern.withTrailing
  return ⟨root, whole, beginnings, withTrailing, lowered.groupNames, escapes, unescapes⟩

def ofExpression (expression : String) (escapes unescapes : Registry (String → String)) :
    Except GrammarError Grammar := do
  ofTree (← Tree.ofExpression expression) escapes unescapes

def escape (grammar : Grammar) (name value : String) : String :=
  match grammar.escapes.find? name with
  | some f => f value
  | none => value

def unescape (grammar : Grammar) (name value : String) : String :=
  match grammar.unescapes.find? name with
  | some f => f value
  | none => value

def groupName? (grammar : Grammar) (group : Nat) : Option String := grammar.groupNames[group]?

def variableNames (grammar : Grammar) : List String := grammar.groupNames.toList.eraseDups

end Grammar

end LineGrammar
