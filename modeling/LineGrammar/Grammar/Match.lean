import LineGrammar.Grammar.Compiled

/-! Matches: the variables that an input gives values to, and the part of it that no sentence of
the grammar can have there. -/

namespace LineGrammar

/-- One occurrence of a variable; `value` is the text of its span after unescaping. -/
structure Occurrence where
  name : String
  value : String
  span : Span
  deriving DecidableEq, Repr

structure Match where
  grammar : Grammar
  input : String
  fields : List (String × Span)
  trailing : Option Span

namespace Match

def trailingName : String := "<trailing_input>"

/-- Spans by variable name; of equal ones the first is kept. -/
def named (grammar : Grammar) (captures : List (Nat × Span)) : List (String × Span) :=
  (captures.filterMap fun (group, span) =>
    (grammar.groupName? group).map fun name => (name, span)).eraseDups

def textOf (result : Match) (span : Span) : String :=
  (Text.between? result.input span.start span.stop).getD ""

def occurrence (result : Match) (field : String × Span) : Occurrence :=
  ⟨field.1, result.grammar.unescape field.1 (result.textOf field.2), field.2⟩

def occurrences (result : Match) : List Occurrence := result.fields.map result.occurrence

def endNodes (result : Match) : List Occurrence :=
  (result.fields.filter fun field => field.2.stop = result.input.utf8ByteSize).map
    result.occurrence

def trailingInput? (result : Match) : Option Occurrence :=
  result.trailing.map fun span => ⟨trailingName, result.textOf span, span⟩

/-- The first of the shortest spans. -/
def shortest? : List (String × Span) → Option (String × Span)
  | [] => none
  | field :: rest =>
    match shortest? rest with
    | none => some field
    | some other => some (if other.2.length < field.2.length then other else field)

def innermostAt? (result : Match) (position : Nat) : Option Occurrence :=
  (shortest? (result.fields.filter fun field => field.2.contains position)).map result.occurrence

end Match

namespace Occurrence

def firstNamed? (occurrences : List Occurrence) (name : String) : Option Occurrence :=
  occurrences.find? (·.name = name)

def allNamed (occurrences : List Occurrence) (name : String) : List Occurrence :=
  occurrences.filter (·.name = name)

end Occurrence

namespace Grammar

def matchWhole? (grammar : Grammar) (input : String) : Option Match :=
  (grammar.whole.find? input).map fun captures =>
    ⟨grammar, input, Match.named grammar (grammar.whole.identified captures), none⟩

def found (patterns : List CompiledPattern) (input : String) :
    List (CompiledPattern × List (Nat × Span)) :=
  patterns.filterMap fun pattern => (pattern.find? input).map fun captures => (pattern, captures)

def identified (found : List (CompiledPattern × List (Nat × Span))) : List (Nat × Span) :=
  found.flatMap fun (pattern, captures) => pattern.identified captures

/-- The latest start and the latest stop of the spans. -/
def latest? (spans : List Span) : Option Span :=
  spans.foldl (fun seen span =>
    some (match seen with
      | none => span
      | some seen => ⟨max seen.start span.start, max seen.stop span.stop⟩)) none

/-- The match of the input as the beginning of a sentence. When no pattern covers the input, the
longest beginning found decides where the trailing input starts. -/
def matchBeginning (grammar : Grammar) (input : String) : Match :=
  let covering := found grammar.beginnings input
  if covering.isEmpty then
    let partly := found grammar.withTrailing input
    let trailing := latest? (partly.filterMap fun (pattern, captures) => pattern.trailing? captures)
    ⟨grammar, input, Match.named grammar (identified partly),
      some (trailing.getD ⟨0, input.utf8ByteSize⟩)⟩
  else
    ⟨grammar, input, Match.named grammar (identified covering), none⟩

end Grammar

end LineGrammar
