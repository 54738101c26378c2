import LineGrammar.Command.Arguments
import LineGrammar.Completion.Completer
import LineGrammar.Highlight.Highlighter
import LineGrammar.Text.Json
import LineGrammar.Validation.Validator

/-! Answering commands about one grammar. A command writes lines of text, with tabs between their
parts and captured text quoted, or one line of JSON. -/

namespace LineGrammar

/-- Whether the input was accepted; a command that ran to its end says one or the other. -/
inductive Outcome
  | accepted
  | rejected
  deriving DecidableEq, Repr

def Outcome.exitCode : Outcome → Nat
  | .accepted => 0
  | .rejected => 1

structure Session where
  grammar : Grammar
  completers : List (String × Completer)
  highlighters : List (String × Highlighter)
  defaultStyle : String
  json : Bool

namespace Session

def readWords (list : String) : List String :=
  ((splitAtCommas list.toList).map fun word => Text.trim (String.ofList word)).filter (· ≠ "")
where
  splitAtCommas : List Char → List (List Char)
    | [] => [[]]
    | c :: rest =>
      if c = ',' then [] :: splitAtCommas rest
      else
        match splitAtCommas rest with
        | [] => [[c]]
        | word :: words => (c :: word) :: words

/-- A later assignment to a variable takes the place of an earlier one. -/
def assignAll {α : Type} (read : String → Except SettingFault (String × α)) :
    List String → Registry α → Except SettingFault (Registry α)
  | [], registry => .ok registry
  | argument :: rest, registry => do
    let (name, value) ← read argument
    assignAll read rest (registry.insert name value)

def readCompleter (argument : String) : Except SettingFault (String × Completer) := do
  let (name, list) ← readAssignment argument "--words"
  return (name, .words (.ofWords (readWords list)))

def readHighlighter (argument : String) : Except SettingFault (String × Highlighter) := do
  let (name, style) ← readAssignment argument "--style"
  return (name, .plain (← readStyle style))

def setting {α : Type} : Except SettingFault α → Except CommandError α
  | .ok value => .ok value
  | .error fault => .error (.setting fault)

def compile (expression : String) : Except CommandError Grammar :=
  match Grammar.ofExpression expression [] [] with
  | .ok grammar => .ok grammar
  | .error error => .error (.grammar error)

def ofExpression (expression : String) (words styles : List String) (defaultStyle : String)
    (json : Bool) : Except CommandError Session := do
  let grammar ← compile expression
  let completers ← setting (assignAll readCompleter words [])
  let highlighters ← setting (assignAll readHighlighter styles [])
  return ⟨grammar, completers, highlighters, defaultStyle, json⟩

def expressionOf (arguments : Arguments) (readFile : String → Except String String) :
    Except CommandError String :=
  match arguments.grammar, arguments.grammarFile with
  | some expression, _ => .ok expression
  | none, some path =>
    match readFile path with
    | .ok expression => .ok expression
    | .error message => .error (.file message)
  | none, none => .error (.setting .noGrammar)

def ofArguments (arguments : Arguments) (settings : Settings)
    (readFile : String → Except String String) : Except CommandError Session := do
  ofExpression (← expressionOf arguments readFile) arguments.words arguments.styles
    settings.defaultStyle arguments.json

def completer (session : Session) : Completer := .fields session.grammar session.completers

def highlighter (session : Session) : Highlighter :=
  .fields session.grammar session.defaultStyle session.highlighters

def validator (session : Session) : Validator := .fields session.grammar []

def occurrenceJson (occurrence : Occurrence) : JsonValue :=
  .object [("name", .text occurrence.name), ("value", .text occurrence.value),
    ("start", .number occurrence.span.start), ("stop", .number occurrence.span.stop)]

def completionJson (completion : Completion) : JsonValue :=
  .object [("text", .text completion.text), ("start_position", .number completion.start),
    ("display", .ofOption .text completion.display),
    ("display_meta", .ofOption .text completion.note)]

def runJson (run : StyledRun) : JsonValue :=
  .object [("style", .text run.style), ("text", .text run.text)]

def linesJson (lines : StyledLines) : JsonValue :=
  .object [("lines", .list (lines.map fun line => .list (line.map runJson)))]

def complaintJson (complaint : Located) : JsonValue :=
  .object [("cursor_position", .number complaint.position), ("message", .text complaint.message)]

def jsonLine (value : JsonValue) : String := value.render ++ "\n"

def tabbed (parts : List String) : String := "\t".intercalate parts ++ "\n"

def occurrenceLine (kind : String) (occurrence : Occurrence) : String :=
  tabbed [kind, occurrence.name, s!"{occurrence.span.start}..{occurrence.span.stop}",
    Text.quote occurrence.value]

def completionLine (completion : Completion) : String :=
  tabbed ([completion.text, toString completion.start] ++ completion.note.toList)

def styledLines (lines : StyledLines) : String :=
  String.join (lines.zipIdx.flatMap fun (line, number) =>
    line.map fun run => tabbed [toString number, run.style, Text.quote run.text])

def outcomeOf (accepted : Bool) : Outcome := if accepted then .accepted else .rejected

def whole (session : Session) (input : String) : Outcome × String :=
  let found := session.grammar.matchWhole? input
  let occurrences := (found.map (·.occurrences)).getD []
  (outcomeOf found.isSome,
    if session.json then
      jsonLine (.object [("matched", .bool found.isSome),
        ("variables", .list (occurrences.map occurrenceJson))])
    else if found.isSome then String.join (occurrences.map (occurrenceLine "var"))
    else "no match\n")

def beginning (session : Session) (input : String) : Outcome × String :=
  let found := session.grammar.matchBeginning input
  (.accepted,
    if session.json then
      jsonLine (.object [("variables", .list (found.occurrences.map occurrenceJson)),
        ("end_nodes", .list (found.endNodes.map occurrenceJson)),
        ("trailing_input", .ofOption occurrenceJson found.trailingInput?)])
    else
      String.join (found.occurrences.map (occurrenceLine "var")) ++
        String.join (found.endNodes.map (occurrenceLine "end")) ++
        String.join (found.trailingInput?.toList.map (occurrenceLine "trailing")))

def complete (session : Session) (document : Document) : Except CommandError (Outcome × String) :=
  match (session.completer.complete document .request).outcome.1 with
  | .error error => .error (.completion error)
  | .ok completions =>
    .ok (.accepted,
      if session.json then jsonLine (.list (completions.map completionJson))
      else String.join (completions.map completionLine))

def highlight (session : Session) (input : String) : Outcome × String :=
  let lines := session.highlighter.highlight (.atEnd input)
  (.accepted, if session.json then jsonLine (linesJson lines) else styledLines lines)

def validate (session : Session) (input : String) : Except CommandError (Outcome × String) :=
  match (session.validator.validate (.atEnd input)).outcome.1 with
  | .error (.failed message) => .error (.validation message)
  | .error (.invalid complaint) =>
    .ok (.rejected,
      if session.json then
        jsonLine (.object [("valid", .bool false), ("error", complaintJson complaint)])
      else tabbed ["invalid", toString complaint.position, complaint.message])
  | .ok () =>
    .ok (.accepted,
      if session.json then jsonLine (.object [("valid", .bool true), ("error", .null)])
      else "valid\n")

def run (session : Session) : Command → Except CommandError (Outcome × String)
  | .whole input => .ok (session.whole input)
  | .beginning input => .ok (session.beginning input)
  | .complete input cursor =>
    session.complete (.ofText input (cursor.getD input.utf8ByteSize))
  | .highlight input => .ok (session.highlight input)
  | .validate input => session.validate input

end Session

end LineGrammar
