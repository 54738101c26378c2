import LineGrammar.Command.Settings

/-! The arguments of the command line program: flags, then one command with its own arguments.
The value of a flag may be attached with an equals sign or follow as the next argument; such a
value is only looked at once the argument after it is a flag or the line has ended. That decides
which of several mistakes is reported. -/

namespace LineGrammar

inductive Command
  | whole (input : String)
  | beginning (input : String)
  | complete (input : String) (cursor : Option Nat)
  | highlight (input : String)
  | validate (input : String)
  deriving DecidableEq, Repr

structure Arguments where
  logLevel : Option LogLevel
  json : Bool
  grammar : Option String
  grammarFile : Option String
  words : List String
  styles : List String
  defaultStyle : Option String
  command : Command
  deriving DecidableEq, Repr

/-- Why there is nothing to run; the last two are asked for and no mistakes. -/
inductive UsageError
  | missingArgument
  | missingCommand
  | nothingGiven
  | unknownCommand
  | unknownArgument
  | conflict
  | badValue
  | missingValue
  | unwantedValue
  | help
  | version
  deriving DecidableEq, Repr

namespace Arguments

inductive CommandName
  | whole
  | beginning
  | complete
  | highlight
  | validate
  deriving DecidableEq, Repr

def CommandName.ofText? (text : String) : Option CommandName :=
  match text with
  | "match" => some .whole
  | "prefix" => some .beginning
  | "complete" => some .complete
  | "highlight" => some .highlight
  | "validate" => some .validate
  | _ => none

def isCommand (text : String) : Bool := (CommandName.ofText? text).isSome || text = "help"

inductive Shape
  | terminator
  | long (name : String) (value : Option String)
  | short (letter : Char)
  | plain
  deriving DecidableEq, Repr

def shape (argument : String) : Shape :=
  match argument.toList with
  | '-' :: '-' :: [] => .terminator
  | '-' :: '-' :: cs =>
    let name := cs.takeWhile (· ≠ '=')
    .long (String.ofList name)
      (if name.length < cs.length then some (String.ofList (cs.drop (name.length + 1))) else none)
  | '-' :: letter :: _ => .short letter
  | _ => .plain

def readCursor (text : String) : Except UsageError Nat :=
  let digits : List Char := match text.toList with
    | '+' :: digits => digits
    | digits => digits
  let value : Nat := digits.foldl (fun value c => value * 10 + (c.toNat - 48)) 0
  if digits ≠ [] ∧ digits.all Char.isDigit ∧ value < UInt64.size then .ok value else .error .badValue

structure Pending (α : Type) where
  flag : α
  value : Option String
  deriving DecidableEq, Repr

def isAwaiting {α : Type} : Option (Pending α) → Bool
  | some ⟨_, none⟩ => true
  | _ => false

structure CommandLine where
  input : Option String
  cursor : Option Nat
  pending : Option (Pending Unit)
  deriving DecidableEq, Repr

namespace CommandLine

def start : CommandLine := ⟨none, none, none⟩

def give (line : CommandLine) (value : String) : Except UsageError CommandLine :=
  match line.cursor with
  | some _ => .error .conflict
  | none => do return { line with cursor := some (← readCursor value) }

def settle (line : CommandLine) : Except UsageError CommandLine :=
  match line.pending with
  | none => .ok line
  | some ⟨(), none⟩ => .error .missingValue
  | some ⟨(), some value⟩ => give { line with pending := none } value

def position (line : CommandLine) (argument : String) : Except UsageError CommandLine :=
  match line.input with
  | some _ => .error .unknownArgument
  | none => do return { ← line.settle with input := some argument }

def long (name : CommandName) (line : CommandLine) (flag : String) (value : Option String) :
    Except UsageError CommandLine :=
  if flag = "help" then
    match value with
    | some _ => .error .unwantedValue
    | none => line.settle.bind fun _ => .error .help
  else if flag = "cursor" ∧ name = .complete then do
    let line ← line.settle
    match value with
    | some value => line.give value
    | none => return { line with pending := some ⟨(), none⟩ }
  else .error .unknownArgument

def short (line : CommandLine) (letter : Char) : Except UsageError CommandLine :=
  if letter = 'h' then line.settle.bind fun _ => .error .help else .error .unknownArgument

def step (name : CommandName) (line : CommandLine) (argument : String) :
    Except UsageError CommandLine :=
  match shape argument with
  | .long flag value => line.long name flag value
  | .short letter => line.short letter
  | _ =>
    if isAwaiting line.pending then
      .ok { line with pending := some ⟨(), some argument⟩ }
    else line.position argument

def run (name : CommandName) (terminated : Bool) (line : CommandLine) :
    List String → Except UsageError CommandLine
  | [] => .ok line
  | argument :: rest =>
    if terminated then do run name true (← line.position argument) rest
    else if argument = "--" then run name true line rest
    else do run name false (← line.step name argument) rest

def finish (name : CommandName) (line : CommandLine) : Except UsageError Command := do
  let line ← line.settle
  match line.input with
  | none => .error .missingArgument
  | some input =>
    return match name with
      | .whole => .whole input
      | .beginning => .beginning input
      | .complete => .complete input line.cursor
      | .highlight => .highlight input
      | .validate => .validate input

end CommandLine

def readCommand (name : CommandName) (arguments : List String) : Except UsageError Command := do
  (← CommandLine.start.run name false arguments).finish name

inductive ValueFlag
  | logLevel
  | grammar
  | grammarFile
  | words
  | style
  | defaultStyle
  deriving DecidableEq, Repr

def ValueFlag.ofText? (text : String) : Option ValueFlag :=
  match text with
  | "log-level" => some .logLevel
  | "grammar" => some .grammar
  | "grammar-file" => some .grammarFile
  | "words" => some .words
  | "style" => some .style
  | "default-style" => some .defaultStyle
  | _ => none

structure Line where
  logLevel : Option LogLevel
  json : Bool
  grammar : Option String
  grammarFile : Option String
  words : List String
  styles : List String
  defaultStyle : Option String
  pending : Option (Pending ValueFlag)
  deriving DecidableEq, Repr

namespace Line

def start : Line := ⟨none, false, none, none, [], [], none, none⟩

/-- Only flags with a list of values may be given twice. -/
def give (line : Line) (flag : ValueFlag) (value : String) : Except UsageError Line :=
  match flag with
  | .logLevel =>
    if line.logLevel.isSome then .error .conflict
    else
      match LogLevel.ofText? value with
      | some level => .ok { line with logLevel := some level }
      | none => .error .badValue
  | .grammar =>
    if line.grammar.isSome then .error .conflict else .ok { line with grammar := some value }
  | .grammarFile =>
    if line.grammarFile.isSome then .error .conflict
    else if value = "" then .error .missingValue
    else .ok { line with grammarFile := some value }
  | .words => .ok { line with words := line.words ++ [value] }
  | .style => .ok { line with styles := line.styles ++ [value] }
  | .defaultStyle =>
    if line.defaultStyle.isSome then .error .conflict
    else .ok { line with defaultStyle := some value }

def settle (line : Line) : Except UsageError Line :=
  match line.pending with
  | none => .ok line
  | some ⟨_, none⟩ => .error .missingValue
  | some ⟨flag, some value⟩ => give { line with pending := none } flag value

def long (line : Line) (flag : String) (value : Option String) : Except UsageError Line :=
  match ValueFlag.ofText? flag, flag, value with
  | some flag, _, some value => do (← line.settle).give flag value
  | some flag, _, none => do return { ← line.settle with pending := some ⟨flag, none⟩ }
  | none, "json", none => do
    let line ← line.settle
    if line.json then .error .conflict else return { line with json := true }
  | none, "help", none => line.settle.bind fun _ => .error .help
  | none, "version", none => line.settle.bind fun _ => .error .version
  | none, "json", some _ | none, "help", some _ | none, "version", some _ =>
    .error .unwantedValue
  | none, _, _ => .error .unknownArgument

def short (line : Line) (letter : Char) : Except UsageError Line :=
  if letter = 'h' then line.settle.bind fun _ => .error .help
  else if letter = 'V' then line.settle.bind fun _ => .error .version
  else .error .unknownArgument

def helpOn : List String → UsageError
  | [] => .help
  | [name] => if isCommand name then .help else .unknownCommand
  | _ => .unknownCommand

def finish (line : Line) : Except UsageError Arguments := do
  let line ← line.settle
  .error (if line = start then .nothingGiven else .missingCommand)

/-- There has to be exactly one source for the grammar. -/
def finishWith (line : Line) (command : Command) : Except UsageError Arguments := do
  let line ← line.settle
  match line.grammar, line.grammarFile with
  | some _, some _ => .error .conflict
  | none, none => .error .missingArgument
  | _, _ =>
    return ⟨line.logLevel, line.json, line.grammar, line.grammarFile, line.words, line.styles,
      line.defaultStyle, command⟩

def run (line : Line) : List String → Except UsageError Arguments
  | [] => line.finish
  | argument :: rest =>
    if !isAwaiting line.pending && argument = "help" then .error (helpOn rest)
    else
      match if isAwaiting line.pending then none else CommandName.ofText? argument with
      | some name => do line.finishWith (← readCommand name rest)
      | none =>
        match shape argument with
        | .terminator =>
          match rest with
          | [] => line.finish
          | next :: _ => .error (if isCommand next then .unknownArgument else .unknownCommand)
        | .long flag value => do run (← line.long flag value) rest
        | .short letter => do run (← line.short letter) rest
        | .plain =>
          match line.pending with
          | some ⟨flag, none⟩ => run { line with pending := some ⟨flag, some argument⟩ } rest
          | _ => .error .unknownCommand

end Line

def read (arguments : List String) : Except UsageError Arguments := Line.start.run arguments

end Arguments

end LineGrammar
