import LineGrammar.Command.Error
import LineGrammar.Text.Blank
import LineGrammar.Text.Lowercase

/-! Settings of the command line program: how much it logs, and the style of text that no
variable is styled in. They come from the environment; flags go before it. -/

namespace LineGrammar

inductive LogLevel
  | trace
  | debug
  | info
  | warn
  | error
  deriving DecidableEq, Repr

namespace LogLevel

def ofText? (text : String) : Option LogLevel :=
  match Text.lowercase text with
  | "trace" => some .trace
  | "debug" => some .debug
  | "info" => some .info
  | "warn" | "warning" => some .warn
  | "error" => some .error
  | _ => none

def read (text : String) : Except SettingFault LogLevel :=
  match ofText? text with
  | some level => .ok level
  | none => .error (.unknownLevel text)

def name : LogLevel → String
  | .trace => "trace"
  | .debug => "debug"
  | .info => "info"
  | .warn => "warn"
  | .error => "error"

end LogLevel

def isControl (c : Char) : Bool :=
  decide (c.toNat < 0x20) || (decide (0x7F ≤ c.toNat) && decide (c.toNat < 0xA0))

def readStyle (style : String) : Except SettingFault String :=
  if style.toList.any isControl then .error (.controlInStyle style) else .ok (Text.trim style)

structure Settings where
  logLevel : LogLevel
  defaultStyle : String
  deriving DecidableEq, Repr

namespace Settings

def default : Settings := ⟨.warn, ""⟩

def logLevelVariable : String := "TERMLINE_LOG_LEVEL"

def defaultStyleVariable : String := "TERMLINE_DEFAULT_STYLE"

def ofEnvironment (lookup : String → Option String) : Except SettingFault Settings := do
  let logLevel ← match lookup logLevelVariable with
    | some text => LogLevel.read text
    | none => .ok default.logLevel
  let defaultStyle ← match lookup defaultStyleVariable with
    | some style => readStyle style
    | none => .ok default.defaultStyle
  return ⟨logLevel, defaultStyle⟩

def override (settings : Settings) (logLevel : Option LogLevel) (defaultStyle : Option String) :
    Settings :=
  ⟨logLevel.getD settings.logLevel, defaultStyle.getD settings.defaultStyle⟩

def withLogLevel (settings : Settings) (logLevel : LogLevel) : Settings :=
  { settings with logLevel := logLevel }

end Settings

/-- The name and the value of a `VAR=VALUE` argument of a flag. Blanks around the name do not
count, and there has to be something between them. -/
def readAssignment (argument flag : String) : Except SettingFault (String × String) :=
  let cs := argument.toList
  let name := cs.takeWhile (· ≠ '=')
  let trimmed := Text.trim (String.ofList name)
  if name.length < cs.length ∧ trimmed ≠ "" then
    .ok (trimmed, String.ofList (cs.drop (name.length + 1)))
  else .error (.notAnAssignment flag argument)

end LineGrammar
