import LineGrammar.Command.Session

/-! The command line program as a function of its arguments, its environment and the files it can
read. It ends with 0 when the input was accepted, with 1 when it was rejected, and with 2, having
written nothing, when it could not judge the input. -/

namespace LineGrammar.Program

structure Ending where
  exitCode : Nat
  output : String
  deriving DecidableEq, Repr

def failed : Ending := ⟨2, ""⟩

def versionText : String := "termline 0.3.0\n"

def settingsOf (arguments : Arguments) (environment : String → Option String) :
    Except SettingFault Settings := do
  let settings ← Settings.ofEnvironment environment
  let defaultStyle ← match arguments.defaultStyle with
    | none => .ok none
    | some style => (readStyle style).map some
  return settings.override arguments.logLevel defaultStyle

def answer (arguments : Arguments) (environment : String → Option String)
    (readFile : String → Except String String) : Except CommandError (Outcome × String) := do
  let settings ← Session.setting (settingsOf arguments environment)
  let session ← Session.ofArguments arguments settings readFile
  session.run arguments.command

/-- The text that the argument parser makes for a request for help is left out. -/
def run (arguments : List String) (environment : String → Option String)
    (readFile : String → Except String String) : Ending :=
  match Arguments.read arguments with
  | .error .help => ⟨0, ""⟩
  | .error .version => ⟨0, versionText⟩
  | .error _ => failed
  | .ok arguments =>
    match answer arguments environment readFile with
    | .ok (outcome, output) => ⟨outcome.exitCode, output⟩
    | .error _ => failed

end LineGrammar.Program
