import LineGrammar.Command.Program

/-! The command line program. -/

namespace LineGrammar.Program

def readGrammarFile (arguments : List String) : IO (Except String String) := do
  match Arguments.read arguments with
  | .ok { grammarFile := some path, .. } =>
    try return .ok (← IO.FS.readFile path)
    catch error => return .error (toString error)
  | _ => return .error ""

def runInSystem (arguments : List String) : IO UInt32 := do
  let level ← IO.getEnv Settings.logLevelVariable
  let style ← IO.getEnv Settings.defaultStyleVariable
  let environment := fun name =>
    if name = Settings.logLevelVariable then level
    else if name = Settings.defaultStyleVariable then style
    else none
  let file ← readGrammarFile arguments
  let ending := run arguments environment fun _ => file
  IO.print ending.output
  return ending.exitCode.toUInt32

end LineGrammar.Program

def main (arguments : List String) : IO UInt32 := LineGrammar.Program.runInSystem arguments
