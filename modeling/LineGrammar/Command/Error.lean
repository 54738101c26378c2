import LineGrammar.Completion.Basic
import LineGrammar.Grammar.Error
import LineGrammar.Text.Quoted

/-! Why a command has no result to report. -/

namespace LineGrammar

inductive SettingFault
  | unknownLevel (text : String)
  | controlInStyle (style : String)
  | notAnAssignment (flag argument : String)
  | noGrammar
  deriving DecidableEq, Repr

def SettingFault.message : SettingFault → String
  | .unknownLevel text =>
    s!"unknown log level '{text}', expected one of: trace, debug, info, warn, error"
  | .controlInStyle style =>
    s!"invalid style {Text.quote style}, control characters are not allowed"
  | .notAnAssignment flag argument => s!"{flag} expects VAR=VALUE, got '{argument}'"
  | .noGrammar => "either --grammar or --grammar-file is required"

/-- `file` carries what the system says about a file that cannot be read. -/
inductive CommandError
  | setting (fault : SettingFault)
  | grammar (error : GrammarError)
  | completion (error : CompletionError)
  | validation (message : String)
  | file (message : String)
  deriving DecidableEq, Repr

def CommandError.message : CommandError → String
  | .setting fault => s!"invalid configuration: {fault.message}"
  | .grammar error => s!"invalid grammar: {error.message}"
  | .completion error => s!"completion failed: {error.message}"
  | .validation message => s!"validation failed: {message}"
  | .file message => s!"I/O error: {message}"

end LineGrammar
