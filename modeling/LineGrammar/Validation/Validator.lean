import LineGrammar.Consulting
import LineGrammar.Grammar.Match
import LineGrammar.Located

/-! Validating with a grammar. The whole text has to be a sentence; then every variable that has
a validator is checked by it, and what that complains about is moved to where the variable stands
in the text. -/

namespace LineGrammar

/-- `invalid` is a judgement on the text, `failed` says that there is none. -/
inductive ValidatorError
  | invalid (complaint : Located)
  | failed (message : String)
  deriving DecidableEq, Repr

def ValidatorError.shift (start : Nat) : ValidatorError → ValidatorError
  | .invalid complaint => .invalid { complaint with position := complaint.position + start }
  | .failed message => .failed message

/-- `test` complains about its first byte, or about the end of the text, `fields` has a validator
for some of the variables of its grammar, `source` is a validator from outside. -/
inductive Validator
  | test (passes : String → Bool) (message : String) (atEnd : Bool)
  | fields (grammar : Grammar) (validators : List (String × Validator))
  | source (judge : Document → Except ValidatorError Unit)

namespace Validator

def notASentence : String := "Invalid command"

def judge (passes : String → Bool) (message : String) (atEnd : Bool) (text : String) :
    Except ValidatorError Unit :=
  if passes text then .ok ()
  else .error (.invalid ⟨message, if atEnd then text.utf8ByteSize else 0⟩)

def occurrences (grammar : Grammar) (text : String) : Except ValidatorError (List Occurrence) :=
  match grammar.matchWhole? text with
  | none => .error (.invalid ⟨notASentence, text.utf8ByteSize⟩)
  | some found => .ok found.occurrences

mutual

def validate (document : Document) : Validator → Consulting ValidatorError Unit
  | .test passes message atEnd => Consulting.ofExcept (judge passes message atEnd document.text)
  | .source judge => Consulting.consult document (judge document)
  | .fields grammar validators => do
    let occurrences ← Consulting.ofExcept (occurrences grammar document.text)
    Consulting.forEach
      (fun occurrence => Consulting.mapError (.shift occurrence.span.start)
        (validateNamed occurrence.name (.atEnd occurrence.value) validators))
      occurrences

def validateNamed (name : String) (document : Document) :
    List (String × Validator) → Consulting ValidatorError Unit
  | [] => return ()
  | (key, validator) :: rest =>
    if key = name then validator.validate document else validateNamed name document rest

end

end Validator

end LineGrammar
