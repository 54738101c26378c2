/-! Completions: replacements that are suggested for the text before the cursor. -/

namespace LineGrammar

structure CompletionEvent where
  textInserted : Bool
  requested : Bool
  deriving DecidableEq, Repr

def CompletionEvent.request : CompletionEvent := ⟨false, true⟩

/-- A text to insert in place of the `replaced` bytes before the cursor. `display` is shown
instead of the text, and `note` next to it. -/
structure Completion where
  text : String
  replaced : Nat
  display : Option String
  note : Option String
  deriving DecidableEq, Repr

namespace Completion

/-- The start of the replaced text is given relative to the cursor; one behind the cursor counts
as the cursor itself. -/
def ofStart (text : String) (start : Int) : Completion := ⟨text, (-start).toNat, none, none⟩

def start (completion : Completion) : Int := -(completion.replaced : Int)

def shown (completion : Completion) : String := completion.display.getD completion.text

def key (completion : Completion) : String × Nat := (completion.text, completion.replaced)

end Completion

inductive CompletionError
  | cancelled
  | failed (message : String)
  deriving DecidableEq, Repr

def CompletionError.message : CompletionError → String
  | .cancelled => "completion was cancelled"
  | .failed message => message

end LineGrammar
