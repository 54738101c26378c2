import LineGrammar.Completion.Words
import LineGrammar.Consulting
import LineGrammar.Grammar.Match

/-! Completing with a grammar. The text before the cursor is matched as the beginning of a
sentence; every variable that ends at the cursor and has a completer is completed on its own, and
what comes back is rewritten to replace the whole field. -/

namespace LineGrammar

/-- How a completer from outside answers. It may cancel the request that it is part of. -/
structure CompletionReply where
  result : Except CompletionError (List Completion)
  cancels : Bool

/-- `fields` has a completer for some of the variables of its grammar, `source` is a completer
from outside. -/
inductive Completer
  | words (list : WordList)
  | fields (grammar : Grammar) (completers : List (String × Completer))
  | source (respond : Document → CompletionEvent → CompletionReply)

structure CompletionField where
  name : String
  document : Document
  replaced : Nat

namespace CompletionField

def ofOccurrence (before : String) (occurrence : Occurrence) : CompletionField :=
  ⟨occurrence.name, .atEnd occurrence.value, before.utf8ByteSize - occurrence.span.start⟩

def under (grammar : Grammar) (document : Document) : List CompletionField :=
  (grammar.matchBeginning document.before).endNodes.map (ofOccurrence document.before)

/-- The part of the field that a completion leaves in place; nothing when the completion starts
outside of the field or inside of a character. -/
def kept (field : CompletionField) (completion : Completion) : String :=
  let size := field.document.text.utf8ByteSize
  if completion.replaced ≤ size then
    (Text.before? field.document.text (size - completion.replaced)).getD ""
  else ""

def rewrap (grammar : Grammar) (field : CompletionField) (completion : Completion) : Completion :=
  ⟨grammar.escape field.name (field.kept completion ++ completion.text), field.replaced,
    some completion.shown, completion.note⟩

end CompletionField

namespace Completion

def uniqueBeyond (seen : List (String × Nat)) : List Completion → List Completion
  | [] => []
  | completion :: rest =>
    if completion.key ∈ seen then uniqueBeyond seen rest
    else completion :: uniqueBeyond (completion.key :: seen) rest

/-- The first completion of every key. -/
def unique (completions : List Completion) : List Completion := uniqueBeyond [] completions

end Completion

namespace Completer

mutual

def complete (document : Document) (event : CompletionEvent) :
    Completer → Consulting CompletionError (List Completion)
  | .words list => return list.complete document
  | .source respond => Consulting.consult document (respond document event).result
  | .fields grammar completers => do
    let found ← (CompletionField.under grammar document).mapM fun field => do
      let inner ← completeNamed field.name field.document event completers
      return inner.map (field.rewrap grammar)
    return Completion.unique found.flatten

def completeNamed (name : String) (document : Document) (event : CompletionEvent) :
    List (String × Completer) → Consulting CompletionError (List Completion)
  | [] => return []
  | (key, completer) :: rest =>
    if key = name then completer.complete document event
    else completeNamed name document event rest

end

end Completer

end LineGrammar
