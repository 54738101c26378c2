import LineGrammar.Completion.Basic
import LineGrammar.Document
import LineGrammar.Registry
import LineGrammar.Text.Lowercase

/-! Completing the word before the cursor from a list. -/

namespace LineGrammar

/-- Words to offer, with notes on some of them. With `wholeWord` everything since the last white
space counts as typed, otherwise only the word characters at the cursor. -/
structure WordList where
  words : List String
  notes : Registry String
  ignoreCase : Bool
  wholeWord : Bool

namespace WordList

def ofWords (words : List String) : WordList := ⟨words, [], false, false⟩

def startsWith (word typed : String) : Bool := typed.toList.isPrefixOf word.toList

def accepts (list : WordList) (word typed : String) : Bool :=
  if list.ignoreCase then startsWith (Text.lowercase word) (Text.lowercase typed)
  else startsWith word typed

def typed (list : WordList) (document : Document) : String :=
  if list.wholeWord then document.bigWordBefore else document.wordBefore

def complete (list : WordList) (document : Document) : List Completion :=
  let typed := list.typed document
  (list.words.filter (list.accepts · typed)).map fun word =>
    ⟨word, typed.utf8ByteSize, none, list.notes.find? word⟩

end WordList

end LineGrammar
