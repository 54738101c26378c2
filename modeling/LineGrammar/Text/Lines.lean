/-! The lines of a text. There is one more line than there are newlines, so the empty text has
one empty line. -/

namespace LineGrammar.Text

def splitLines : List Char → List (List Char)
  | [] => [[]]
  | c :: rest =>
    if c = '\n' then [] :: splitLines rest
    else
      match splitLines rest with
      | [] => [[c]]
      | line :: lines => (c :: line) :: lines

theorem splitLines_ne_nil (cs : List Char) : splitLines cs ≠ [] := by
  cases cs with
  | nil => simp [splitLines]
  | cons c rest =>
    rw [splitLines]
    split
    · simp
    · split <;> simp

def lines (text : String) : List String := (splitLines text.toList).map String.ofList

end LineGrammar.Text
