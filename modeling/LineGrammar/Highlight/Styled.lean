/-! Styled text: the lines of a document, each a list of runs that share a style. -/

namespace LineGrammar

/-- A run of characters of one style. The empty style is the default one. -/
structure StyledRun where
  style : String
  text : String
  deriving DecidableEq, Repr

abbrev StyledChar := String × Char

abbrev StyledLines := List (List StyledRun)

namespace StyledLines

def consChar (style : String) (c : Char) (line : List StyledRun) : List StyledRun :=
  match line with
  | [] => [⟨style, String.ofList [c]⟩]
  | run :: runs =>
    if run.style = style then ⟨style, String.ofList (c :: run.text.toList)⟩ :: runs
    else ⟨style, String.ofList [c]⟩ :: run :: runs

/-- Newlines separate lines and keep no style; neighbours of one style in a line form a run. -/
def ofChars : List StyledChar → StyledLines
  | [] => [[]]
  | (style, c) :: rest =>
    if c = '\n' then [] :: ofChars rest
    else
      match ofChars rest with
      | [] => [[⟨style, String.ofList [c]⟩]]
      | line :: lines => consChar style c line :: lines

def line (lines : StyledLines) (number : Nat) : List StyledRun := (lines[number]?).getD []

end StyledLines

end LineGrammar
