import LineGrammar.Text.Alphanumeric
import LineGrammar.Text.Blank
import LineGrammar.Text.Bytes
import LineGrammar.Text.Lines

/-! The text being edited and the cursor in it. A document is kept as the text on the two sides
of the cursor, so the cursor always lies between two characters. -/

namespace LineGrammar

structure Document where
  before : String
  after : String
  deriving DecidableEq, Repr

namespace Document

/-- The cursor goes down to the nearest boundary that is neither behind byte `cursor` nor behind the
text, which is cut there. A position that cannot be cut at would leave nothing at either side. -/
def ofText (text : String) (cursor : Nat) : Document :=
  let position := (Text.boundaryUpTo? text (min cursor text.utf8ByteSize)).get
    (Text.isSome_boundaryUpTo? text _)
  ⟨(Text.before? text position).getD "", (Text.from? text position).getD ""⟩

def atEnd (text : String) : Document := ⟨text, ""⟩

def text (document : Document) : String := document.before ++ document.after

def cursor (document : Document) : Nat := document.before.utf8ByteSize

def runStart (passes : Char → Bool) (text : List Char) : Nat :=
  match ((Text.placesFrom 0 text).reverse.takeWhile (passes ·.2)).getLast? with
  | some (start, _) => start
  | none => Text.byteLength text

def trailingRun (passes : Char → Bool) (text : String) : String :=
  (Text.from? text (runStart passes text.toList)).getD ""

def isWordChar (c : Char) : Bool := Text.isAlphanumeric c || c = '_'

def wordBefore (document : Document) : String := trailingRun isWordChar document.before

def bigWordBefore (document : Document) : String :=
  trailingRun (!Text.isBlank ·) document.before

def lines (document : Document) : List String := Text.lines document.text

def lineCount (document : Document) : Nat := document.lines.length

@[simp] theorem text_atEnd (text : String) : (atEnd text).text = text := by
  simp [atEnd, Document.text]

end Document

end LineGrammar
