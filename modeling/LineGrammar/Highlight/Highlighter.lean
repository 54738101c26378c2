import LineGrammar.Document
import LineGrammar.Grammar.Match
import LineGrammar.Highlight.Styled

/-! Highlighting with a grammar. The text is matched as the beginning of a sentence and every
variable that has a highlighter is styled by it as a document of its own. Variables are taken in
order and only fill in characters that still have the default style, so an outer variable goes
before those inside it; trailing input is marked whatever its style was. -/

namespace LineGrammar

/-- What is kept of a highlighter to notice changes, as a sequence of marks. Nested sequences are
bracketed, so their ends can be told. -/
inductive FingerprintMark
  | text (text : String)
  | number (value : Nat)
  | opening
  | closing
  deriving DecidableEq, Repr

abbrev Fingerprint := List FingerprintMark

/-- `plain` gives all text one style, `fields` has a highlighter for some of the variables of its
grammar, `source` is a highlighter from outside. -/
inductive Highlighter
  | plain (style : String)
  | fields (grammar : Grammar) (defaultStyle : String) (highlighters : List (String × Highlighter))
  | source (style : Document → StyledLines) (fingerprint : Fingerprint)

namespace Highlighter

def trailingStyle : String := "class:trailing-input"

/-- The styles that lines offer to the characters of a text in order. There is nothing to style
in the newline after a line but the last. -/
def layerOfLines : List (List StyledRun) → List (Option String)
  | [] => []
  | [line] => ofRuns line
  | line :: lines => ofRuns line ++ none :: layerOfLines lines
where
  /-- One style for every character of the runs. -/
  ofRuns (runs : List StyledRun) : List (Option String) :=
    runs.flatMap fun run => run.text.toList.map fun _ => some run.style

def layer (lines : StyledLines) (count : Nat) : List (Option String) :=
  layerOfLines ((List.range count).map lines.line)

def paint (defaultStyle : String) : List StyledChar → List (Option String) → List StyledChar
  | [], _ => []
  | chars, [] => chars
  | char :: chars, none :: layer => char :: paint defaultStyle chars layer
  | (style, c) :: chars, some offered :: layer =>
    (if style = defaultStyle then offered else style, c) :: paint defaultStyle chars layer

def paintFrom (defaultStyle : String) (start : Nat) (layer : List (Option String)) :
    List StyledChar → List StyledChar
  | [] => []
  | char :: chars =>
    if start = 0 then paint defaultStyle (char :: chars) layer
    else char :: paintFrom defaultStyle (start - char.2.utf8Size) layer chars

/-- Mark the characters whose first byte lies in the span, for a text that starts at byte
`position`. -/
def markTrailing (span : Span) (position : Nat) : List StyledChar → List StyledChar
  | [] => []
  | (style, c) :: chars =>
    (if span.contains position then trailingStyle else style, c) ::
      markTrailing span (position + c.utf8Size) chars

def markTrailing? (span : Option Span) (chars : List StyledChar) : List StyledChar :=
  match span with
  | none => chars
  | some span => markTrailing span 0 chars

def fieldDocument? (text : String) (span : Span) : Option (Nat × Document) :=
  (Text.between? text span.start span.stop).map fun inside => (span.start, .atEnd inside)

def fieldDocuments (text : String) (found : Match) : List (String × Nat × Document) :=
  found.fields.filterMap fun (name, span) =>
    (fieldDocument? text span).map fun (start, document) => (name, start, document)

mutual

def highlight (document : Document) : Highlighter → StyledLines
  | .plain style => StyledLines.ofChars (document.text.toList.map fun c => (style, c))
  | .source style _ => style document
  | .fields grammar defaultStyle highlighters =>
    let found := grammar.matchBeginning document.text
    let painted := (fieldDocuments document.text found).foldl
      (fun chars (name, start, field) =>
        match highlightNamed name field highlighters with
        | none => chars
        | some lines => paintFrom defaultStyle start (layer lines field.lineCount) chars)
      (document.text.toList.map fun c => (defaultStyle, c))
    StyledLines.ofChars (markTrailing? found.trailing painted)

def highlightNamed (name : String) (document : Document) :
    List (String × Highlighter) → Option StyledLines
  | [] => none
  | (key, highlighter) :: rest =>
    if key = name then some (highlighter.highlight document)
    else highlightNamed name document rest

end

mutual

def consulted (document : Document) : Highlighter → List Document
  | .plain _ => []
  | .source _ _ => [document]
  | .fields grammar _ highlighters =>
    let found := grammar.matchBeginning document.text
    (fieldDocuments document.text found).flatMap fun (name, _, field) =>
      consultedNamed name field highlighters

def consultedNamed (name : String) (document : Document) :
    List (String × Highlighter) → List Document
  | [] => []
  | (key, highlighter) :: rest =>
    if key = name then highlighter.consulted document else consultedNamed name document rest

end

mutual

/-- Meant to differ where a document is styled differently. Of a grammar the pattern of the whole is
kept, without the names of its variables and without its beginnings. -/
def fingerprint : Highlighter → Fingerprint
  | .plain style => [.opening, .text style, .closing]
  | .source _ marks => marks
  | .fields grammar defaultStyle highlighters =>
    let fields := (namedFingerprints highlighters).mergeSort fun a b => decide (a.1 ≤ b.1)
    .opening :: .text grammar.whole.source :: .text defaultStyle ::
      fields.flatMap (fun (name, marks) => .text name :: marks) ++ [.closing]

def namedFingerprints : List (String × Highlighter) → List (String × Fingerprint)
  | [] => []
  | (name, highlighter) :: rest => (name, highlighter.fingerprint) :: namedFingerprints rest

end

end Highlighter

end LineGrammar
