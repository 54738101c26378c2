import LineGrammar.Grammar.Error
import LineGrammar.Text.Bytes

/-! Leaves of a grammar and the pattern text that stands for them. Expressions are more lenient
than patterns: any punctuation may be escaped, stray closing brackets and braces are literal, and
the word, digit and word-boundary escapes follow the whole of Unicode. A letter or digit escape
that has no counterpart is refused rather than passed on. -/

namespace LineGrammar.Leaf

def patternChars : List Char :=
  ['^', '$', '\\', '.', '*', '+', '?', '(', ')', '[', ']', '{', '}', '|', '/']

def wordMembers : List Char := "_\\p\x7bL\x7d\\p\x7bN\x7d".toList

def wordClass : List Char := '[' :: wordMembers ++ [']']

def nonWordClass : List Char := '[' :: '^' :: wordMembers ++ [']']

def wordBoundary : List Char :=
  "(?:(?<=".toList ++ wordClass ++ ")(?!".toList ++ wordClass ++ ")|(?<!".toList ++ wordClass ++
    ")(?=".toList ++ wordClass ++ "))".toList

def notWordBoundary : List Char :=
  "(?:(?<=".toList ++ wordClass ++ ")(?=".toList ++ wordClass ++ ")|(?<!".toList ++ wordClass ++
    ")(?!".toList ++ wordClass ++ "))".toList

def isHexDigit (c : Char) : Bool :=
  c.isDigit || (decide ('a' ≤ c) && decide (c ≤ 'f')) || (decide ('A' ≤ c) && decide (c ≤ 'F'))

/-- The pattern text for `\c` at byte `position`, and how many characters of `rest` it takes. -/
def escape (inClass : Bool) (position : Nat) (c : Char) (rest : List Char) :
    Except GrammarError (List Char × Nat) :=
  let refused : Except GrammarError (List Char × Nat) :=
    .error (.unsupported (String.ofList ['\\', c]) position)
  if c = 'w' then .ok (if inClass then wordMembers else wordClass, 0)
  else if c = 'W' then .ok (nonWordClass, 0)
  else if c = 'd' then .ok ("\\p\x7bNd\x7d".toList, 0)
  else if c = 'D' then .ok ("\\P\x7bNd\x7d".toList, 0)
  else if c = 'b' then .ok (if inClass then ['\\', 'b'] else wordBoundary, 0)
  else if c = 'B' ∧ !inClass then .ok (notWordBoundary, 0)
  else if c = 'A' ∧ !inClass then .ok (['^'], 0)
  else if c = 'Z' ∧ !inClass then .ok (['$'], 0)
  else if c = 'a' then .ok ("\\x07".toList, 0)
  else if c = '0' ∧ !rest.head?.any Char.isDigit then .ok (['\\', '0'], 0)
  else if ['s', 'S', 'n', 't', 'r', 'f', 'v', 'x', 'u'].contains c then .ok (['\\', c], 0)
  else if c = 'U' then
    let digits := rest.take 8
    if digits.length = 8 ∧ digits.all isHexDigit then
      .ok ("\\u\x7b".toList ++ digits ++ ['}'], 8)
    else refused
  else if c.isAlphanum then refused
  else if patternChars.contains c || (inClass && c = '-') then .ok (['\\', c], 0)
  else .ok ([c], 0)

/-- A character class that has not been closed yet. The complement of the word class is no member
that a pattern class can hold, so it is noted apart. -/
structure OpenClass where
  negated : Bool
  body : List Char
  nonWord : Bool
  deriving DecidableEq, Repr

namespace OpenClass

def add (cls : OpenClass) (members : List Char) : OpenClass :=
  { cls with body := cls.body ++ members }

def opening (cls : OpenClass) : List Char :=
  (if cls.negated then ['[', '^'] else ['[']) ++ cls.body

/-- The text of the whole class. With the complement of the word class among its members it is
spelled as a choice, or, when negated, as a word character outside the other members. -/
def closed (cls : OpenClass) : List Char :=
  if cls.nonWord then
    match cls.negated, cls.body with
    | false, [] => nonWordClass
    | false, body => "(?:[".toList ++ body ++ "]|".toList ++ nonWordClass ++ ")".toList
    | true, [] => wordClass
    | true, body => "(?:(?![".toList ++ body ++ "])".toList ++ wordClass ++ ")".toList
  else cls.opening ++ [']']

end OpenClass

/-- The characters of a counted repetition after its opening brace: a number, and after a comma
possibly another. -/
def countedLength? (cs : List Char) : Option Nat :=
  let inside := cs.takeWhile (· ≠ '}')
  let low := inside.takeWhile (· ≠ ',')
  let high := (inside.drop low.length).drop 1
  if inside.length < cs.length ∧ low ≠ [] ∧ low.all Char.isDigit ∧ high.all Char.isDigit then
    some (inside.length + 1)
  else none

/-- The pattern text for the part of a leaf that starts at byte `position`, inside of `cls` if
there is one. A class that is never closed is left open, for the pattern reader to refuse. -/
def nativeFrom (position : Nat) (cls : Option OpenClass) :
    List Char → Except GrammarError (List Char)
  | [] => .ok (match cls with
    | none => []
    | some cls => cls.opening)
  | c :: rest =>
    let next := position + c.utf8Size
    if c = '\\' then
      match rest with
      | [] => .ok (match cls with
        | none => ['\\', '\\']
        | some cls => (cls.add ['\\', '\\']).opening)
      | e :: more =>
        match cls with
        | none =>
          match escape false position e more with
          | .error error => .error error
          | .ok (text, count) =>
            (nativeFrom (next + Text.byteLength (e :: more.take count)) none
              (more.drop count)).map (text ++ ·)
        | some cls =>
          if e = 'W' then
            nativeFrom (next + e.utf8Size) (some { cls with nonWord := true }) more
          else
            match escape true position e more with
            | .error error => .error error
            | .ok (text, count) =>
              nativeFrom (next + Text.byteLength (e :: more.take count)) (some (cls.add text))
                (more.drop count)
    else
      match cls with
      | some cls =>
        if c = ']' then (nativeFrom next none rest).map (cls.closed ++ ·)
        else nativeFrom next (some (cls.add [c])) rest
      | none =>
        if c = '[' then
          if rest.head? = some '^' then
            nativeFrom (next + 1) (some ⟨true, [], false⟩) (rest.drop 1)
          else nativeFrom next (some ⟨false, [], false⟩) rest
        else if c = ']' ∨ c = '}' then (nativeFrom next none rest).map (['\\', c] ++ ·)
        else if c = '{' then
          match countedLength? rest with
          | some count =>
            (nativeFrom (next + count) none (rest.drop count)).map (c :: rest.take count ++ ·)
          | none => (nativeFrom next none rest).map (['\\', '{'] ++ ·)
        else (nativeFrom next none rest).map (c :: ·)
termination_by cs => cs.length
decreasing_by all_goals simp_all only [List.length_drop, List.length_cons]; omega

def native (text : String) : Except GrammarError String :=
  (nativeFrom 0 none text.toList).map String.ofList

end LineGrammar.Leaf
