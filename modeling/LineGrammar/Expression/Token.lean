import LineGrammar.Grammar.Error
import LineGrammar.Text.Blank
import LineGrammar.Text.Bytes

/-! Splitting an expression into tokens. White space and comments, which run from a `#` through
the end of the line, separate tokens and belong to none; inside a character class and after a
backslash they are ordinary characters. All lengths are counted in bytes. -/

namespace LineGrammar

structure Token where
  text : String
  position : Nat
  deriving DecidableEq, Repr

namespace Token

/-- How many bytes come next, and whether they are a token or a gap. -/
inductive Scanned
  | keep (length : Nat)
  | skip (length : Nat)
  deriving DecidableEq, Repr

def Scanned.length : Scanned → Nat
  | .keep length => length
  | .skip length => length

def isNameChar (c : Char) : Bool := c.isAlphanum || c = '_' || c = '-'

def bytesThrough (rest : String) (c : Char) : Nat :=
  match Text.offset? rest (· = c) with
  | some place => place + 1
  | none => Text.byteLength rest.toList

def openerBytes (rest : String) : Nat :=
  if "(?P<".toList.isPrefixOf rest.toList then
    let tail := (Text.from? rest 4).getD ""
    let name := (Text.offset? tail (!isNameChar ·)).getD (Text.byteLength tail.toList)
    if 0 < name ∧ Text.between? tail name (name + 1) = some ">" then 4 + name + 1 else 4
  else if "(?P=".toList.isPrefixOf rest.toList || "(?#".toList.isPrefixOf rest.toList then
    bytesThrough rest ')'
  else if "(?<=".toList.isPrefixOf rest.toList || "(?<!".toList.isPrefixOf rest.toList then 4
  else
    match (Text.from? rest 2).bind (·.toList.head?) with
    | some c => 2 + c.utf8Size
    | none => 2

def braceBytes (rest : String) : Nat :=
  let tail := (Text.from? rest 1).getD ""
  match Text.offset? tail fun c => c = '{' || c = '}' with
  | some close => if Text.between? tail close (close + 1) = some "\x7d" then close + 2 else 1
  | none => 1

/-- Where the class is closed among the characters at their places; a character after a backslash
closes nothing. -/
def classEnd? : List (Nat × Char) → Option Nat
  | [] => none
  | (place, c) :: rest =>
    if c = '\\' then
      match rest with
      | [] => none
      | _ :: more => classEnd? more
    else if c = ']' then some (place + 1)
    else classEnd? rest

def classBytes? (rest : String) : Option Nat :=
  classEnd? ((Text.placesFrom 0 rest.toList).drop 1)

/-- What comes next in the rest of an expression, which starts at byte `position`. -/
def scan (rest : String) (position : Nat) : Except GrammarError Scanned :=
  match rest.toList.head? with
  | none => .ok (.skip 0)
  | some first =>
    if "(?".toList.isPrefixOf rest.toList then .ok (.keep (openerBytes rest))
    else if first = '(' ∨ first = ')' ∨ first = '|' then .ok (.keep 1)
    else if first = '*' ∨ first = '+' ∨ first = '?' then
      .ok (.keep (if Text.between? rest 1 2 = some "?" then 2 else 1))
    else if first = '{' then .ok (.keep (braceBytes rest))
    else if first = '#' then .ok (.skip (bytesThrough rest '\n'))
    else if first = '\\' then
      match (Text.from? rest 1).bind (·.toList.head?) with
      | some escaped => .ok (.keep (1 + escaped.utf8Size))
      | none => .error (.malformed .danglingEscape position)
    else if first = '[' then
      match classBytes? rest with
      | some length => .ok (.keep length)
      | none => .error (.malformed .unterminatedClass position)
    else if Text.isBlank first then .ok (.skip first.utf8Size)
    else .ok (.keep first.utf8Size)

theorem bytesThrough_pos {rest : String} (some : rest ≠ "") (c : Char) :
    0 < bytesThrough rest c := by
  unfold bytesThrough
  split
  · omega
  · cases chars : rest.toList with
    | nil => simp_all
    | cons first more =>
      have := first.utf8Size_pos
      rw [Text.byteLength_cons]
      omega

theorem openerBytes_pos {rest : String} (some : rest ≠ "") : 0 < openerBytes rest := by
  have := bytesThrough_pos some ')'
  unfold openerBytes
  dsimp only
  repeat' split
  all_goals omega

theorem classEnd?_pos {places : List (Nat × Char)} {length : Nat}
    (closed : classEnd? places = some length) : 0 < length := by
  fun_induction classEnd? places with
  | case1 | case2 => simp at closed
  | case3 _ _ _ ih | case5 _ _ _ _ _ ih => exact ih closed
  | case4 place =>
    obtain rfl : place + 1 = length := Option.some.inj closed
    exact place.succ_pos

theorem braceBytes_pos (rest : String) : 0 < braceBytes rest := by
  unfold braceBytes
  dsimp only
  repeat' split
  all_goals omega

theorem scan_pos {rest : String} {position : Nat} {scanned : Scanned} (some : rest ≠ "")
    (read : scan rest position = .ok scanned) : 0 < scanned.length := by
  have opener := openerBytes_pos some
  have comment := bytesThrough_pos some '\n'
  have brace := braceBytes_pos rest
  have closed (length : Nat) (found : classBytes? rest = .some length) : 0 < length :=
    classEnd?_pos found
  have width (c : Char) := c.utf8Size_pos
  cases chars : rest.toList with
  | nil => simp_all
  | cons first more =>
    simp only [scan, chars, List.head?_cons] at read
    repeat' split at read
    all_goals cases read
    all_goals
      simp only [Scanned.length]
      grind

/-- The tokens from byte `position` on. Where a length does not end between two characters, the
loop would stop there and keep nothing. -/
def tokensFrom (expression : String) (position : Nat) : Except GrammarError (List Token) :=
  match _ : Text.from? expression position with
  | none => .ok []
  | some rest =>
    if _ : rest = "" then .ok []
    else
      match _ : scan rest position with
      | .error error => .error error
      | .ok (.skip length) => tokensFrom expression (position + length)
      | .ok (.keep length) =>
        match Text.before? rest length with
        | none => tokensFrom expression (position + length)
        | some text => (tokensFrom expression (position + length)).map (⟨text, position⟩ :: ·)
termination_by Text.byteLength expression.toList - position
decreasing_by
  all_goals
    have moves := scan_pos ‹_› ‹scan rest position = _›
    have inside := Text.lt_of_from? ‹Text.from? expression position = _› ‹_›
    simp only [Scanned.length] at moves
    omega

end Token

def tokenize (expression : String) : Except GrammarError (List Token) :=
  Token.tokensFrom expression 0

end LineGrammar
