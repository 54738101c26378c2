import LineGrammar.Proofs.Expression.Scanning
import LineGrammar.Proofs.Outcome
import LineGrammar.Proofs.Pattern.ClassText

/-! The leaf tokens of expressions. Apart from classes a leaf is a single character or an escape of
one character; braces and groups with more in them never become leaves. -/

namespace LineGrammar

open Pattern

namespace Token

def roleChars : List Char := ['(', ')', '*', '+', '?', '{', '|', '\\', '[']

/-- The texts of leaf tokens. -/
inductive IsLeafText : List Char → Prop
  | plain (c : Char) (free : c ∉ roleChars) : IsLeafText [c]
  | brace : IsLeafText ['{']
  | escape (c : Char) : IsLeafText ['\\', c]
  | charClass (inside : List Char) (closes : isClassText inside = true) :
      IsLeafText ('[' :: (inside ++ [']']))

theorem take_of_classLength? {cs : List Char} {length : Nat}
    (found : classLength? cs = some length) :
    ∃ inside, isClassText inside = true ∧ cs.take length = inside ++ [']'] := by
  induction cs using classLength?.induct generalizing length with
  | case1 => simp [classLength?] at found
  | case2 rest =>
    rw [classLength?.eq_def] at found
    obtain rfl : 1 = length := by simpa using found
    exact ⟨[], rfl, by simp⟩
  | case3 => simp [classLength?] at found
  | case4 e more _ ih =>
    obtain ⟨shorter, found', rfl⟩ : ∃ n, classLength? more = some n ∧ n + 2 = length := by
      simpa [classLength?] using found
    obtain ⟨inside, closes, taken⟩ := ih found'
    exact ⟨'\\' :: e :: inside, by rwa [isClassText_escape], by simp [taken]⟩
  | case5 c rest notClosing notEscape ih =>
    obtain ⟨shorter, found', rfl⟩ : ∃ n, classLength? rest = some n ∧ n + 1 = length := by
      rw [classLength?.eq_def] at found
      simpa [notClosing, notEscape] using found
    obtain ⟨inside, closes, taken⟩ := ih found'
    exact ⟨c :: inside, by rwa [isClassText_cons ⟨notEscape, notClosing⟩], by simp [taken]⟩

theorem role_of_group (cs : List Char) (position : Nat) :
    role ⟨String.ofList ('(' :: '?' :: cs), position⟩ ≠ .leaf := by
  simp only [role, String.toList_ofList, List.isPrefixOf]
  iterate 8 rw [if_neg (by simp)]
  split
  · simp
  · split
    · simp
    · split
      · split <;> simp
      · simp

theorem role_of_quantifier {c : Char} (sign : c = '*' ∨ c = '+' ∨ c = '?') {mark : List Char}
    (known : mark = [] ∨ mark = ['?']) (position : Nat) :
    role ⟨String.ofList (c :: mark), position⟩ ≠ .leaf := by
  rcases sign with rfl | rfl | rfl <;> rcases known with rfl | rfl <;> simp [role]

theorem role_of_braced {inside : List Char} (some : inside ≠ []) (position : Nat) :
    role ⟨String.ofList ('{' :: inside), position⟩ ≠ .leaf := by
  have longer : 0 < inside.length := List.length_pos_iff.mpr some
  simp [role, List.isPrefixOf, longer]

section

variable {c : Char} {rest : List Char} {more position : Nat}

theorem role_of_parenthesis (found : piece '(' rest = .ok (.token more)) (position : Nat) :
    role ⟨String.ofList ('(' :: rest.take more), position⟩ ≠ .leaf := by
  by_cases marked : rest.head? = some '?'
  · obtain ⟨tail, rfl⟩ := List.head?_eq_some_iff.mp marked
    obtain rfl : openerLength tail + 1 = more := by simpa [piece] using found
    exact role_of_group _ position
  · obtain rfl : 0 = more := by simpa [piece, marked] using found
    simp [role]

theorem role_of_sign (sign : c = '*' ∨ c = '+' ∨ c = '?')
    (found : piece c rest = .ok (.token more)) (position : Nat) :
    role ⟨String.ofList (c :: rest.take more), position⟩ ≠ .leaf := by
  have other : c ≠ '(' := by rcases sign with rfl | rfl | rfl <;> simp
  by_cases marked : rest.head? = some '?'
  · obtain ⟨tail, rfl⟩ := List.head?_eq_some_iff.mp marked
    obtain rfl : 1 = more := by simpa [piece, other, sign] using found
    exact role_of_quantifier sign (.inr (by simp)) position
  · obtain rfl : 0 = more := by simpa [piece, other, sign, marked] using found
    exact role_of_quantifier sign (.inl (by simp)) position

theorem isLeafText_of_brace
    (leaf : role ⟨String.ofList ('{' :: rest.take more), position⟩ = .leaf) :
    IsLeafText ('{' :: rest.take more) := by
  by_cases none : rest.take more = []
  · rw [none]
    exact .brace
  · exact absurd leaf (role_of_braced none position)

theorem isLeafText_of_backslash (found : piece '\\' rest = .ok (.token more)) :
    IsLeafText ('\\' :: rest.take more) := by
  cases rest with
  | nil => simp [piece] at found
  | cons e later =>
    obtain rfl : 1 = more := by simpa [piece] using found
    exact .escape e

theorem isLeafText_of_bracket (found : piece '[' rest = .ok (.token more)) :
    IsLeafText ('[' :: rest.take more) := by
  cases measured : classLength? rest with
  | none => simp [piece, measured] at found
  | some length =>
    obtain rfl : length = more := by simpa [piece, measured] using found
    obtain ⟨inside, closes, taken⟩ := take_of_classLength? measured
    rw [taken]
    exact .charClass inside closes

theorem eq_zero_of_piece (alone : c ∈ [')', '|'] ∨ c ∉ roleChars)
    (found : piece c rest = .ok (.token more)) : more = 0 := by
  have single : c ∉ ['(', '*', '+', '?', '{', '\\', '['] := by
    rcases alone with mem | free
    · simp only [List.mem_cons, List.not_mem_nil, or_false] at mem
      rcases mem with rfl | rfl <;> decide
    · simp_all [roleChars]
  simp only [List.mem_cons, List.not_mem_nil, or_false, not_or] at single
  simp only [piece, single, if_false, or_self] at found
  repeat' split at found
  all_goals simp_all

theorem isLeafText_of_piece (found : piece c rest = .ok (.token more))
    (leaf : role ⟨String.ofList (c :: rest.take more), position⟩ = .leaf) :
    IsLeafText (c :: rest.take more) := by
  by_cases free : c ∉ roleChars
  · rw [eq_zero_of_piece (.inr free) found]
    exact .plain c free
  simp only [roleChars, List.mem_cons, List.not_mem_nil, or_false, not_not] at free
  rcases free with rfl | rfl | rfl | rfl | rfl | rfl | rfl | rfl | rfl
  · exact absurd leaf (role_of_parenthesis found position)
  · rw [eq_zero_of_piece (.inl (by simp)) found] at leaf
    simp [role] at leaf
  · exact absurd leaf (role_of_sign (.inl rfl) found position)
  · exact absurd leaf (role_of_sign (.inr (.inl rfl)) found position)
  · exact absurd leaf (role_of_sign (.inr (.inr rfl)) found position)
  · exact isLeafText_of_brace leaf
  · rw [eq_zero_of_piece (.inl (by simp)) found] at leaf
    simp [role] at leaf
  · exact isLeafText_of_backslash found
  · exact isLeafText_of_bracket found

end

/-- How a text that starts at a byte falls into tokens, with gaps between them. -/
inductive Falls : Nat → List Char → List Token → Prop
  | nil (position : Nat) : Falls position [] []
  | token {position more : Nat} {c : Char} {rest : List Char} {later : List Token}
    (found : piece c rest = .ok (.token more))
    (behind : Falls (position + Text.byteLength (c :: rest.take more)) (rest.drop more) later) :
    Falls position (c :: rest) (⟨String.ofList (c :: rest.take more), position⟩ :: later)
  | gap {position more : Nat} {c : Char} {rest : List Char} {tokens : List Token}
    (found : piece c rest = .ok (.gap more))
    (behind : Falls (position + Text.byteLength (c :: rest.take more)) (rest.drop more) tokens) :
    Falls position (c :: rest) tokens

variable {position : Nat} {cs : List Char} {tokens : List Token}

theorem falls_of_ofCharsFrom (split : ofCharsFrom position cs = .ok tokens) :
    Falls position cs tokens := by
  induction position, cs using ofCharsFrom.induct generalizing tokens with
  | case1 position =>
    rw [ofCharsFrom] at split
    obtain rfl := Except.ok.inj split
    exact .nil position
  | case2 position c rest cause found =>
    rw [ofCharsFrom, found] at split
    cases split
  | case3 position c rest more found text =>
    rename_i ih
    rw [ofCharsFrom, found] at split
    obtain ⟨later, split', rfl⟩ := map_eq_ok.mp split
    exact .token found (ih split')
  | case4 position c rest more found ih =>
    rw [ofCharsFrom, found] at split
    exact .gap found (ih split)

theorem mem_ofCharsFrom (split : ofCharsFrom position cs = .ok tokens) {token : Token}
    (mem : token ∈ tokens) :
    ∃ c rest more, piece c rest = .ok (.token more) ∧
      token.text = String.ofList (c :: rest.take more) := by
  replace split := falls_of_ofCharsFrom split
  induction split with
  | nil => simp at mem
  | @token _ more c rest _ found _ ih =>
    rcases List.mem_cons.mp mem with rfl | below
    · exact ⟨c, rest, more, found, rfl⟩
    · exact ih below
  | gap _ _ ih => exact ih mem

end Token

namespace Leaf

/-- Some expression has the text as a token, and the token is accepted as a leaf. -/
def IsToken (text : String) : Prop :=
  ∃ expression tokens, tokenize expression = .ok tokens ∧
    ∃ token ∈ tokens, token.text = text ∧ token.role = .leaf ∧ ∃ source, native text = .ok source

/-- The beginnings of a numeric escape; what follows them would become part of it. -/
def IsBareEscape (text : String) : Prop := text = "\\x" ∨ text = "\\u"

def zeroWidth : List String := ["^", "$", "\\A", "\\Z", "\\b", "\\B"]

theorem isToken_of_alone (text source : String)
    (alone : Token.ofCharsFrom 0 text.toList = .ok [⟨text, 0⟩])
    (leaf : Token.role ⟨text, 0⟩ = .leaf) (lowered : native text = .ok source) : IsToken text :=
  ⟨text, [⟨text, 0⟩], (Token.tokenize_eq text).trans alone, ⟨text, 0⟩, List.mem_singleton_self _,
    rfl, leaf, source, lowered⟩

theorem IsToken.isLeafText {text : String} (isToken : IsToken text) :
    Token.IsLeafText text.toList := by
  obtain ⟨expression, tokens, split, ⟨tokenText, position⟩, mem, rfl, leaf, -⟩ := isToken
  rw [Token.tokenize_eq] at split
  obtain ⟨c, rest, more, found, spelled⟩ := Token.mem_ofCharsFrom split mem
  obtain rfl : tokenText = _ := spelled
  rw [String.toList_ofList]
  exact Token.isLeafText_of_piece found leaf

end Leaf

end LineGrammar
