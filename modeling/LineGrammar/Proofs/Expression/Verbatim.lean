import LineGrammar.Proofs.Expression.RoundTrip
import LineGrammar.Proofs.Grammar.Literals

/-! Literals written as expressions. A literal escapes what has a meaning in patterns, but white
space and the sign that begins a comment have a meaning in expressions alone, so they are written
as they are and skipped when the expression is read. What is left is again a literal. -/

namespace LineGrammar

open Token

namespace Text

/-- What is left of a text without white space and comments, which run from a `#` through the end of
the line. -/
def legible : List Char → List Char
  | [] => []
  | c :: rest =>
    if c = '#' then legible (rest.dropWhile (· ≠ '\n')).tail
    else if isBlank c then legible rest
    else c :: legible rest
termination_by cs => cs.length
decreasing_by
  · have := (rest.dropWhile_suffix (· ≠ '\n')).length_le
    simp only [List.length_tail, List.length_cons]
    omega
  all_goals simp

theorem length_legible_le (cs : List Char) : (legible cs).length ≤ cs.length := by
  fun_induction legible cs with
  | case1 => exact Nat.le_refl _
  | case2 rest ih =>
    have := (rest.dropWhile_suffix (· ≠ '\n')).length_le
    simp only [List.length_tail, List.length_cons] at ih ⊢
    omega
  | case3 c rest _ _ ih | case4 c rest _ _ ih =>
    simp only [List.length_cons]
    omega

theorem legible_eq_self_iff (cs : List Char) :
    legible cs = cs ↔ ∀ c ∈ cs, c ≠ '#' ∧ isBlank c = false := by
  induction cs with
  | nil => simp [legible]
  | cons c rest ih =>
    rw [List.forall_mem_cons, ← ih, legible]
    by_cases comment : c = '#'
    · have shorter := length_legible_le (rest.dropWhile (· ≠ '\n')).tail
      have := (rest.dropWhile_suffix (· ≠ '\n')).length_le
      rw [if_pos comment]
      refine iff_of_false (fun same => ?_) fun both => both.1.1 comment
      have := congrArg List.length same
      simp only [List.length_tail, List.length_cons] at shorter this
      omega
    · rw [if_neg comment]
      by_cases blank : isBlank c = true
      · have shorter := length_legible_le rest
        rw [if_pos blank]
        refine iff_of_false (fun same => ?_) fun both => by simp [blank] at both
        have := congrArg List.length same
        simp only [List.length_cons] at this
        omega
      · simp [comment, blank]

end Text

namespace Leaf

def written (cs : List Char) : List Char := cs.flatMap fun c => (verbatim c).toList

variable {c : Char}

theorem toList_verbatim_plain (plain : c ∉ patternChars) : (verbatim c).toList = [c] := by
  simp [verbatim, plain]

theorem toList_verbatim_special (special : c ∈ patternChars) :
    (verbatim c).toList = ['\\', c] := by
  simp [verbatim, special]

theorem written_cons (c : Char) (rest : List Char) :
    written (c :: rest) = (verbatim c).toList ++ written rest := List.flatMap_cons

theorem not_mem_patternChars_of_isBlank (blank : Text.isBlank c = true) : c ∉ patternChars := by
  have all : ∀ d ∈ patternChars, Text.isBlank d = false := by
    simp [patternChars, Text.isBlank, Text.isSharedSpace]
  intro special
  rw [all c special] at blank
  contradiction

theorem written_dropWhile (cs : List Char) :
    (written cs).dropWhile (· ≠ '\n') = written (cs.dropWhile (· ≠ '\n')) := by
  induction cs with
  | nil => rfl
  | cons c rest ih =>
    rw [written_cons]
    by_cases ends : c = '\n'
    · subst ends
      rw [toList_verbatim_plain (by decide)]
      simp [written_cons, toList_verbatim_plain (c := '\n') (by decide)]
    · rw [List.dropWhile_cons_of_pos (by simpa using ends), ← ih, List.dropWhile_append]
      by_cases special : c ∈ patternChars
      · simp [toList_verbatim_special special, ends]
      · simp [toList_verbatim_plain special, ends]

theorem tail_written_dropWhile (cs : List Char) :
    ((written cs).dropWhile (· ≠ '\n')).tail = written (cs.dropWhile (· ≠ '\n')).tail := by
  rw [written_dropWhile]
  have first := List.head?_dropWhile_not (· ≠ '\n') cs
  cases rest : cs.dropWhile (· ≠ '\n') with
  | nil => rfl
  | cons c later =>
    rw [rest] at first
    obtain rfl : c = '\n' := by simpa using first
    rw [written_cons, toList_verbatim_plain (by decide)]
    rfl

theorem isLeaf_verbatim (unskipped : c ≠ '#' ∧ Text.isBlank c = false) : IsLeaf (verbatim c) := by
  unfold IsLeaf
  by_cases special : c ∈ patternChars
  · rw [toList_verbatim_special special]
    refine ⟨.escape c, fun d head => ?_⟩
    obtain rfl : '\\' = d := by simpa using head
    decide
  · rw [toList_verbatim_plain special]
    have known : roleChars ⊆ patternChars := by decide
    refine ⟨.plain c fun role => special (known role), fun d head => ?_⟩
    obtain rfl : c = d := by simpa using head
    exact unskipped

theorem isOperand_verbatim (c : Char) : Phrase.IsOperand (verbatim c) := by
  unfold Phrase.IsOperand
  simp only [List.mem_cons, List.not_mem_nil, or_false, ← String.toList_inj]
  by_cases special : c ∈ patternChars
  · simp [toList_verbatim_special special]
  · rw [toList_verbatim_plain special]
    simp only [patternChars, List.mem_cons, List.not_mem_nil, or_false, not_or] at special
    simp [special]

theorem stands_verbatim (unskipped : c ≠ '#' ∧ Text.isBlank c = false) (rest : List Char) :
    Token.Stands (verbatim c) rest := by
  refine (isLeaf_verbatim unskipped).stands fun brace => ?_
  have spelled := congrArg String.toList brace
  by_cases special : c ∈ patternChars
  · simp [toList_verbatim_special special] at spelled
  · rw [toList_verbatim_plain special] at spelled
    obtain rfl : c = '{' := by simpa using spelled
    exact absurd (by decide) special

end Leaf

namespace Token

theorem exists_ofCharsFrom_written (cs : List Char) (position : Nat) :
    ∃ tokens, ofCharsFrom position (Leaf.written cs) = .ok tokens ∧
      tokens.map (·.text) = (Text.legible cs).map Leaf.verbatim := by
  fun_induction Text.legible cs generalizing position with
  | case1 => exact ⟨[], by rw [Leaf.written, List.flatMap_nil, ofCharsFrom], rfl⟩
  | case2 rest ih =>
    have found (rest : List Char) :
        piece '#' rest = .ok (.gap ((rest.takeWhile (· ≠ '\n')).length + 1)) := by simp [piece]
    have behind : (Leaf.written rest).drop (((Leaf.written rest).takeWhile (· ≠ '\n')).length + 1) =
        Leaf.written (rest.dropWhile (· ≠ '\n')).tail := by
      have line := congrArg (List.drop ((Leaf.written rest).takeWhile (· ≠ '\n')).length)
        (List.takeWhile_append_dropWhile (p := (· ≠ '\n')) (l := Leaf.written rest))
      rw [List.drop_left] at line
      rw [← Leaf.tail_written_dropWhile, ← List.drop_one, ← List.drop_drop, ← line]
    obtain ⟨tokens, split, same⟩ := ih _
    refine ⟨tokens, ?_, same⟩
    rw [Leaf.written_cons, Leaf.toList_verbatim_plain (by decide), List.singleton_append,
      ofCharsFrom, found]
    simp only [behind]
    exact split
  | case3 c rest _ blank ih =>
    obtain ⟨tokens, split, same⟩ := ih _
    refine ⟨tokens, ?_, same⟩
    rw [Leaf.written_cons,
      Leaf.toList_verbatim_plain (Leaf.not_mem_patternChars_of_isBlank blank),
      List.singleton_append, ofCharsFrom, piece_of_isBlank blank]
    exact split
  | case4 c rest notComment notBlank ih =>
    obtain ⟨tokens, split, same⟩ := ih (position + Text.byteLength (Leaf.verbatim c).toList)
    have stands := Leaf.stands_verbatim ⟨notComment, by simpa using notBlank⟩ (Leaf.written rest)
    refine ⟨⟨Leaf.verbatim c, position⟩ :: tokens, ?_, by simp [same]⟩
    rw [Leaf.written_cons, stands.ofCharsFrom, split]
    rfl

end Token

namespace Tree

theorem toList_render_literal (text : String) :
    (literal text).render.toList = Leaf.written text.toList := by
  have spelled : spellings (text.toList.map literalChar) =
      text.toList.map fun c => [Leaf.verbatim c] := by
    rw [spellings_eq, List.map_map]
    rfl
  rw [← flatMap_spelling, literal, spelling_ofParts, spelled, ← List.flatMap_def]
  simp [Leaf.written, List.flatMap_assoc]

theorem sequence_verbatim (cs : List Char) :
    Phrase.Sequence (cs.map Leaf.verbatim) (cs.map literalChar) := by
  induction cs with
  | nil => exact .nil
  | cons c rest ih =>
    exact .cons (.atom (.leaf (Leaf.isOperand_verbatim c) (Leaf.native_verbatim c))) ih

theorem ofExpression_render_literal (text : String) :
    ofExpression (literal text).render =
      .ok (literal (String.ofList (Text.legible text.toList))) := by
  obtain ⟨tokens, split, same⟩ := Token.exists_ofCharsFrom_written text.toList 0
  have phrase : Phrase.Expression (tokens.map (·.text))
      (literal (String.ofList (Text.legible text.toList))) := by
    rw [same, literal, String.toList_ofList]
    exact ⟨_, .last (sequence_verbatim _), rfl⟩
  rw [← toList_render_literal] at split
  rw [ofExpression_eq]
  exact bind_eq_ok.mpr ⟨tokens, split, phrase.ofTokens⟩

end Tree

namespace Grammar

/-- Every literal is rendered to an expression that becomes a grammar. It matches what is left of
the text without white space and comments, and so the text itself just if it has neither white space
nor a sign that begins a comment. -/
theorem exists_ofExpression_literal (text : String)
    (escapes unescapes : Registry (String → String)) :
    ∃ grammar, ofExpression (Tree.literal text).render escapes unescapes = .ok grammar ∧
      (∀ input : String, (grammar.matchWhole? input).isSome = true ↔
        input.toList = Text.legible text.toList) ∧
      ((∀ input : String, (grammar.matchWhole? input).isSome = true ↔ input = text) ↔
        ∀ c ∈ text.toList, c ≠ '#' ∧ Text.isBlank c = false) := by
  obtain ⟨grammar, compiled⟩ := exists_ofTree_of_readable
    (Tree.lowerable_literal (String.ofList (Text.legible text.toList)))
    (Tree.readable_literal _) escapes unescapes
  have read := Tree.ofExpression_render_literal text
  have matched (input : String) : (grammar.matchWhole? input).isSome = true ↔
      input.toList = Text.legible text.toList := by
    rw [(compiles_of_ofTree compiled).isSome_matchWhole?_literal, ← String.toList_inj,
      String.toList_ofList]
  refine ⟨grammar, bind_eq_ok.mpr ⟨_, read, compiled⟩, matched, ?_⟩
  rw [← Text.legible_eq_self_iff]
  constructor
  · intro alone
    exact ((matched text).mp ((alone text).mpr rfl)).symm
  · intro same input
    rw [matched, same, String.toList_inj]

/-- The space and the comment sign of the literal are skipped. -/
theorem exists_ofExpression_spaced :
    ∃ grammar, ofExpression (Tree.literal "a #").render [] [] = .ok grammar ∧
      (grammar.matchWhole? "a #").isSome = false ∧ (grammar.matchWhole? "a").isSome = true := by
  have run : (ofExpression (Tree.literal "a #").render [] [] >>= fun grammar =>
      .ok ((grammar.matchWhole? "a #").isSome, (grammar.matchWhole? "a").isSome)) =
      .ok (false, true) := by
    rw [ofExpression, Tree.ofExpression_eq]
    cbv
  obtain ⟨grammar, made, result⟩ := bind_eq_ok.mp run
  obtain ⟨other, alone⟩ := Prod.mk.inj (Except.ok.inj result)
  exact ⟨grammar, made, other, alone⟩

end Grammar

end LineGrammar
