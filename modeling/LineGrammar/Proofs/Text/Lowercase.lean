import LineGrammar.Text.Lowercase
import Mathlib

/-! Lower case of the beginnings of a text. What stands behind a beginning matters to its lower case
in one place only: a capital sigma that ends a word where the text stops is lowered to another
letter as soon as the word goes on. -/

namespace LineGrammar.Text

theorem reachesCased_append (cs more : List Char) :
    reachesCased (cs ++ more) =
      if cs.all isCaseIgnorable then reachesCased more else reachesCased cs := by
  unfold reachesCased
  rw [List.dropWhile_append]
  by_cases skipped : cs.all isCaseIgnorable = true
  · have nothing : cs.dropWhile isCaseIgnorable = [] := by
      simpa [List.dropWhile_eq_nil_iff] using skipped
    simp [skipped, nothing]
  · cases rest : cs.dropWhile isCaseIgnorable with
    | nil => exact absurd (by simpa [List.dropWhile_eq_nil_iff] using rest) skipped
    | cons c later => simp [skipped]

/-- The lower case of a text, of which it is known whether the characters behind it reach a letter
that has case. -/
def lowerBefore (cased : Bool) (before : List Char) : List Char → List Char
  | [] => []
  | c :: rest =>
    (if c == 'Σ' then
      if reachesCased before && !(if rest.all isCaseIgnorable then cased else reachesCased rest)
      then ['ς'] else ['σ']
    else lowerChar c) ++ lowerBefore cased (c :: before) rest

theorem lowerFrom_append (before text more : List Char) :
    lowerFrom before (text ++ more) =
      lowerBefore (reachesCased more) before text ++ lowerFrom (text.reverse ++ before) more := by
  induction text generalizing before with
  | nil => rfl
  | cons c rest ih =>
    rw [List.cons_append, lowerFrom, lowerBefore, ih, reachesCased_append]
    simp

theorem lowerFrom_eq (before text : List Char) :
    lowerFrom before text = lowerBefore false before text := by
  have alone := lowerFrom_append before text []
  rwa [List.append_nil, lowerFrom, List.append_nil] at alone

theorem length_lowerBefore (cased : Bool) (before text : List Char) :
    (lowerBefore cased before text).length = (lowerBefore false before text).length := by
  induction text generalizing before with
  | nil => rfl
  | cons c rest ih =>
    rw [lowerBefore, lowerBefore, List.length_append, List.length_append, ih]
    split_ifs <;> rfl

/-- A capital sigma behind a letter that has case, with nothing but skipped characters up to the end
of the text. -/
def EndsInSigma (before text : List Char) : Prop :=
  ∃ front skipped, text = front ++ 'Σ' :: skipped ∧ skipped.all isCaseIgnorable = true ∧
    reachesCased (front.reverse ++ before) = true

theorem not_endsInSigma_nil (before : List Char) : ¬EndsInSigma before [] := by
  rintro ⟨front, skipped, split, -⟩
  simp at split

theorem endsInSigma_cons {before rest : List Char} {c : Char} :
    EndsInSigma before (c :: rest) ↔
      c = 'Σ' ∧ rest.all isCaseIgnorable = true ∧ reachesCased before = true ∨
        EndsInSigma (c :: before) rest := by
  constructor
  · rintro ⟨front, skipped, split, ignorable, cased⟩
    cases front with
    | nil =>
      obtain ⟨rfl, rfl⟩ := List.cons.inj split
      exact .inl ⟨rfl, ignorable, cased⟩
    | cons d front =>
      obtain ⟨rfl, rfl⟩ := List.cons.inj split
      exact .inr ⟨front, skipped, rfl, ignorable, by simpa using cased⟩
  · rintro (⟨rfl, ignorable, cased⟩ | ⟨front, skipped, rfl, ignorable, cased⟩)
    · exact ⟨[], rest, rfl, ignorable, cased⟩
    · exact ⟨c :: front, skipped, rfl, ignorable, by simpa using cased⟩

theorem lowerBefore_eq_iff {before text : List Char} :
    lowerBefore true before text = lowerBefore false before text ↔ ¬EndsInSigma before text := by
  induction text generalizing before with
  | nil => simpa [lowerBefore] using not_endsInSigma_nil before
  | cons c rest ih =>
    rw [endsInSigma_cons, not_or, ← ih, lowerBefore, lowerBefore,
      List.append_eq_append_iff_of_size_eq_right (length_lowerBefore true (c :: before) rest)]
    refine and_congr_left fun _ => ?_
    by_cases sigma : c = 'Σ'
    · by_cases skipped : rest.all isCaseIgnorable = true
      · cases reachesCased before <;> simp [sigma, skipped]
      · simp [sigma, skipped]
    · simp [sigma]

theorem lowerFrom_prefix_iff {text more : List Char} :
    lowerFrom [] text <+: lowerFrom [] (text ++ more) ↔
      ¬(EndsInSigma [] text ∧ reachesCased more = true) := by
  rw [lowerFrom_append, lowerFrom_eq]
  cases cased : reachesCased more with
  | false => simp
  | true =>
    have length := length_lowerBefore true [] text
    rw [and_iff_left rfl, ← lowerBefore_eq_iff]
    constructor
    · intro begins
      have whole := List.prefix_of_prefix_length_le begins (List.prefix_append _ _) length.ge
      exact (whole.eq_of_length length.symm).symm
    · intro same
      rw [same]
      exact List.prefix_append _ _

end LineGrammar.Text
