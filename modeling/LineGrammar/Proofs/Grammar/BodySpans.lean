import LineGrammar.Proofs.Grammar.Body

/-! The positions that the pattern of a body connects. Numbering groups anew moves no positions, so
bodies put together connect what their parts connect. -/

namespace LineGrammar.Body

open Pattern

def Spans (input : Array Char) (body : Body) (i j : Nat) : Prop :=
  body.pattern.Spans input .forward i j

variable {input : Array Char} {body first second : Body} {bodies : List Body} {i j : Nat}

@[simp] theorem spans_empty : empty.Spans input i j ↔ i = j := Iff.rfl

theorem spans_append :
    (first.append second).Spans input i j ↔
      ∃ k, first.Spans input i k ∧ second.Spans input k j := by
  have shifted {k : Nat} :
      (ofTerms (second.terms.map (shift first.names.length))).Spans input .forward k j ↔
        second.Spans input k j := by
    rw [← shift_ofTerms, spans_shift]
    rfl
  rw [Spans, Body.pattern, append, spans_ofTerms_append]
  simp only [shifted]
  rfl

theorem spans_concat_cons :
    (concat (body :: bodies)).Spans input i j ↔
      ∃ k, body.Spans input i k ∧ (concat bodies).Spans input k j :=
  spans_append

theorem exists_branches {bodies : List Body} :
    (∃ branch ∈ branches bodies, branch.Spans input .forward i j) ↔
      ∃ body ∈ bodies, body.Spans input i j := by
  induction bodies with
  | nil => simp [branches]
  | cons body rest ih =>
    simp only [branches, List.mem_cons, exists_eq_or_imp, List.mem_map, exists_exists_and_eq_and,
      spans_shift, ih]
    rfl

theorem spans_choice (some : bodies ≠ []) :
    (choice bodies).Spans input i j ↔ ∃ body ∈ bodies, body.Spans input i j := by
  have branched : branches bodies ≠ [] := by
    cases bodies with
    | nil => exact absurd rfl some
    | cons body rest => simp [branches]
  rw [← exists_branches]
  exact spans_ofBranches branched

theorem spans_repeated {sign : List Char} {repetition : Repetition} :
    (body.repeated sign repetition).Spans input i j ↔
      ∃ further, repetition.AllowsFurther further ∧
        Steps (body.Spans input) (repetition.min + further) i j := Iff.rfl

theorem spans_capture {name : String} :
    (body.capture name).Spans input i j ↔ body.Spans input i j :=
  spans_shift

theorem spans_look {negated : Bool} :
    (body.look .forward negated).Spans input i j ↔
      i = j ∧ (negated = true ↔ ¬∃ k, body.Spans input i k) := Iff.rfl

end LineGrammar.Body
