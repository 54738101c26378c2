import LineGrammar.Proofs.Grammar.BodySpans
import LineGrammar.Proofs.Tree.Bodies
import LineGrammar.Proofs.Tree.Language

/-! The body of a whole tree connects exactly the positions that the tree relates. -/

namespace LineGrammar

open Pattern

theorem Leaf.relates_iff_spans {input : Array Char} {text : String} {i j : Nat} :
    Leaf.Relates input text i j ↔ (Body.ofLeaf text).Spans input i j := by
  cases lowered : Leaf.native text with
  | error error =>
    have leaf : Body.ofLeaf text = .single [] Body.nowhere := by simp only [Body.ofLeaf, lowered]
    rw [leaf]
    refine iff_of_false ?_ (Body.not_spans_nowhere input i j)
    rintro ⟨source, pattern, lowered', -⟩
    simp [lowered] at lowered'
  | ok source =>
    cases read : Pattern.read source with
    | error fault =>
      have leaf : Body.ofLeaf text = .single source.toList Body.nowhere := by
        simp only [Body.ofLeaf, lowered, read]
      rw [leaf]
      refine iff_of_false ?_ (Body.not_spans_nowhere input i j)
      rintro ⟨source', pattern, lowered', read', -⟩
      obtain rfl : source = source' := Except.ok.inj (lowered.symm.trans lowered')
      simp [read] at read'
    | ok term =>
      have leaf : Body.ofLeaf text = .single source.toList term := by
        simp only [Body.ofLeaf, lowered, read]
      rw [leaf]
      exact Leaf.relates_iff lowered read

theorem Leaf.relates_character {input : Array Char} {text : String} {i j : Nat} (source : String)
    (c : Char) (lowered : native text = .ok source)
    (read : Pattern.read source = .ok (.one (.single c.toNat false))) :
    Relates input text i j ↔ input[i]? = some c ∧ j = i + 1 := by
  rw [relates_iff lowered read, takes_one (.single c.toNat false) input i j]
  simp only [CodeSet.contains_single, decide_eq_true_eq]
  constructor
  · rintro ⟨other, here, same, stop⟩
    obtain rfl := Char.toNat_inj.mp same
    exact ⟨here, stop⟩
  · rintro ⟨here, stop⟩
    exact ⟨c, here, rfl, stop⟩

namespace Tree

variable {input : Array Char}

theorem spans_wholeBodies {parts : List Tree}
    (each : ∀ part ∈ parts, ∀ i j, part.wholeBody.Spans input i j ↔ part.Relates input i j)
    {i j : Nat} :
    (Body.concat (wholeBodies parts)).Spans input i j ↔ RelatesAll input parts i j := by
  induction parts generalizing i with
  | nil => rfl
  | cons part rest ih =>
    rw [wholeBodies, Body.spans_concat_cons, RelatesAll]
    have later := fun k => @ih (fun part mem => each part (List.mem_cons_of_mem _ mem)) k
    simp only [each part List.mem_cons_self, later]

theorem spans_wholeBody {tree : Tree} (wellFormed : tree.WellFormed) {i j : Nat} :
    tree.wholeBody.Spans input i j ↔ tree.Relates input i j := by
  induction tree generalizing i j with
  | choice branches ih =>
    have each : ∀ branch ∈ branches,
        (branch.wholeBody.Spans input i j ↔ branch.Relates input i j) := fun branch mem =>
      ih branch mem (wellFormed.subtree (branch_mem_subtrees mem))
    have some : branches.map wholeBody ≠ [] := by
      intro none
      obtain rfl := List.map_eq_nil_iff.mp none
      exact wellFormed.branches (self_mem_subtrees _)
    rw [wholeBody, wholeBodies_eq, Body.spans_choice some, Relates, relatesAny_iff]
    simp only [List.mem_map, exists_exists_and_eq_and]
    exact exists_congr fun branch => and_congr_right fun mem => each branch mem
  | sequence parts ih =>
    exact spans_wholeBodies fun part mem i j =>
      ih part mem (wellFormed.subtree (part_mem_subtrees mem))
  | leaf text => exact Leaf.relates_iff_spans.symm
  | look negated body ih =>
    have inner := fun k => @ih (wellFormed.subtree look_body_mem_subtrees) i k
    rw [wholeBody, Body.spans_look, Relates]
    simp only [inner]
  | named name body ih =>
    rw [wholeBody, Body.spans_capture, Relates]
    exact ih (wellFormed.subtree variable_body_mem_subtrees)
  | repeated body repetition ih =>
    have bounds := wellFormed.bounds body repetition (self_mem_subtrees _)
    have inner := fun i j => @ih (wellFormed.subtree repeated_body_mem_subtrees) i j
    rw [wholeBody, Body.spans_repeated, Relates]
    constructor
    · rintro ⟨further, allowed, steps⟩
      exact ⟨_, (Repetition.allows_iff bounds.isReversed).mpr ⟨further, allowed, rfl⟩,
        (Steps.congr inner).mp steps⟩
    · rintro ⟨count, allowed, steps⟩
      obtain ⟨further, allowed', rfl⟩ := (Repetition.allows_iff bounds.isReversed).mp allowed
      exact ⟨further, allowed', (Steps.congr inner).mpr steps⟩

end Tree

end LineGrammar
