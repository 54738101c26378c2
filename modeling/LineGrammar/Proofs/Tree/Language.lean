import LineGrammar.Pattern.Matching
import LineGrammar.Proofs.Pattern.Spans
import LineGrammar.Proofs.Tree.Basic

/-! The language of a tree, as a relation between places in a text: the tree relates the place
where one of its sentences starts to the place where it ends. Only a leaf is handed to the
matcher, alone; all other nodes combine the relations of the trees below them. -/

namespace LineGrammar

/-- The leaf's own pattern, run from `i` on its own, can stop at `j`. -/
def Leaf.Relates (input : Array Char) (text : String) (i j : Nat) : Prop :=
  ∃ source pattern, native text = .ok source ∧ Pattern.read source = .ok pattern ∧
    (pattern.matcher input .forward ⟨i, []⟩ fun reached =>
      if reached.position = j then some reached else none).isSome = true

theorem Leaf.relates_iff {input : Array Char} {text source : String} {pattern : Pattern}
    {i j : Nat} (lowered : native text = .ok source) (read : Pattern.read source = .ok pattern) :
    Relates input text i j ↔ pattern.Spans input .forward i j := by
  have stops : (pattern.matcher input .forward ⟨i, []⟩ fun reached =>
      if reached.position = j then some reached else none).isSome = true ↔
      pattern.Spans input .forward i j := by
    rw [Pattern.matcher_follows input pattern .forward ⟨i, []⟩,
      ← Pattern.ways_reaches input pattern .forward ⟨i, []⟩ j, List.findSome?_isSome_iff]
    constructor
    · rintro ⟨reached, mem, stops⟩
      split at stops
      · next here => exact ⟨reached, mem, here⟩
      · simp at stops
    · rintro ⟨reached, mem, here⟩
      exact ⟨reached, mem, by simp [here]⟩
  rw [Relates]
  constructor
  · rintro ⟨source', pattern', lowered', read', found⟩
    obtain rfl : source = source' := Except.ok.inj (lowered.symm.trans lowered')
    obtain rfl : pattern = pattern' := Except.ok.inj (read.symm.trans read')
    exact stops.mp found
  · exact fun spans => ⟨source, pattern, lowered, read, stops.mpr spans⟩

namespace Tree

mutual

/-- `tree.Relates input i j`: some sentence of the tree stands between `i` and `j`. -/
def Relates (input : Array Char) : Tree → Nat → Nat → Prop
  | .choice branches => RelatesAny input branches
  | .sequence parts => RelatesAll input parts
  | .leaf text => Leaf.Relates input text
  | .look negated body => fun i j => i = j ∧ (negated = true ↔ ¬∃ k, body.Relates input i k)
  | .variable _ body => body.Relates input
  | .repeated body repetition => fun i j =>
    ∃ count, repetition.Allows count ∧ Steps (body.Relates input) count i j

def RelatesAny (input : Array Char) : List Tree → Nat → Nat → Prop
  | [] => fun _ _ => False
  | tree :: rest => fun i j => tree.Relates input i j ∨ RelatesAny input rest i j

def RelatesAll (input : Array Char) : List Tree → Nat → Nat → Prop
  | [] => (· = ·)
  | tree :: rest => fun i j => ∃ k, tree.Relates input i k ∧ RelatesAll input rest k j

end

variable {input : Array Char}

theorem relatesAny_iff {trees : List Tree} {i j : Nat} :
    RelatesAny input trees i j ↔ ∃ tree ∈ trees, tree.Relates input i j := by
  induction trees with
  | nil => simp [RelatesAny]
  | cons tree rest ih => simp [RelatesAny, ih]

end Tree

end LineGrammar
