import LineGrammar.Proofs.Grammar.Compiling
import LineGrammar.Proofs.Tree.Exactness

/-! The sentences of a grammar. The pattern of the whole tree has a way from the start of an input
to its end exactly where the tree relates the two. -/

namespace LineGrammar

namespace Grammar

variable {root : Tree} {escapes unescapes : Registry (String → String)} {grammar : Grammar}

theorem find?_whole_isSome_iff (compiles : ofTree root escapes unescapes = .ok grammar)
    (wellFormed : root.WellFormed) (input : String) :
    (grammar.whole.find? input).isSome = true ↔
      root.Relates input.toList.toArray 0 input.toList.length := by
  have covers := (compiles_of_ofTree compiles).covers_whole wellFormed
  exact covers.isSome_iff.trans (Tree.spans_wholeBody wellFormed)

/-- The sentences of a grammar are the inputs that its tree relates from end to end. -/
theorem matchWhole?_isSome_iff (compiles : ofTree root escapes unescapes = .ok grammar)
    (wellFormed : root.WellFormed) (input : String) :
    (grammar.matchWhole? input).isSome = true ↔
      root.Relates input.toList.toArray 0 input.toList.length := by
  rw [matchWhole?, Option.isSome_map]
  exact find?_whole_isSome_iff compiles wellFormed input

end Grammar

namespace Tree

def letters : Tree := .variable "x" (.repeated (.leaf "b") ⟨1, none, true⟩)

def sample : Tree := .sequence [.leaf "a", .look true (.leaf "c"), letters]

theorem leaf_of_mem_sample {text : String} (mem : leaf text ∈ sample.subtrees) :
    text = "a" ∨ text = "c" ∨ text = "b" := by
  simpa [sample, letters, subtrees, allSubtrees] using mem

theorem wellFormed_sample : sample.WellFormed where
  token text mem := by
    rcases leaf_of_mem_sample mem with rfl | rfl | rfl
    · exact Leaf.isToken_of_alone "a" "a" (by cbv) (by cbv) (by cbv)
    · exact Leaf.isToken_of_alone "c" "c" (by cbv) (by cbv) (by cbv)
    · exact Leaf.isToken_of_alone "b" "b" (by cbv) (by cbv) (by cbv)
  notBare text mem := by
    rcases leaf_of_mem_sample mem with rfl | rfl | rfl <;> simp [Leaf.IsBareEscape]
  branches := by simp [sample, letters, subtrees, allSubtrees]
  bounds body repetition mem := by
    obtain ⟨-, rfl⟩ : body = leaf "b" ∧ repetition = ⟨1, none, true⟩ := by
      simpa [sample, letters, subtrees, allSubtrees] using mem
    exact ⟨by simp, by simp [Pattern.largestCount], by simp⟩

end Tree

namespace Grammar

theorem compiles_sample : ∃ grammar, ofTree .sample [] [] = .ok grammar ∧
    (grammar.matchWhole? "abb").isSome = true := by
  have run : (ofTree .sample [] [] >>= fun grammar =>
      .ok (grammar.matchWhole? "abb").isSome) = .ok true := by cbv
  obtain ⟨grammar, compiles, matched⟩ := bind_eq_ok.mp run
  exact ⟨grammar, compiles, Except.ok.inj matched⟩

theorem relates_sample : ∃ grammar, ofTree .sample [] [] = .ok grammar ∧
    (grammar.matchWhole? "abb").isSome = true ∧ Tree.sample.Relates #['a', 'b', 'b'] 0 3 := by
  obtain ⟨grammar, compiles, matched⟩ := compiles_sample
  have related := (matchWhole?_isSome_iff compiles Tree.wellFormed_sample "abb").mp matched
  exact ⟨grammar, compiles, matched, by simpa using related⟩

end Grammar

end LineGrammar
