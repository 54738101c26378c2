import LineGrammar.Proofs.Grammar.Beginnings
import LineGrammar.Proofs.Grammar.Captures
import LineGrammar.Proofs.Tree.Completions

/-! What is not reported as trailing input is the beginning of a sentence. Whichever pattern is
found, a beginning body of the tree leads from the start of the input to where the trailing input
starts, and what such a body takes can be completed. -/

namespace LineGrammar

namespace Grammar

variable {root : Tree} {escapes unescapes : Registry (String → String)} {grammar : Grammar}
  {input : String}

theorem completes_matchBeginning (compiles : grammar.Compiles root)
    (completable : root.Completable) (input : String) :
    ∃ position, root.Completes input.toList.toArray 0 position ∧
      (grammar.matchBeginning input).reach = Text.byteLength (input.toList.take position) := by
  have runs := compiles.runs completable.blind.wellFormed
  rcases runs.exists_reach input with ⟨body, mem, position, spans, reach⟩ | start
  · exact ⟨position, completable.completes mem spans (Nat.zero_le _), reach⟩
  · obtain ⟨word, accepts⟩ := completable.exists_sentence
    exact ⟨0, ⟨word, by simpa using accepts⟩, by rw [start, List.take_zero, Text.byteLength_nil]⟩

/-- What stands before the trailing input can be completed to a sentence. -/
theorem exists_sentence_of_matchBeginning
    (compiles : ofTree root escapes unescapes = .ok grammar) (completable : root.Completable)
    (input : String) :
    ∃ beginning more, Text.before? input (grammar.matchBeginning input).reach = some beginning ∧
      (grammar.matchWhole? (beginning ++ more)).isSome = true := by
  obtain ⟨position, ⟨more, accepts⟩, reach⟩ :=
    completes_matchBeginning (compiles_of_ofTree compiles) completable input
  refine ⟨String.ofList (input.toList.take position), String.ofList more, ?_, ?_⟩
  · rw [reach, Text.before?_take]
  · rw [matchWhole?, Option.isSome_map,
      find?_whole_isSome_iff compiles completable.blind.wellFormed]
    simpa [Tree.Accepts, Tree.slice] using accepts

end Grammar

theorem Tree.completable_letters : letters.Completable where
  blind := {
    wellFormed := wellFormed_sample.subtree (by simp [sample, letters, subtrees, allSubtrees])
    lookFree := by simp [LookFree, letters, subtrees]
    take := by simp [LeavesTake, letters, subtrees, Leaf.zeroWidth] }
  taken text mem := by
    obtain rfl : text = "b" := by simpa [letters, subtrees] using mem
    exact ⟨'b', (Leaf.relates_character "b" 'b' (by cbv) (by cbv)).mpr ⟨rfl, rfl⟩⟩

theorem Grammar.completion_letters : ∃ grammar, ofTree .letters [] [] = .ok grammar ∧
    ∃ beginning more, Text.before? "bc" (grammar.matchBeginning "bc").reach = some beginning ∧
      (grammar.matchWhole? (beginning ++ more)).isSome = true := by
  have run : (ofTree .letters [] []).isOk = true := by cbv
  obtain ⟨grammar, compiles⟩ := isOk_iff.mp run
  exact ⟨grammar, compiles,
    exists_sentence_of_matchBeginning compiles Tree.completable_letters "bc"⟩

end LineGrammar
