import LineGrammar.Proofs.Grammar.Captures
import LineGrammar.Proofs.Grammar.Sentences
import LineGrammar.Proofs.Tree.Beginnings

/-! Beginnings of sentences are matched without trailing input. -/

namespace LineGrammar

namespace Grammar

variable {root : Tree} {escapes unescapes : Registry (String → String)} {grammar : Grammar}

theorem readable_beginning (wellFormed : root.WellFormed) {body : Body}
    (mem : body ∈ root.beginningBodies) : body.Readable False :=
  (Tree.readable_bodyPart ⟨wellFormed, False.elim⟩).beginnings body mem

theorem trailingInput?_eq_none {input : String} {compiled : CompiledPattern}
    (mem : compiled ∈ grammar.beginnings) (covers : (compiled.find? input).isSome = true) :
    (grammar.matchBeginning input).trailingInput? = none := by
  obtain ⟨captures, found⟩ := Option.isSome_iff_exists.mp covers
  rw [matchBeginning_of_found (mem_found.mpr ⟨mem, found⟩)]
  rfl

theorem exists_covering (compiles : grammar.Compiles root) (wellFormed : root.WellFormed)
    {input : String} (begins : root.BeginsAt input.toList.toArray 0) :
    ∃ compiled ∈ grammar.beginnings, (compiled.find? input).isSome = true := by
  obtain ⟨body, mem, spans⟩ := begins
  obtain ⟨compiled, mem', covers⟩ :=
    exists_of_forall₂_left (compiles.runs wellFormed).beginnings mem
  exact ⟨compiled, mem', covers.isSome_iff.mpr (by simpa using spans)⟩

theorem cut_of_append {beginning rest sentence : String} (cut : beginning ++ rest = sentence) :
    Tree.Cut beginning.toList.toArray sentence.toList.toArray := by
  subst cut
  refine ⟨by simp, fun k less => ?_⟩
  have less' : k < beginning.toList.length := by simpa using less
  simp [List.getElem?_append_left less']

/-- Whatever the cut, what stands before it is matched without trailing input. -/
theorem matchBeginning_of_sentence (compiles : ofTree root escapes unescapes = .ok grammar)
    (wellFormed : root.WellFormed) (looks : root.LooksBlind) {beginning rest sentence : String}
    (matched : (grammar.matchWhole? sentence).isSome = true)
    (cut : beginning ++ rest = sentence) :
    (grammar.matchBeginning beginning).trailingInput? = none := by
  have compiles' := compiles_of_ofTree compiles
  have cuttable : root.Cuttable := ⟨wellFormed, looks, compiles'.negative⟩
  rw [matchWhole?, Option.isSome_map] at matched
  have related := (find?_whole_isSome_iff compiles wellFormed sentence).mp matched
  have before := cut_of_append cut
  have upper : beginning.toList.toArray.size ≤ sentence.toList.length := by
    simpa using before.size_le
  have begins := cuttable.beginsAt before related (Nat.zero_le _) upper
  obtain ⟨compiled, mem, covers⟩ := exists_covering compiles' wellFormed begins
  exact trailingInput?_eq_none mem covers

end Grammar

namespace Tree

theorem looksBlind_sample : sample.LooksBlind where
  lookFree negated body mem := by
    obtain ⟨-, rfl⟩ : negated = true ∧ body = leaf "c" := by
      simpa [sample, letters, subtrees, allSubtrees] using mem
    simp [LookFree, subtrees]
  take negated body mem := by
    obtain ⟨-, rfl⟩ : negated = true ∧ body = leaf "c" := by
      simpa [sample, letters, subtrees, allSubtrees] using mem
    simp [LeavesTake, subtrees, Leaf.zeroWidth]
  notEmpty negated body mem := by
    obtain ⟨-, rfl⟩ : negated = true ∧ body = leaf "c" := by
      simpa [sample, letters, subtrees, allSubtrees] using mem
    exact mt (Leaf.relates_character "c" 'c' (by cbv) (by cbv)).mp (by simp)

end Tree

namespace Grammar

theorem matchBeginning_sample : ∃ grammar, ofTree .sample [] [] = .ok grammar ∧
    (grammar.matchWhole? "abb").isSome = true ∧
      (grammar.matchBeginning "ab").trailingInput? = none := by
  obtain ⟨grammar, compiles, matched⟩ := compiles_sample
  have cut : "ab" ++ "b" = "abb" := by decide
  exact ⟨grammar, compiles, matched, matchBeginning_of_sentence compiles Tree.wellFormed_sample
    Tree.looksBlind_sample matched cut⟩

end Grammar

end LineGrammar
