import LineGrammar.Proofs.Grammar.Beginnings
import LineGrammar.Proofs.Tree.Endings

/-! The variables at the end of a beginning. When a sentence is cut inside a variable, the variable
is reported there, because a pattern that ends with its group covers what stands before the cut. -/

namespace LineGrammar

namespace Grammar

variable {root : Tree} {escapes unescapes : Registry (String → String)} {grammar : Grammar}
  {input : String}

theorem exists_field_of_endsIn {names : Array String} {fragment : Fragment} {body : Body}
    {compiled : CompiledPattern} (represents : fragment.Represents names body)
    (readable : body.Readable False) (anchored : CompiledPattern.anchored fragment = .ok compiled)
    {name : String} (ends : body.EndsIn name)
    (spans : body.Spans input.toList.toArray 0 input.toList.toArray.size) :
    ∃ captures group span, compiled.find? input = some captures ∧
      (group, span) ∈ compiled.identified captures ∧ names[group]? = some name ∧
      span.stop = input.utf8ByteSize := by
  obtain ⟨index, named, ends⟩ := ends
  have some : ((body.waysFromStart input.toList.toArray).find?
      (·.position = input.toList.toArray.size)).isSome = true := by
    rw [List.find?_isSome]
    simpa using (body.mem_waysFromStart _ _).mpr spans
  obtain ⟨reached, first⟩ := Option.isSome_iff_exists.mp some
  have stops : reached.position = input.toList.length := by
    simpa using List.find?_some first
  obtain ⟨capture, latest, closes⟩ := ends.closes (List.mem_of_find?_eq_some first)
  obtain ⟨group, identifies, found⟩ := represents.exists_group named
  have captured : (CompiledPattern.spansOf input reached.captures).lookup (index + 1) =
      Option.some (CompiledPattern.spanOf input.toList capture) := by
    rw [CompiledPattern.lookup_spansOf, latest, Option.map_some]
  refine ⟨_, group, _, ?_, CompiledPattern.mem_identified.mpr ⟨index, ?_, captured⟩, found,
    CompiledPattern.spanOf_end capture (closes.trans stops)⟩
  · rw [CompiledPattern.find?_of_anchored represents readable.enclosable anchored, first,
      Option.map_some]
  · rw [CompiledPattern.groups_of_anchored anchored]
    exact identifies

/-- A variable that a derivation of a sentence uses across a cut is an end node of what stands
before the cut. -/
theorem exists_endNode_of_derivation (compiles : ofTree root escapes unescapes = .ok grammar)
    (wellFormed : root.WellFormed) (take : root.LeavesTake) (looks : root.LooksBlind)
    {beginning rest sentence : String} (cut : beginning ++ rest = sentence)
    {uses : List Tree.Use} {use : Tree.Use}
    (derives : root.Derives sentence.toList.toArray 0 sentence.toList.length uses)
    (mem : use ∈ uses) (lower : use.start ≤ beginning.toList.length)
    (upper : beginning.toList.length ≤ use.stop) :
    ∃ occurrence ∈ (grammar.matchBeginning beginning).endNodes,
      occurrence.name = use.name ∧ occurrence.span.stop = beginning.utf8ByteSize := by
  have compiles' := compiles_of_ofTree compiles
  have cuttable : root.Cuttable := ⟨wellFormed, looks, compiles'.negative⟩
  obtain ⟨body, mem', ends, spans⟩ := cuttable.endsAt take (cut_of_append cut) derives mem
    (by simpa using lower) (by simpa using upper)
  obtain ⟨compiled, among, fragment, represents, anchored⟩ :=
    exists_of_forall₂_left compiles'.beginnings mem'
  obtain ⟨captures, group, span, found, identified, named, stops⟩ := exists_field_of_endsIn
    represents (readable_beginning wellFormed mem') anchored ends spans
  have covers := mem_found.mpr ⟨among, found⟩
  rw [matchBeginning_of_found covers]
  have field : (use.name, span) ∈
      Match.named grammar (Grammar.identified (Grammar.found grammar.beginnings beginning)) :=
    Match.mem_named.mpr ⟨group, List.mem_flatMap.mpr ⟨_, covers, identified⟩, named⟩
  obtain ⟨occurrence, mem'', name, eq⟩ :=
    Match.exists_endNode_of_field ⟨grammar, beginning, _, none⟩ field stops
  exact ⟨occurrence, mem'', name, eq ▸ stops⟩

end Grammar

namespace Tree

theorem leavesTake_sample : sample.LeavesTake := by
  intro text mem
  rcases leaf_of_mem_sample mem with rfl | rfl | rfl <;> simp [Leaf.zeroWidth]

theorem derives_sample :
    sample.Derives "abb".toList.toArray 0 "abb".toList.length [⟨"x", 1, 3, true⟩] := by
  have spelled : "abb".toList = ['a', 'b', 'b'] := by simp
  rw [spelled]
  have first : Leaf.Relates #['a', 'b', 'b'] "a" 0 1 :=
    (Leaf.relates_character "a" 'a' (by cbv) (by cbv)).mpr ⟨rfl, rfl⟩
  have behind : ¬∃ k, (leaf "c").Relates #['a', 'b', 'b'] 1 k := by
    rintro ⟨k, related⟩
    simpa using ((Leaf.relates_character "c" 'c' (by cbv) (by cbv)).mp related).1
  have letter (i : Nat) (here : #['a', 'b', 'b'][i]? = some 'b') :
      (leaf "b").Derives #['a', 'b', 'b'] i (i + 1) [] :=
    ⟨rfl, (Leaf.relates_character "b" 'b' (by cbv) (by cbv)).mpr ⟨here, rfl⟩⟩
  have inside : letters.Derives #['a', 'b', 'b'] 1 3 [⟨"x", 1, 3, true⟩] :=
    ⟨[], ⟨2, by simp [Repetition.Allows], 2, [], [], letter 1 rfl,
      ⟨3, [], [], letter 2 rfl, ⟨rfl, rfl⟩, rfl⟩, rfl⟩, rfl⟩
  exact ⟨1, [], _, ⟨rfl, first⟩, ⟨1, [], _, ⟨rfl, rfl, by simpa using behind⟩,
    ⟨3, _, [], inside, ⟨rfl, rfl⟩, rfl⟩, rfl⟩, rfl⟩

end Tree

namespace Grammar

theorem endNode_sample : ∃ grammar, ofTree .sample [] [] = .ok grammar ∧
    ∃ occurrence ∈ (grammar.matchBeginning "ab").endNodes,
      occurrence.name = "x" ∧ occurrence.span.stop = 2 := by
  obtain ⟨grammar, compiles, -⟩ := compiles_sample
  have cut : "ab" ++ "b" = "abb" := by decide
  have reached : "ab".toList.length = 2 := by simp
  obtain ⟨occurrence, mem, name, stops⟩ := exists_endNode_of_derivation compiles
    Tree.wellFormed_sample Tree.leavesTake_sample Tree.looksBlind_sample cut Tree.derives_sample
    List.mem_cons_self (by rw [reached]; decide) (by rw [reached]; decide)
  exact ⟨grammar, compiles, occurrence, mem, name, stops⟩

end Grammar

end LineGrammar
