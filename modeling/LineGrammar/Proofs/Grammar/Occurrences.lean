import LineGrammar.Proofs.Grammar.Completions
import LineGrammar.Proofs.Tree.Uses

/-! The variables that a match reports. The pattern of the whole tree follows one way through the
input; the groups captured on that way are the current uses of one derivation, so the reported
spans fit together. The variables of a beginning come from several patterns, each of them cut off
somewhere else; every one of them is a use in some sentence that the input is the beginning of. -/

namespace LineGrammar

namespace Match

theorem map_occurrences (result : Match) :
    result.occurrences.map (fun occurrence => (occurrence.name, occurrence.span)) =
      result.fields := by
  rw [occurrences, List.map_map]
  exact List.map_id' _

end Match

namespace Grammar

variable {root : Tree} {escapes unescapes : Registry (String → String)} {grammar : Grammar}

theorem exists_shows_of_matchWhole? (compiles : grammar.Compiles root)
    (wellFormed : root.WellFormed) {input : String} {result : Match}
    (matched : grammar.matchWhole? input = some result) :
    ∃ uses, root.wholeBody.Shows input.toList.toArray 0 input.toList.length uses ∧
      result.fields = (uses.map (Tree.Use.field input.toList)).eraseDups := by
  have covers := compiles.covers_whole wellFormed
  obtain ⟨captures, found, rfl⟩ := Option.map_eq_some_iff.mp matched
  obtain ⟨reached, way, rfl⟩ := covers.exists_way found
  exact ⟨_, ⟨reached, way, rfl⟩, CompiledPattern.named_identified covers.groups input reached⟩

/-- The variables of a sentence are the current uses of one derivation, in the order of the tree
and without repetitions; two of their spans lie apart or one in the other. -/
theorem exists_derivation_of_matchWhole? (compiles : ofTree root escapes unescapes = .ok grammar)
    (wellFormed : root.WellFormed) {input : String} {result : Match}
    (matched : grammar.matchWhole? input = some result) :
    ∃ uses, root.Derives input.toList.toArray 0 input.toList.length uses ∧
      result.occurrences.map (fun occurrence => (occurrence.name, occurrence.span)) =
        ((uses.filter (·.current)).map (Tree.Use.field input.toList)).eraseDups ∧
      ∀ first ∈ result.occurrences, ∀ second ∈ result.occurrences,
        Laminar first.span.start first.span.stop second.span.start second.span.stop := by
  have compiles' := compiles_of_ofTree compiles
  obtain ⟨seen, shows, fields⟩ := exists_shows_of_matchWhole? compiles' wellFormed matched
  obtain ⟨uses, derives, rfl⟩ :=
    Tree.exists_derivation_of_shows wellFormed compiles'.negative shows
  have listed := result.map_occurrences.trans fields
  have known : ∀ occurrence ∈ result.occurrences,
      ∃ use ∈ uses, use.span input.toList = occurrence.span := by
    intro occurrence mem
    have mem' : (occurrence.name, occurrence.span) ∈
        result.occurrences.map fun occurrence => (occurrence.name, occurrence.span) :=
      List.mem_map_of_mem mem
    rw [listed, List.mem_eraseDups] at mem'
    obtain ⟨use, among, same⟩ := List.mem_map.mp mem'
    exact ⟨use, List.mem_of_mem_filter among, congrArg Prod.snd same⟩
  refine ⟨uses, derives, listed, fun first mem second mem' => ?_⟩
  obtain ⟨use, among, same⟩ := known first mem
  obtain ⟨other, among', same'⟩ := known second mem'
  rw [← same, ← same']
  exact ((derives.nested wellFormed).laminar use among other among').map
    (Text.monotone_byteLength_take input.toList)

theorem derivation_sample : ∃ grammar result, ofTree .sample [] [] = .ok grammar ∧
    grammar.matchWhole? "abb" = some result ∧
      ∃ uses, Tree.sample.Derives "abb".toList.toArray 0 "abb".toList.length uses ∧
        ((uses.filter (·.current)).map (Tree.Use.field "abb".toList)).eraseDups =
          [("x", ⟨1, 3⟩)] := by
  have run : (ofTree .sample [] [] >>= fun grammar => .ok ((grammar.matchWhole? "abb").map
      fun result => result.occurrences.map fun occurrence => (occurrence.name, occurrence.span))) =
        .ok (some [("x", ⟨1, 3⟩)]) := by cbv
  obtain ⟨grammar, compiles, found⟩ := bind_eq_ok.mp run
  obtain ⟨result, matched, listed⟩ := Option.map_eq_some_iff.mp (Except.ok.inj found)
  obtain ⟨uses, derives, same, -⟩ :=
    exists_derivation_of_matchWhole? compiles Tree.wellFormed_sample matched
  exact ⟨grammar, result, compiles, matched, uses, derives, same.symm.trans listed⟩

/-- Every variable of a beginning is used in a sentence that starts with the input, from the same
place on and up to the same place, or, if it reaches the end of the input, at least that far. -/
theorem exists_use_of_occurrence (compiles : ofTree root escapes unescapes = .ok grammar)
    (completable : root.Completable) {input : String}
    (complete : (grammar.matchBeginning input).trailingInput? = none) {occurrence : Occurrence}
    (mem : occurrence ∈ (grammar.matchBeginning input).occurrences) :
    ∃ (more : String) (uses : List Tree.Use),
      (grammar.matchWhole? (input ++ more)).isSome = true ∧
        root.Derives (input ++ more).toList.toArray 0 (input ++ more).toList.length uses ∧
        ∃ use ∈ uses, use.name = occurrence.name ∧
          (use.span (input ++ more).toList).start = occurrence.span.start ∧
          (occurrence.span.stop < input.utf8ByteSize →
            (use.span (input ++ more).toList).stop = occurrence.span.stop) ∧
          (occurrence.span.stop = input.utf8ByteSize →
            input.utf8ByteSize ≤ (use.span (input ++ more).toList).stop) := by
  have wellFormed := completable.blind.wellFormed
  obtain ⟨field, reported, here⟩ := List.mem_map.mp mem
  obtain ⟨body, among, j, seen, shows, -, ends, use, mem', same⟩ :=
    ((compiles_of_ofTree compiles).runs wellFormed).exists_shows reported
  obtain rfl := ends complete
  obtain ⟨name, span⟩ : use.name = occurrence.name ∧ use.span input.toList = occurrence.span :=
    here ▸ Prod.mk.inj same
  have quiet := (Tree.quiet_bodyPart wellFormed fun negated body mem =>
    absurd mem (completable.blind.lookFree negated body)).beginnings body among
  obtain ⟨-, ordered, inside⟩ := shows.within quiet use mem'
  obtain ⟨more, uses, derives, completed⟩ := completable.continues among shows (Nat.zero_le _)
  obtain ⟨stop, stops, among'⟩ := completed use mem'
  obtain ⟨used, mem'', place⟩ := List.mem_map.mp among'
  obtain ⟨name', start', stop'⟩ : used.name = use.name ∧ used.start = use.start ∧
      used.stop = stop := by simpa [Tree.Use.place] using place
  have spelled : (input ++ String.ofList more).toList = input.toList ++ more := by simp
  have before {position : Nat} (within : position ≤ input.toList.length) :
      (input.toList ++ more).take position = input.toList.take position :=
    List.take_append_of_le_length within
  have sentence : root.Derives (input ++ String.ofList more).toList.toArray 0
      (input ++ String.ofList more).toList.length uses := by
    rw [spelled, List.length_append]
    simpa using derives
  have matched : (grammar.matchWhole? (input ++ String.ofList more)).isSome = true := by
    rw [matchWhole?, Option.isSome_map, find?_whole_isSome_iff compiles wellFormed]
    exact sentence.relates
  refine ⟨String.ofList more, uses, matched, sentence, used, mem'', name'.trans name, ?_,
    fun less => ?_, fun reaches => ?_⟩
  · rw [← span, spelled, Tree.Use.span, Tree.Use.span, start', before (by omega)]
  · rcases stops with rfl | ⟨cutOff, -⟩
    · rw [← span, spelled, Tree.Use.span, Tree.Use.span, stop', before inside]
    · rw [← span, Tree.Use.span, cutOff, List.take_length, Text.byteLength_toList] at less
      exact absurd less (Nat.lt_irrefl _)
  · rw [spelled, Tree.Use.span, stop']
    rcases stops with rfl | ⟨-, beyond⟩
    · rw [before inside, ← reaches, ← span]
      exact Nat.le_refl _
    · have monotone := Text.monotone_byteLength_take (input.toList ++ more) beyond
      simpa [Text.byteLength_toList] using monotone

theorem occurrence_letters : ∃ grammar, ofTree .letters [] [] = .ok grammar ∧
    ∃ occurrence ∈ (grammar.matchBeginning "b").occurrences,
      ∃ (more : String) (uses : List Tree.Use),
        (grammar.matchWhole? ("b" ++ more)).isSome = true ∧
          Tree.letters.Derives ("b" ++ more).toList.toArray 0 ("b" ++ more).toList.length uses ∧
            ∃ use ∈ uses, use.name = occurrence.name := by
  have run : (ofTree .letters [] [] >>= fun grammar =>
      .ok ((grammar.matchBeginning "b").trailingInput?,
        (grammar.matchBeginning "b").occurrences)) = .ok (none, [⟨"x", "b", ⟨0, 1⟩⟩]) := by cbv
  obtain ⟨grammar, compiles, result⟩ := bind_eq_ok.mp run
  obtain ⟨complete, listed⟩ := Prod.mk.inj (Except.ok.inj result)
  have mem : ⟨"x", "b", ⟨0, 1⟩⟩ ∈ (grammar.matchBeginning "b").occurrences :=
    listed ▸ List.mem_cons_self
  obtain ⟨more, uses, matched, derives, use, used, name, -⟩ :=
    exists_use_of_occurrence compiles Tree.completable_letters complete mem
  exact ⟨grammar, compiles, _, mem, more, uses, matched, derives, use, used, name⟩

end Grammar

end LineGrammar
