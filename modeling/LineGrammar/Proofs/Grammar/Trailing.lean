import LineGrammar.Proofs.Grammar.Completions

/-! Where trailing input starts. A pattern with room for trailing input stops at the end of the
first way of its body, however far its other ways lead; of the places where the first ways end the
latest one counts. It is the end of the longest beginning only if no later way leads further. -/

namespace LineGrammar

/-- Where the first ways of the beginnings end. -/
def Tree.firstEnds (root : Tree) (input : Array Char) : Set Nat :=
  {position | ∃ body ∈ root.beginningBodies, ∃ reached,
    (body.waysFromStart input).head? = some reached ∧ reached.position = position}

namespace Grammar

/-- The lengths of the beginnings of the input that are matched without trailing input. -/
def completeLengths (grammar : Grammar) (input : String) : Set Nat :=
  {length | length ≤ input.toList.length ∧
    (grammar.matchBeginning (String.ofList (input.toList.take length))).trailingInput? = none}

variable {root : Tree} {escapes unescapes : Registry (String → String)} {grammar : Grammar}
  {input : String}

theorem mem_completeLengths (compiles : grammar.Compiles root) (blind : root.Blind) {length : Nat} :
    length ∈ grammar.completeLengths input ↔
      ∃ body ∈ root.beginningBodies, body.Spans input.toList.toArray 0 length := by
  by_cases within : length ≤ input.toList.length
  · have size : (input.toList.take length).length = length := List.length_take_of_le within
    have same (k : Nat) (less : k < length) :
        (input.toList.take length).toArray[0 + k]? = input.toList.toArray[0 + k]? := by
      simp [less]
    rw [completeLengths, Set.mem_ofPred_eq, and_iff_right within,
      (compiles.runs blind.wellFormed).trailingInput?_eq_none_iff, String.toList_ofList, size]
    refine exists_congr fun body => and_congr_right fun mem => ?_
    have portable := blind.portable_bodyPart.beginnings body mem
    have there := portable (input.toList.take length).toArray input.toList.toArray 0 0 length same
    have back := portable input.toList.toArray (input.toList.take length).toArray 0 0 length
      fun k less => (same k less).symm
    rw [Nat.zero_add] at there back
    exact ⟨there, back⟩
  · refine iff_of_false (fun mem => within mem.1) ?_
    rintro ⟨body, -, spans⟩
    exact within spans.le_length

/-- Trailing input starts at the latest end of a first way. What stands before it is matched
without trailing input, and it is the longest such beginning exactly if no way of any body leads
further. -/
theorem isGreatest_firstEnds (compiles : ofTree root escapes unescapes = .ok grammar)
    (blind : root.Blind) {trailing : Occurrence}
    (reported : (grammar.matchBeginning input).trailingInput? = some trailing) :
    ∃ position, trailing.span =
        ⟨Text.byteLength (input.toList.take position), input.utf8ByteSize⟩ ∧
      IsGreatest (root.firstEnds input.toList.toArray) position ∧
      position ∈ grammar.completeLengths input ∧
      (IsGreatest (grammar.completeLengths input) position ↔
        ∀ body ∈ root.beginningBodies, ∀ reached ∈ body.waysFromStart input.toList.toArray,
          reached.position ≤ position) := by
  have compiles' := compiles_of_ofTree compiles
  obtain ⟨span, trails, rfl⟩ := Option.map_eq_some_iff.mp reported
  obtain ⟨stop, latest, start⟩ := (compiles'.runs blind.wellFormed).trailing_eq trails
  obtain ⟨body, mem, reached, first, starts⟩ : ∃ body ∈ root.beginningBodies, ∃ reached,
      (body.waysFromStart input.toList.toArray).head? = some reached ∧
        span.start = Text.byteLength (input.toList.take reached.position) := by
    rcases start with none | found
    · obtain ⟨body, mem, spans⟩ := blind.exists_beginning input.toList.toArray
      obtain ⟨reached, first⟩ := Body.exists_first spans
      have least := latest body mem reached first
      exact ⟨body, mem, reached, first, by omega⟩
    · exact found
  have complete {other : Body} (mem : other ∈ root.beginningBodies) {reached : Point}
      (way : reached ∈ other.waysFromStart input.toList.toArray) :
      reached.position ∈ grammar.completeLengths input :=
    (mem_completeLengths compiles' blind).mpr
      ⟨other, mem, (other.mem_waysFromStart _ _).mp ⟨reached, way, rfl⟩⟩
  have way := complete mem (List.mem_of_mem_head? first)
  refine ⟨reached.position, by rw [← starts, ← stop], ⟨⟨body, mem, reached, first, rfl⟩, ?_⟩, way,
    fun greatest body mem reached way => greatest.2 (complete mem way), fun furthest => ⟨way, ?_⟩⟩
  · rintro _ ⟨other, mem', reached', first', rfl⟩
    by_contra beyond
    have less := Text.byteLength_take_lt (Nat.lt_of_not_le beyond)
      (complete mem' (List.mem_of_mem_head? first')).1
    have := latest other mem' reached' first'
    omega
  · intro length complete'
    obtain ⟨other, mem', spans⟩ := (mem_completeLengths compiles' blind).mp complete'
    obtain ⟨reached', way', rfl⟩ := (other.mem_waysFromStart _ _).mpr spans
    exact furthest other mem' reached' way'

theorem trailing_letters : ∃ grammar trailing, ofTree .letters [] [] = .ok grammar ∧
    (grammar.matchBeginning "bc").trailingInput? = some trailing ∧
      ∃ position, trailing.span =
          ⟨Text.byteLength ("bc".toList.take position), "bc".utf8ByteSize⟩ ∧
        IsGreatest (Tree.letters.firstEnds "bc".toList.toArray) position := by
  have run : (ofTree .letters [] [] >>= fun grammar =>
      .ok (grammar.matchBeginning "bc").trailingInput?) =
        .ok (some ⟨Match.trailingName, "c", ⟨1, 2⟩⟩) := by cbv
  obtain ⟨grammar, compiles, result⟩ := bind_eq_ok.mp run
  have reported := Except.ok.inj result
  obtain ⟨position, span, greatest, -⟩ :=
    isGreatest_firstEnds compiles Tree.completable_letters.blind reported
  exact ⟨grammar, _, compiles, reported, position, span, greatest⟩

/-- The first branch that matches decides, although the second one leads further. -/
theorem trailing_not_shortest : ∃ grammar, ofExpression "a|ab" [] [] = .ok grammar ∧
    (grammar.matchBeginning "abX").trailingInput?.map (·.span) = some ⟨1, 3⟩ ∧
      (grammar.matchBeginning "ab").trailingInput? = none := by
  have run : (ofExpression "a|ab" [] [] >>= fun grammar =>
      .ok ((grammar.matchBeginning "abX").trailingInput?.map (·.span),
        (grammar.matchBeginning "ab").trailingInput?)) = .ok (some ⟨1, 3⟩, none) := by
    rw [ofExpression, Tree.ofExpression_eq]
    cbv
  obtain ⟨grammar, compiles, result⟩ := bind_eq_ok.mp run
  obtain ⟨first, second⟩ := Prod.mk.inj (Except.ok.inj result)
  exact ⟨grammar, compiles, first, second⟩

end Grammar

end LineGrammar
