import LineGrammar.Completion.Feed
import LineGrammar.Proofs.Expression.Pieces
import LineGrammar.Proofs.Expression.RoundTrip
import LineGrammar.Proofs.Grammar.Trailing

/-! Where the spans of a match lie. The patterns of a grammar run bodies whose lookaheads keep no
captures, so a variable lies within the way that shows it and never reaches beyond the matched part
of the input. What trails is not empty, because a way to the end of the input leaves nothing to
trail. -/

namespace LineGrammar

/-- The span lies in the text and divides no character. -/
structure Span.IsIn (text : String) (span : Span) : Prop where
  ordered : span.start ≤ span.stop
  within : span.stop ≤ text.utf8ByteSize
  start : String.Pos.Raw.IsValid text ⟨span.start⟩
  stop : String.Pos.Raw.IsValid text ⟨span.stop⟩

namespace Text

theorem isValid_take (text : String) (position : Nat) :
    String.Pos.Raw.IsValid text ⟨byteLength (text.toList.take position)⟩ :=
  isValid_of_append (List.take_append_drop position text.toList).symm

theorem isIn_take (text : String) {first second : Nat} (le : first ≤ second) :
    Span.IsIn text ⟨byteLength (text.toList.take first), byteLength (text.toList.take second)⟩ where
  ordered := monotone_byteLength_take text.toList le
  within := by
    have total := congrArg byteLength (List.take_append_drop second text.toList)
    rw [byteLength_append, byteLength_toList] at total
    show byteLength (text.toList.take second) ≤ _
    omega
  start := isValid_take text first
  stop := isValid_take text second

theorem isValid_of_between? {text inside : String} {start stop position : Nat}
    (found : between? text start stop = some inside)
    (valid : String.Pos.Raw.IsValid inside ⟨position⟩) :
    String.Pos.Raw.IsValid text ⟨position + start⟩ ∧ position + start ≤ stop := by
  obtain ⟨before, after, split, rfl, rfl⟩ := append_of_between? found
  obtain ⟨front, back, split', rfl⟩ := append_of_isValid valid
  have moved : text.toList = (before ++ front) ++ (back ++ after) := by
    rw [split, split', List.append_assoc, List.append_assoc]
  have boundary := isValid_of_append moved
  rw [byteLength_append, Nat.add_comm] at boundary
  refine ⟨boundary, ?_⟩
  rw [split', byteLength_append]
  omega

end Text

theorem Tree.Parsed.grounds {root : Tree} (parsed : root.Parsed) (negative : root.LooksNegative) :
    root.Grounds (Body.IsPieced fun _ _ => True) where
  leaf _ mem := Body.isPieced_ofLeaf (parsed _ mem)
  look negated body mem pieced := negative negated body mem ▸ pieced.look
  bounds _ _ mem := parsed _ mem

namespace Grammar

variable {root : Tree} {grammar : Grammar} {bodies : List Body} {input : String} {span : Span}

theorem Compiles.exists_runs (compiles : grammar.Compiles root) (parsed : root.Parsed) :
    ∃ bodies, grammar.Runs bodies ∧ ∀ body ∈ bodies, body.pattern.Quiet := by
  have pieced := ((parsed.grounds compiles.negative).all Body.hereditary_pieced).beginnings
  obtain ⟨bodies, reread⟩ := Body.exists_reread pieced
  obtain ⟨-, -, -, each⟩ := Body.eq_of_reread reread
  exact ⟨bodies, compiles.runs_of_respelled (reread.imp fun _ _ rereads => rereads.toRespells),
    fun body mem => (each body mem).1.quiet⟩

namespace Runs

theorem position_lt (runs : grammar.Runs bodies)
    (trails : (grammar.matchBeginning input).trailing = some span) {body : Body}
    (mem : body ∈ bodies) {position : Nat} (spans : body.Spans input.toList.toArray 0 position) :
    position < input.toList.length := by
  have incomplete : (grammar.matchBeginning input).trailingInput? ≠ none := by
    simp [Match.trailingInput?, trails]
  refine Nat.lt_of_le_of_ne spans.le_length ?_
  rintro rfl
  exact incomplete (runs.trailingInput?_eq_none_iff.mpr ⟨body, mem, spans⟩)

theorem isIn_of_trailing (runs : grammar.Runs bodies)
    (trails : (grammar.matchBeginning input).trailing = some span) :
    span.IsIn input ∧ span.stop = input.utf8ByteSize ∧ (input ≠ "" → span.start < span.stop) := by
  obtain ⟨stop, -, start⟩ := runs.trailing_eq trails
  have whole : Text.byteLength (input.toList.take input.toList.length) = input.utf8ByteSize := by
    rw [List.take_length, Text.byteLength_toList]
  obtain ⟨position, within, starts, proper⟩ : ∃ position ≤ input.toList.length,
      span.start = Text.byteLength (input.toList.take position) ∧
        (input ≠ "" → position < input.toList.length) := by
    rcases start with none | ⟨body, mem, reached, first, starts⟩
    · refine ⟨0, Nat.zero_le _, none, fun some => List.length_pos_iff.mpr ?_⟩
      simpa using some
    · have spans := (body.mem_waysFromStart _ _).mp ⟨reached, List.mem_of_mem_head? first, rfl⟩
      have less := runs.position_lt trails mem spans
      exact ⟨reached.position, Nat.le_of_lt less, starts, fun _ => less⟩
  have isIn := Text.isIn_take input within
  rw [whole, ← starts, ← stop] at isIn
  refine ⟨isIn, stop, fun some => ?_⟩
  rw [starts, stop, ← whole]
  exact Text.byteLength_take_lt (proper some) (Nat.le_refl _)

theorem exists_way_of_field (runs : grammar.Runs bodies)
    (quiet : ∀ body ∈ bodies, body.pattern.Quiet) {name : String}
    (mem : (name, span) ∈ (grammar.matchBeginning input).fields) :
    ∃ body ∈ bodies, ∃ start stop last, start ≤ stop ∧ stop ≤ last ∧
      body.Spans input.toList.toArray 0 last ∧
      Text.byteLength (input.toList.take last) ≤ (grammar.matchBeginning input).reach ∧
      span = ⟨Text.byteLength (input.toList.take start),
        Text.byteLength (input.toList.take stop)⟩ := by
  obtain ⟨body, among, last, seen, shows, reaches, -, use, used, same⟩ := runs.exists_shows mem
  obtain ⟨-, ordered, within⟩ := shows.within (quiet body among) use used
  exact ⟨body, among, use.start, use.stop, last, ordered, within, shows.spans, reaches,
    (congrArg Prod.snd same).symm⟩

theorem isIn_of_field (runs : grammar.Runs bodies) (quiet : ∀ body ∈ bodies, body.pattern.Quiet)
    {name : String} (mem : (name, span) ∈ (grammar.matchBeginning input).fields) :
    span.IsIn input ∧ span.stop ≤ (grammar.matchBeginning input).reach := by
  obtain ⟨-, -, start, stop, last, ordered, within, -, reaches, rfl⟩ :=
    runs.exists_way_of_field quiet mem
  exact ⟨Text.isIn_take input ordered,
    (Text.monotone_byteLength_take input.toList within).trans reaches⟩

theorem endNodes_eq_nil (runs : grammar.Runs bodies)
    (quiet : ∀ body ∈ bodies, body.pattern.Quiet)
    (trails : (grammar.matchBeginning input).trailing = some span) :
    (grammar.matchBeginning input).endNodes = [] := by
  rw [Match.endNodes, List.map_eq_nil_iff, List.filter_eq_nil_iff]
  rintro ⟨name, field⟩ mem reaches
  obtain ⟨body, among, start, stop, last, -, within, spans, -, rfl⟩ :=
    runs.exists_way_of_field quiet mem
  have less := runs.position_lt trails among spans
  have before := Text.byteLength_take_lt (Nat.lt_of_le_of_lt within less) (Nat.le_refl _)
  rw [List.take_length, Text.byteLength_toList] at before
  have stops : Text.byteLength (input.toList.take stop) = input.utf8ByteSize := by
    simpa [input_matchBeginning] using reaches
  omega

end Runs

/-- Whatever an expression looks ahead for, the variables of a beginning lie in the input and its
trailing input is the end of it, behind all of them; with trailing input there is nothing to
complete. -/
theorem isIn_of_ofExpression {expression : String} {escapes unescapes : Registry (String → String)}
    (compiles : ofExpression expression escapes unescapes = .ok grammar) (input : String) :
    (∀ occurrence ∈ (grammar.matchBeginning input).occurrences, occurrence.span.IsIn input) ∧
      ∀ trailing ∈ (grammar.matchBeginning input).trailingInput?,
        trailing.span.IsIn input ∧ trailing.span.stop = input.utf8ByteSize ∧
        (input ≠ "" → trailing.span.start < trailing.span.stop) ∧
        (∀ occurrence ∈ (grammar.matchBeginning input).occurrences,
          occurrence.span.stop ≤ trailing.span.start) ∧
        (grammar.matchBeginning input).endNodes = [] ∧
        ∀ (completers : List (String × Completer)) (document : Document) (event : CompletionEvent),
          document.before = input →
            (Completer.fields grammar completers).complete document event = pure [] ∧
            (Completer.fields grammar completers).feed document event = [.check] := by
  obtain ⟨root, read, made⟩ := bind_eq_ok.mp compiles
  obtain ⟨bodies, runs, quiet⟩ :=
    (compiles_of_ofTree made).exists_runs (Tree.parsed_of_ofExpression read)
  have fields : ∀ occurrence ∈ (grammar.matchBeginning input).occurrences,
      occurrence.span.IsIn input ∧ occurrence.span.stop ≤ (grammar.matchBeginning input).reach := by
    intro occurrence mem
    obtain ⟨field, among, rfl⟩ := List.mem_map.mp mem
    exact runs.isIn_of_field quiet among
  refine ⟨fun occurrence mem => (fields occurrence mem).1, fun trailing reported => ?_⟩
  obtain ⟨span, trails, rfl⟩ := Option.map_eq_some_iff.mp reported
  obtain ⟨isIn, stop, proper⟩ := runs.isIn_of_trailing trails
  have reach : (grammar.matchBeginning input).reach = span.start := by
    rw [Match.reach, Match.trailingInput?, trails, Option.map_some]
  have none := runs.endNodes_eq_nil quiet trails
  refine ⟨isIn, stop, proper, fun occurrence mem => reach ▸ (fields occurrence mem).2, none, ?_⟩
  rintro completers document event rfl
  have nothing : CompletionField.under grammar document = [] := by
    rw [CompletionField.under, none, List.map_nil]
  constructor
  · rw [Completer.complete, nothing]
    rfl
  · rw [Completer.feed, nothing]
    rfl

theorem tree_lookahead : Tree.ofExpression "(?!\\x41)(?P<x>b)" = .ok (.sequence
    [.look true (.sequence [.leaf "\\x", .leaf "4", .leaf "1"]), .variable "x" (.leaf "b")]) := by
  have escape : (Tree.leaf "\\x").Tokenized := Tree.tokenized_escape 'x' "\\x" (by cbv)
  have four : (Tree.leaf "4").Tokenized :=
    Tree.tokenized_char '4' "4" (by decide) (by decide) (by cbv)
  have one : (Tree.leaf "1").Tokenized :=
    Tree.tokenized_char '1' "1" (by decide) (by decide) (by cbv)
  have b : (Tree.leaf "b").Tokenized :=
    Tree.tokenized_char 'b' "b" (by decide) (by decide) (by cbv)
  have letter : (Tree.sequence [.leaf "\\x", .leaf "4", .leaf "1"]).Tokenized :=
    Tree.tokenized_sequence (by decide) (by simp [escape, four, one])
  have x : (Tree.variable "x" (.leaf "b")).Tokenized :=
    b.variable ⟨by simp, by simp [Token.isNameChar]⟩
  have both := Tree.tokenized_sequence (show [Tree.look true _, _].length ≠ 1 by simp)
    (List.forall_mem_cons.mpr ⟨letter.negativeLook, List.forall_mem_singleton.mpr x⟩)
  exact both.read (by decide) rfl (by cbv)

theorem isIn_lookahead : ∃ grammar trailing,
    ofExpression "(?!\\x41)(?P<x>b)" [] [] = .ok grammar ∧
      (grammar.matchBeginning "bé").trailingInput? = some trailing ∧
      (grammar.matchBeginning "bé").occurrences = [⟨"x", "b", ⟨0, 1⟩⟩] ∧
      trailing.span.IsIn "bé" ∧
      ∀ occurrence ∈ (grammar.matchBeginning "bé").occurrences,
        occurrence.span.stop ≤ trailing.span.start := by
  have run : (ofTree (.sequence [.look true (.sequence [.leaf "\\x", .leaf "4", .leaf "1"]),
      .variable "x" (.leaf "b")]) [] [] >>= fun grammar =>
        .ok ((grammar.matchBeginning "bé").trailingInput?,
          (grammar.matchBeginning "bé").occurrences)) =
        .ok (some ⟨Match.trailingName, "é", ⟨1, 3⟩⟩, [⟨"x", "b", ⟨0, 1⟩⟩]) := by cbv
  obtain ⟨grammar, made, result⟩ := bind_eq_ok.mp run
  obtain ⟨reported, listed⟩ := Prod.mk.inj (Except.ok.inj result)
  have compiles : ofExpression "(?!\\x41)(?P<x>b)" [] [] = .ok grammar :=
    bind_eq_ok.mpr ⟨_, tree_lookahead, made⟩
  obtain ⟨-, apart⟩ := isIn_of_ofExpression compiles "bé"
  obtain ⟨isIn, -, -, before, -⟩ := apart _ reported
  exact ⟨grammar, _, compiles, reported, listed, isIn, before⟩

end Grammar

end LineGrammar
