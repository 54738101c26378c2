import LineGrammar.Proofs.Completion.Streaming
import LineGrammar.Proofs.Document
import LineGrammar.Proofs.Grammar.Boundaries

/-! Completions that only go on with what was typed. A word from a list begins with the end of the
text that it replaces. A field is completed as a document of its own; putting the part that was left
in place in front again makes a completion of the field into one of the whole text, at any depth. -/

namespace LineGrammar

namespace Completion

/-- The replaced bytes stand at the end of what was typed and divide no character, and with the
completion in their place the text still begins with what was typed. -/
structure Extends (typed : String) (completion : Completion) : Prop where
  within : completion.replaced ≤ typed.utf8ByteSize
  boundary : String.Pos.Raw.IsValid typed ⟨typed.utf8ByteSize - completion.replaced⟩
  extended : ∃ kept, Text.before? typed (typed.utf8ByteSize - completion.replaced) = some kept ∧
    typed.toList <+: (kept ++ completion.text).toList

theorem Extends.of_split {typed : String} {completion : Completion} {kept replaced : List Char}
    (split : typed.toList = kept ++ replaced)
    (size : Text.byteLength replaced = completion.replaced)
    (begins : replaced <+: completion.text.toList) : completion.Extends typed := by
  have total := congrArg Text.byteLength split
  rw [Text.byteLength_append, Text.byteLength_toList, size] at total
  have front : typed.utf8ByteSize - completion.replaced =
      Text.byteLength (typed.toList.take kept.length) := by
    rw [split, List.take_left]
    omega
  refine ⟨by omega, front ▸ Text.isValid_take typed kept.length, String.ofList kept, ?_, ?_⟩
  · rw [front, Text.before?_take, split, List.take_left]
  · rw [String.toList_append, String.toList_ofList, split]
    exact (List.prefix_append_right_inj kept).mpr begins

theorem mem_of_mem_uniqueBeyond {completion : Completion} {completions : List Completion}
    {seen : List (String × Nat)} (mem : completion ∈ uniqueBeyond seen completions) :
    completion ∈ completions := by
  induction completions generalizing seen with
  | nil => simp [uniqueBeyond] at mem
  | cons first rest ih =>
    rw [uniqueBeyond] at mem
    split at mem
    · exact List.mem_cons_of_mem _ (ih mem)
    · rcases List.mem_cons.mp mem with rfl | later
      · exact List.mem_cons_self
      · exact List.mem_cons_of_mem _ (ih later)

end Completion

namespace WordList

variable {list : WordList} {document : Document}

theorem exists_append_typed (list : WordList) (document : Document) :
    ∃ kept, document.before.toList = kept ++ (list.typed document).toList := by
  have suffix (passes : Char → Bool) (text : String) :
      ∃ kept, text.toList = kept ++ (Document.trailingRun passes text).toList := by
    obtain ⟨kept, split⟩ := (Document.isTrailingRun_trailingRun passes text).ends
    exact ⟨kept, split.symm⟩
  rw [typed]
  split
  · exact suffix _ _
  · exact suffix _ _

theorem extends_of_mem_complete (caseSensitive : list.ignoreCase = false) {completion : Completion}
    (mem : completion ∈ list.complete document) : completion.Extends document.before := by
  obtain ⟨word, among, rfl⟩ := List.mem_map.mp mem
  obtain ⟨kept, split⟩ := exists_append_typed list document
  have begins : (list.typed document).toList <+: word.toList := by
    have accepted := (List.mem_filter.mp among).2
    simpa [accepts, caseSensitive, startsWith] using accepted
  exact .of_split split (Text.byteLength_toList _) begins

end WordList

namespace Grammar

variable {grammar : Grammar} {input : String}

theorem registries_of_ofTree {root : Tree} {escapes unescapes : Registry (String → String)}
    (eq : ofTree root escapes unescapes = .ok grammar) :
    grammar.escapes = escapes ∧ grammar.unescapes = unescapes := by
  simp only [ofTree, bind_eq_ok, pure, Except.pure, Except.ok.injEq] at eq
  obtain ⟨lowered, -, whole, -, beginnings, -, trailing, -, rfl⟩ := eq
  exact ⟨rfl, rfl⟩

theorem exists_drop_unescaped {node : Occurrence}
    (mem : node ∈ (grammar.matchBeginning input).endNodes) :
    ∃ position, node.span.start = Text.byteLength (input.toList.take position) ∧
      node.value = grammar.unescape node.name (String.ofList (input.toList.drop position)) := by
  obtain ⟨⟨name, span⟩, among, rfl⟩ := List.mem_map.mp mem
  obtain ⟨field, reaches⟩ := List.mem_filter.mp among
  have stop : span.stop = input.utf8ByteSize := by
    simpa [input_matchBeginning] using reaches
  obtain ⟨position, other, same⟩ := exists_position_of_field field
  have start : span.start = Text.byteLength (input.toList.take position) := congrArg Span.start same
  refine ⟨position, start, ?_⟩
  have total := Text.byteLength_append (input.toList.take position) (input.toList.drop position)
  rw [List.take_append_drop, Text.byteLength_toList] at total
  have front := Text.cut?_append (input.toList.take position) (input.toList.drop position)
  rw [List.take_append_drop] at front
  have back := Text.cut?_append (input.toList.drop position) []
  rw [List.append_nil] at back
  have length : span.stop - Text.byteLength (input.toList.take position) =
      Text.byteLength (input.toList.drop position) := by omega
  have inside : Text.between? input span.start span.stop =
      some (String.ofList (input.toList.drop position)) := by
    rw [Text.between?, if_pos (by omega), start, length, front]
    simp [back]
  have own : (grammar.matchBeginning input).grammar = grammar := by
    rw [matchBeginning]
    split <;> rfl
  simp [Match.occurrence, Match.textOf, input_matchBeginning, own, inside]

theorem exists_drop_of_endNode (verbatim : grammar.unescapes = []) {node : Occurrence}
    (mem : node ∈ (grammar.matchBeginning input).endNodes) :
    ∃ position, node.span.start = Text.byteLength (input.toList.take position) ∧
      node.value = String.ofList (input.toList.drop position) := by
  obtain ⟨position, start, value⟩ := exists_drop_unescaped mem
  exact ⟨position, start, by simpa [unescape, verbatim, Registry.find?] using value⟩

end Grammar

namespace CompletionField

variable {grammar : Grammar} {input : String}

theorem extends_rewrap (escapes : grammar.escapes = []) (unescapes : grammar.unescapes = [])
    {node : Occurrence} (mem : node ∈ (grammar.matchBeginning input).endNodes)
    {inner : Completion} (extends' : inner.Extends node.value) :
    (rewrap grammar (ofOccurrence input node) inner).Extends input := by
  obtain ⟨position, start, value⟩ := Grammar.exists_drop_of_endNode unescapes mem
  obtain ⟨within, -, keptText, before, extended⟩ := extends'
  have total := Text.byteLength_append (input.toList.take position) (input.toList.drop position)
  rw [List.take_append_drop, Text.byteLength_toList] at total
  have left : (ofOccurrence input node).kept inner = keptText := by
    rw [kept, ofOccurrence, Document.text_atEnd, if_pos within, before]
    rfl
  refine .of_split (List.take_append_drop position input.toList).symm ?_ ?_
  · show Text.byteLength (input.toList.drop position) = input.utf8ByteSize - node.span.start
    omega
  · rw [rewrap, left, Grammar.escape, escapes]
    simpa [ofOccurrence, Document.atEnd, value, Registry.find?] using extended

end CompletionField

namespace Completer

/-- Lists of words that take letters as they are, and grammars that neither escape nor unescape
values. -/
inductive Verbatim : Completer → Prop
  | words {list : WordList} (caseSensitive : list.ignoreCase = false) : Verbatim (.words list)
  | fields {grammar : Grammar} {completers : List (String × Completer)}
    (escapes : grammar.escapes = []) (unescapes : grammar.unescapes = [])
    (inner : ∀ entry ∈ completers, Verbatim entry.2) : Verbatim (.fields grammar completers)

theorem Verbatim.exists_yields {completer : Completer} (verbatim : completer.Verbatim)
    (document : Document) (event : CompletionEvent) :
    ∃ completions, (completer.complete document event).Yields (.ok completions) [] ∧
      ∀ completion ∈ completions, completion.Extends document.before := by
  induction verbatim generalizing document with
  | @words list caseSensitive =>
    rw [complete]
    exact ⟨_, Consulting.yields_pure _, fun completion mem =>
      WordList.extends_of_mem_complete caseSensitive mem⟩
  | @fields grammar completers escapes unescapes inner ih =>
    rw [complete]
    have each : ∀ field ∈ CompletionField.under grammar document, ∃ found,
        Consulting.Yields (do
          let inner ← completeNamed field.name field.document event completers
          return inner.map (field.rewrap grammar)) (.ok found) [] ∧
        ∀ completion ∈ found, completion.Extends document.before := by
      intro field mem
      obtain ⟨node, reaches, rfl⟩ := List.mem_map.mp mem
      obtain ⟨found, yields, extends'⟩ : ∃ found,
          (completeNamed node.name (.atEnd node.value) event completers).Yields (.ok found) [] ∧
            ∀ completion ∈ found, completion.Extends node.value := by
        rw [completeNamed_eq]
        cases looked : Registry.find? completers node.name with
        | none => exact ⟨[], Consulting.yields_pure [], by simp⟩
        | some completer =>
          obtain ⟨entry, among, rfl⟩ := Registry.mem_of_find? looked
          exact ih entry among (.atEnd node.value)
      refine ⟨_, yields.map _, fun completion among => ?_⟩
      obtain ⟨inner, mem', rfl⟩ := List.mem_map.mp among
      exact CompletionField.extends_rewrap escapes unescapes reaches (extends' inner mem')
    obtain ⟨found, yields, all⟩ := Consulting.exists_yields_mapM each
    have silent : ((CompletionField.under grammar document).flatMap fun _ => []) =
        ([] : List Document) := by simp
    rw [silent] at yields
    refine ⟨_, yields.map fun found => Completion.unique found.flatten, fun completion mem => ?_⟩
    obtain ⟨list, among, mem'⟩ := List.mem_flatten.mp (Completion.mem_of_mem_uniqueBeyond mem)
    obtain ⟨-, -, extends'⟩ := exists_of_forall₂_left all.flip among
    exact extends' completion mem'

/-- However deep grammars are nested, completing with lists of words yields completions that go on
with the text before the cursor. -/
theorem extends_of_verbatim {completer : Completer} (verbatim : completer.Verbatim)
    (document : Document) (event : CompletionEvent) :
    ∃ completions, (completer.complete document event).outcome = (.ok completions, []) ∧
      ∀ completion ∈ completions, completion.Extends document.before := by
  obtain ⟨completions, yields, extends'⟩ := verbatim.exists_yields document event
  exact ⟨completions, yields.outcome, extends'⟩

def nestedWords (outer inner : Grammar) : Completer :=
  .fields outer [("x", .fields inner [("x", .words (.ofWords ["bc", "c", "bé"]))])]

theorem extends_nestedWords : ∃ outer inner completions,
    Grammar.ofTree (.sequence [.leaf "é", .letters]) [] [] = .ok outer ∧
      Grammar.ofTree .letters [] [] = .ok inner ∧
      ((nestedWords outer inner).complete ⟨"éb", "b"⟩ .request).outcome = (.ok completions, []) ∧
      completions.map (·.key) = [("bc", 1), ("bé", 1)] ∧
      ∀ completion ∈ completions, completion.Extends "éb" := by
  have run : (Grammar.ofTree (.sequence [.leaf "é", .letters]) [] [] >>= fun outer =>
      Grammar.ofTree .letters [] [] >>= fun inner =>
        .ok (((nestedWords outer inner).complete ⟨"éb", "b"⟩ .request).outcome.1.map
          (·.map (·.key)))) = .ok (.ok [("bc", 1), ("bé", 1)]) := by cbv
  obtain ⟨outer, compiles, run⟩ := bind_eq_ok.mp run
  obtain ⟨inner, compiles', run⟩ := bind_eq_ok.mp run
  have none := Grammar.registries_of_ofTree compiles
  have none' := Grammar.registries_of_ofTree compiles'
  have verbatim : (nestedWords outer inner).Verbatim := by
    refine .fields none.1 none.2 fun entry mem => ?_
    obtain rfl := List.mem_singleton.mp mem
    refine .fields none'.1 none'.2 fun entry mem => ?_
    obtain rfl := List.mem_singleton.mp mem
    exact .words rfl
  obtain ⟨completions, eq, extends'⟩ := extends_of_verbatim verbatim ⟨"éb", "b"⟩ .request
  refine ⟨outer, inner, completions, compiles, compiles', eq, ?_, extends'⟩
  have keys := Except.ok.inj run
  rw [eq] at keys
  exact Except.ok.inj keys

end Completer

end LineGrammar
