import LineGrammar.Proofs.Command.Settings
import LineGrammar.Proofs.Expression.RoundTrip
import LineGrammar.Proofs.Grammar.Captures
import LineGrammar.Proofs.Grammar.Identifiers

/-! The lines that tell about a match. The parts of a line have no tab and no line end, as captured
text is quoted and the names of variables are made of other characters. So each line reads back in
one way, and so do all of them together. -/

namespace LineGrammar

namespace Session

open Text Pattern

def IsField (text : String) : Prop := '\t' ∉ text.toList ∧ '\n' ∉ text.toList

variable {kind name : String} {occurrence : Occurrence}

theorem isField_of_isNameChar (all : ∀ c ∈ name.toList, Token.isNameChar c = true) :
    IsField name := by
  have other : ∀ c, Token.isNameChar c = true → c ≠ '\t' ∧ c ≠ '\n' := by
    rintro c allowed
    constructor <;> rintro rfl <;> simp [Token.isNameChar, Char.isAlphanum, Char.isAlpha,
      Char.isUpper, Char.isLower, Char.isDigit] at allowed
  exact ⟨fun mem => (other _ (all _ mem)).1 rfl, fun mem => (other _ (all _ mem)).2 rfl⟩

theorem isField_trailingName : IsField Match.trailingName := by
  simp [IsField, Match.trailingName]

def bounds (span : Span) : List Char := digits span.start ++ '.' :: '.' :: digits span.stop

theorem not_mem_digits {c : Char} (sign : c ∈ ['\t', '\n', '.', '}']) (n : Nat) : c ∉ digits n :=
  not_mem_toDigits (by decide) (by decide) sign

theorem digits_injective : digits.Injective := toDigits_injective (by decide) (by decide)

theorem tab_not_mem_bounds (span : Span) : '\t' ∉ bounds span := by
  simp [bounds, not_mem_digits]

theorem bounds_injective : bounds.Injective := by
  rintro ⟨start, stop⟩ ⟨start', stop'⟩ same
  obtain ⟨first, second⟩ :=
    append_cons_inj (not_mem_digits (by decide) _) (not_mem_digits (by decide) _) same
  obtain rfl : start = start' := digits_injective first
  obtain rfl : stop = stop' := digits_injective (List.cons.inj second).2
  rfl

theorem toList_occurrenceLine (kind : String) (occurrence : Occurrence) :
    (occurrenceLine kind occurrence).toList =
      kind.toList ++ '\t' :: (occurrence.name.toList ++ '\t' ::
        (bounds occurrence.span ++ '\t' :: ((quote occurrence.value).toList ++ ['\n']))) := by
  have dots : ("..".toList : List Char) = ['.', '.'] := by simp
  simp [occurrenceLine, tabbed, bounds, ← toList_toString, dots, toString]

abbrev Entry : Type := String × Occurrence

namespace Entry

def line (entry : Entry) : List Char := (occurrenceLine entry.1 entry.2).toList

/-- The kind and the name are parts of a line. -/
structure IsPlain (entry : Entry) : Prop where
  kind : IsField entry.1
  name : IsField entry.2.name

theorem line_append (entry : Entry) (rest : List Char) :
    entry.line ++ rest = entry.1.toList ++ '\t' :: (entry.2.name.toList ++ '\t' ::
      (bounds entry.2.span ++ '\t' :: ((quote entry.2.value).toList ++ '\n' :: rest))) := by
  simp [line, toList_occurrenceLine]

theorem selfDelimiting_line : SelfDelimiting IsPlain line := by
  intro first second rest rest' plain plain' same
  rw [line_append, line_append] at same
  obtain ⟨kinds, same⟩ := append_cons_inj plain.kind.1 plain'.kind.1 same
  obtain ⟨names, same⟩ := append_cons_inj plain.name.1 plain'.name.1 same
  obtain ⟨spans, same⟩ := append_cons_inj (tab_not_mem_bounds _) (tab_not_mem_bounds _) same
  have quoted := not_mem_quote (c := '\n') (by simp)
  obtain ⟨values, rest⟩ := append_cons_inj (quoted _) (quoted _) same
  obtain ⟨kind, name, value, span⟩ := first
  obtain ⟨kind', name', value', span'⟩ := second
  obtain rfl : kind = kind' := String.toList_inj.mp kinds
  obtain rfl : name = name' := String.toList_inj.mp names
  obtain rfl : value = value' := quote_injective (String.toList_inj.mp values)
  obtain rfl : span = span' := bounds_injective spans
  exact ⟨rfl, rest⟩

theorem eq_of_lines {entries others : List Entry} (each : ∀ entry ∈ entries, entry.IsPlain)
    (each' : ∀ entry ∈ others, entry.IsPlain)
    (same : entries.flatMap line = others.flatMap line) : entries = others := by
  refine selfDelimiting_line.flatMap_inj (fun entry => ?_) each each' same
  simp [line, toList_occurrenceLine]

def ofKind (kind : String) (entries : List Entry) : List Occurrence :=
  (entries.filter (·.1 = kind)).map (·.2)

end Entry

open Entry

theorem toList_lines (kind : String) (occurrences : List Occurrence) :
    (String.join (occurrences.map (occurrenceLine kind))).toList =
      (occurrences.map (kind, ·)).flatMap line := by
  simp [String.toList_join, List.flatMap_map, line]

/-- A session that writes text. -/
def IsTextual (session : Session) : Prop :=
  ∃ expression words styles defaultStyle,
    ofExpression expression words styles defaultStyle false = .ok session

variable {session : Session} {input : String}

theorem IsTextual.json (textual : session.IsTextual) : session.json = false := by
  obtain ⟨expression, words, styles, defaultStyle, made⟩ := textual
  exact (parts_of_ofExpression made).2.1

theorem IsTextual.exists_expression (textual : session.IsTextual) :
    ∃ expression, Grammar.ofExpression expression [] [] = .ok session.grammar := by
  obtain ⟨expression, words, styles, defaultStyle, made⟩ := textual
  exact ⟨expression, (parts_of_ofExpression made).1⟩

theorem IsTextual.isField (textual : session.IsTextual) {captures : List (Nat × Span)}
    {field : String × Span} (mem : field ∈ Match.named session.grammar captures) :
    IsField field.1 := by
  obtain ⟨expression, compiles⟩ := textual.exists_expression
  obtain ⟨root, read, made⟩ := bind_eq_ok.mp compiles
  obtain ⟨group, -, named⟩ := Match.mem_named.mp mem
  exact isField_of_isNameChar
    (Tree.isNameChar_of_ofExpression read (Grammar.mem_variableNames made named))

theorem IsTextual.isField_whole (textual : session.IsTextual) {result : Match}
    (matched : session.grammar.matchWhole? input = some result) :
    ∀ occurrence ∈ result.occurrences, IsField occurrence.name := by
  obtain ⟨captures, -, rfl⟩ := Option.map_eq_some_iff.mp matched
  exact List.forall_mem_map.mpr fun field mem => textual.isField mem

theorem IsTextual.isField_beginning (textual : session.IsTextual) (input : String) :
    ∀ field ∈ (session.grammar.matchBeginning input).fields, IsField field.1 := by
  intro field mem
  rw [Grammar.matchBeginning] at mem
  split at mem
  · exact textual.isField mem
  · exact textual.isField mem

def beginningEntries (result : Match) : List Entry :=
  result.occurrences.map ("var", ·) ++ (result.endNodes.map ("end", ·) ++
    result.trailingInput?.toList.map ("trailing", ·))

theorem isField_kind : IsField "var" ∧ IsField "end" ∧ IsField "trailing" := by
  simp [IsField]

theorem isPlain_map {occurrences : List Occurrence} (field : IsField kind)
    (each : ∀ occurrence ∈ occurrences, IsField occurrence.name) :
    ∀ entry ∈ occurrences.map (kind, ·), Entry.IsPlain entry :=
  List.forall_mem_map.mpr fun occurrence mem => ⟨field, each occurrence mem⟩

theorem IsTextual.isPlain_beginning (textual : session.IsTextual) (input : String) :
    ∀ entry ∈ beginningEntries (session.grammar.matchBeginning input), entry.IsPlain := by
  have fields := textual.isField_beginning input
  have trailing : ∀ occurrence ∈ (session.grammar.matchBeginning input).trailingInput?.toList,
      IsField occurrence.name := by
    intro occurrence mem
    obtain ⟨span, -, rfl⟩ := Option.map_eq_some_iff.mp (Option.mem_toList.mp mem)
    exact isField_trailingName
  refine List.forall_mem_append.mpr ⟨isPlain_map isField_kind.1 ?_,
    List.forall_mem_append.mpr ⟨isPlain_map isField_kind.2.1 ?_,
      isPlain_map isField_kind.2.2 trailing⟩⟩
  · exact List.forall_mem_map.mpr fields
  · exact List.forall_mem_map.mpr fun field mem => fields field (List.mem_filter.mp mem).1

theorem ofKind_map (kind other : String) (occurrences : List Occurrence) :
    ofKind kind (occurrences.map (other, ·)) = if other = kind then occurrences else [] := by
  by_cases same : other = kind <;> simp [ofKind, same, List.filter_map, Function.comp_def]

theorem ofKind_append (kind : String) (entries others : List Entry) :
    ofKind kind (entries ++ others) = ofKind kind entries ++ ofKind kind others := by
  simp [ofKind]

theorem eq_of_beginningEntries {result other : Match}
    (same : beginningEntries result = beginningEntries other) :
    result.occurrences = other.occurrences ∧ result.endNodes = other.endNodes ∧
      result.trailingInput? = other.trailingInput? := by
  have lists (kind : String) := congrArg (ofKind kind) same
  simp only [beginningEntries, ofKind_append, ofKind_map] at lists
  have trailing := congrArg List.head? (lists "trailing")
  exact ⟨by simpa using lists "var", by simpa using lists "end", by simpa using trailing⟩

theorem toList_beginning (textual : session.IsTextual) (input : String) :
    (session.beginning input).2.toList =
      (beginningEntries (session.grammar.matchBeginning input)).flatMap line := by
  simp only [beginning, textual.json, Bool.false_eq_true, if_false, String.toList_append,
    toList_lines, beginningEntries, List.flatMap_append, List.append_assoc]

theorem toList_whole (textual : session.IsTextual) (input : String) :
    (session.whole input).2.toList = match session.grammar.matchWhole? input with
      | some result => (result.occurrences.map ("var", ·)).flatMap line
      | none => "no match\n".toList := by
  cases matched : session.grammar.matchWhole? input with
  | none => simp [whole, textual.json, matched]
  | some result =>
    simp only [whole, textual.json, matched, Option.map_some, Option.getD_some, Option.isSome_some,
      if_true, Bool.false_eq_true, if_false, toList_lines]

theorem flatMap_line_ne (occurrences : List Occurrence) :
    (occurrences.map ("var", ·)).flatMap line ≠ "no match\n".toList := by
  cases occurrences with
  | nil => simp
  | cons occurrence rest =>
    rw [List.map_cons, List.flatMap_cons, line_append]
    simp

theorem outcome_whole (session : Session) (input : String) :
    (session.whole input).1 = outcomeOf (session.grammar.matchWhole? input).isSome := rfl

theorem occurrences_of_whole {first second : Session} (textual : first.IsTextual)
    (textual' : second.IsTextual) {input other : String}
    (same : (first.whole input).2 = (second.whole other).2) :
    (first.grammar.matchWhole? input).map (·.occurrences) =
      (second.grammar.matchWhole? other).map (·.occurrences) := by
  have written := congrArg String.toList same
  rw [toList_whole textual, toList_whole textual'] at written
  cases matched : first.grammar.matchWhole? input with
  | none =>
    cases matched' : second.grammar.matchWhole? other with
    | none => rfl
    | some result' =>
      simp only [matched, matched'] at written
      exact absurd written.symm (flatMap_line_ne _)
  | some result =>
    cases matched' : second.grammar.matchWhole? other with
    | none =>
      simp only [matched, matched'] at written
      exact absurd written (flatMap_line_ne _)
    | some result' =>
      simp only [matched, matched'] at written
      have entries := eq_of_lines (isPlain_map isField_kind.1 (textual.isField_whole matched))
        (isPlain_map isField_kind.1 (textual'.isField_whole matched')) written
      have occurrences := congrArg (List.map Prod.snd) entries
      simpa using occurrences

theorem input_matchWhole? {grammar : Grammar} {result : Match}
    (matched : grammar.matchWhole? input = some result) :
    result.input = input ∧ result.trailingInput? = none := by
  obtain ⟨captures, -, rfl⟩ := Option.map_eq_some_iff.mp matched
  exact ⟨rfl, rfl⟩

theorem endNodes_eq_filter (result : Match) : result.endNodes = result.occurrences.filter
    fun occurrence => occurrence.span.stop = result.input.utf8ByteSize := by
  rw [Match.endNodes, Match.occurrences, List.filter_map]
  rfl

theorem endNodes_eq_iff {result other : Match} (same : result.occurrences = other.occurrences) :
    result.endNodes = other.endNodes ↔
      result.input.utf8ByteSize = other.input.utf8ByteSize ∨
        result.endNodes = [] ∧ other.endNodes = [] := by
  constructor
  · intro equal
    refine or_iff_not_imp_left.mpr fun longer => ?_
    have none : result.endNodes = [] := by
      refine List.eq_nil_iff_forall_not_mem.mpr fun occurrence mem => longer ?_
      have mem' := equal ▸ mem
      rw [endNodes_eq_filter, List.mem_filter, decide_eq_true_iff] at mem mem'
      exact mem.2.symm.trans mem'.2
    exact ⟨none, equal ▸ none⟩
  · rintro (length | ⟨none, none'⟩)
    · rw [endNodes_eq_filter, endNodes_eq_filter, same, length]
    · rw [none, none']

/-- What the two commands write as text determines what they found: whether the input was accepted,
and the name, the value and the bounds of every variable and of the trailing input, and for the
beginning of a sentence of every variable at the end. For a whole sentence the variables at the end
are not written; they are the same if the inputs are equally long or no variable is at an end. -/
theorem found_of_output {first second : Session} (textual : first.IsTextual)
    (textual' : second.IsTextual) (input other : String) :
    ((first.whole input).2.toUTF8 = (second.whole other).2.toUTF8 →
      (first.whole input).1 = (second.whole other).1 ∧
        let found := first.grammar.matchWhole? input
        let found' := second.grammar.matchWhole? other
        found.map (·.occurrences) = found'.map (·.occurrences) ∧
          found.map (·.trailingInput?) = found'.map (·.trailingInput?) ∧
          ∀ result ∈ found, ∀ result' ∈ found', result.endNodes = result'.endNodes ↔
            input.utf8ByteSize = other.utf8ByteSize ∨
              result.endNodes = [] ∧ result'.endNodes = []) ∧
    ((first.beginning input).2.toUTF8 = (second.beginning other).2.toUTF8 →
      (first.beginning input).1 = (second.beginning other).1 ∧
        let found := first.grammar.matchBeginning input
        let found' := second.grammar.matchBeginning other
        found.occurrences = found'.occurrences ∧ found.endNodes = found'.endNodes ∧
          found.trailingInput? = found'.trailingInput?) := by
  constructor
  · intro bytes
    have occurrences := occurrences_of_whole textual textual' (String.toByteArray_inj.mp bytes)
    have accepted := congrArg Option.isSome occurrences
    rw [Option.isSome_map, Option.isSome_map] at accepted
    refine ⟨by rw [outcome_whole, outcome_whole, accepted], occurrences, ?_⟩
    cases matched : first.grammar.matchWhole? input with
    | none =>
      cases matched' : second.grammar.matchWhole? other with
      | none => simp
      | some result' => simp [matched, matched'] at accepted
    | some result =>
      cases matched' : second.grammar.matchWhole? other with
      | none => simp [matched, matched'] at accepted
      | some result' =>
        obtain ⟨rfl, trailing⟩ := input_matchWhole? matched
        obtain ⟨rfl, trailing'⟩ := input_matchWhole? matched'
        rw [matched, matched', Option.map_some, Option.map_some, Option.some.injEq] at occurrences
        refine ⟨by rw [Option.map_some, Option.map_some, trailing, trailing'], ?_⟩
        rintro _ ⟨⟩ _ ⟨⟩
        exact endNodes_eq_iff occurrences
  · intro bytes
    have written := congrArg String.toList (String.toByteArray_inj.mp bytes)
    rw [toList_beginning textual, toList_beginning textual'] at written
    refine ⟨rfl, eq_of_beginningEntries ?_⟩
    exact eq_of_lines (textual.isPlain_beginning input) (textual'.isPlain_beginning other) written

def bare (grammar : Grammar) : Session := ⟨grammar, [], [], "", false⟩

theorem exists_bare {α : Type} {expression : String} {root : Tree} {f : Session → α} {a : α}
    (read : Tree.ofExpression expression = .ok root)
    (run : (Grammar.ofTree root [] []).map (fun grammar => f (bare grammar)) = .ok a) :
    ∃ session, ofExpression expression [] [] "" false = .ok session ∧ f session = a := by
  obtain ⟨grammar, made, same⟩ := map_eq_ok.mp run
  have compiles : Grammar.ofExpression expression [] [] = .ok grammar :=
    bind_eq_ok.mpr ⟨root, read, made⟩
  refine ⟨bare grammar, ?_, same⟩
  simp only [ofExpression, compile, compiles]
  rfl

theorem tokenized_captured {text : String} (leaf : (Tree.leaf text).Tokenized) :
    (Tree.variable "a" (.leaf text)).Tokenized :=
  leaf.variable ⟨by simp, by simp [Token.isNameChar]⟩

theorem tree_captured {text expression : String} (leaf : (Tree.leaf text).Tokenized)
    (whole : text ≠ "\x7b") (rendered : (Tree.variable "a" (.leaf text)).render = expression) :
    Tree.ofExpression expression = .ok (.variable "a" (.leaf text)) :=
  (tokenized_captured leaf).read (by simpa [Tree.leaves] using whole) rfl rendered

theorem found_of_output_tab : ∃ first second,
    ofExpression "(?P<a>\\t)" [] [] "" false = .ok first ∧
    ofExpression "(?P<a>\\s)" [] [] "" false = .ok second ∧
    (first.whole "\t").2 = "var\ta\t0..1\t\"\\t\"\n" ∧
    (first.beginning "\t\t").2 =
      "var\ta\t0..1\t\"\\t\"\ntrailing\t<trailing_input>\t1..2\t\"\\t\"\n" ∧
    (first.grammar.matchWhole? "\t").map (·.occurrences) =
      (second.grammar.matchWhole? "\t").map (·.occurrences) ∧
    (∀ result ∈ first.grammar.matchWhole? "\t", ∀ result' ∈ second.grammar.matchWhole? "\t",
      result.endNodes = result'.endNodes) ∧
    (first.grammar.matchBeginning "\t\t").trailingInput? =
      (second.grammar.matchBeginning "\t\t").trailingInput? := by
  have tab : Tree.ofExpression "(?P<a>\\t)" = .ok (.variable "a" (.leaf "\\t")) :=
    tree_captured (Tree.tokenized_escape 't' "\\t" (by cbv)) (by decide) (by cbv)
  have blank : Tree.ofExpression "(?P<a>\\s)" = .ok (.variable "a" (.leaf "\\s")) :=
    tree_captured (Tree.tokenized_escape 's' "\\s" (by cbv)) (by decide) (by cbv)
  let outputs (session : Session) := ((session.whole "\t").2, (session.beginning "\t\t").2)
  let lines := ("var\ta\t0..1\t\"\\t\"\n",
    "var\ta\t0..1\t\"\\t\"\ntrailing\t<trailing_input>\t1..2\t\"\\t\"\n")
  obtain ⟨first, made, written⟩ := exists_bare (f := outputs) (a := lines) tab (by cbv)
  obtain ⟨second, made', written'⟩ := exists_bare (f := outputs) (a := lines) blank (by cbv)
  rw [Prod.mk.injEq] at written written'
  have textual : first.IsTextual := ⟨_, _, _, _, made⟩
  have textual' : second.IsTextual := ⟨_, _, _, _, made'⟩
  have wholes := congrArg String.toUTF8 (written.1.trans written'.1.symm)
  have beginnings := congrArg String.toUTF8 (written.2.trans written'.2.symm)
  obtain ⟨-, occurrences, -, nodes⟩ := (found_of_output textual textual' "\t" "\t").1 wholes
  obtain ⟨-, -, -, trailing⟩ := (found_of_output textual textual' "\t\t" "\t\t").2 beginnings
  exact ⟨first, second, made, made', written.1, written.2, occurrences,
    fun result mem result' mem' => (nodes result mem result' mem').mpr (.inl rfl), trailing⟩

/-- The variable ends at the end of one input and before the end of the other. -/
theorem endNodes_ne_of_output : ∃ first second,
    ofExpression "(?P<a>x)" [] [] "" false = .ok first ∧
    ofExpression "(?P<a>x)y" [] [] "" false = .ok second ∧
    first.whole "x" = (.accepted, "var\ta\t0..1\t\"x\"\n") ∧
    second.whole "xy" = (.accepted, "var\ta\t0..1\t\"x\"\n") ∧
    (first.grammar.matchWhole? "x").map (·.endNodes) = some [⟨"a", "x", ⟨0, 1⟩⟩] ∧
    (second.grammar.matchWhole? "xy").map (·.endNodes) = some [] := by
  have x : (Tree.leaf "x").Tokenized :=
    Tree.tokenized_char 'x' "x" (by decide) (by decide) (by cbv)
  have y : (Tree.leaf "y").Tokenized :=
    Tree.tokenized_char 'y' "y" (by decide) (by decide) (by cbv)
  have alone : Tree.ofExpression "(?P<a>x)" = .ok (.variable "a" (.leaf "x")) :=
    tree_captured x (by decide) (by cbv)
  have both : (Tree.sequence [.variable "a" (.leaf "x"), .leaf "y"]).Tokenized :=
    Tree.tokenized_sequence (by decide) (by simp [tokenized_captured x, y])
  have before : Tree.ofExpression "(?P<a>x)y" =
      .ok (.sequence [.variable "a" (.leaf "x"), .leaf "y"]) :=
    both.read (by decide) rfl (by cbv)
  let line := (Outcome.accepted, "var\ta\t0..1\t\"x\"\n")
  let outputs (input : String) (session : Session) :=
    (session.whole input, (session.grammar.matchWhole? input).map (·.endNodes))
  obtain ⟨first, made, found⟩ :=
    exists_bare (f := outputs "x") (a := (line, some [⟨"a", "x", ⟨0, 1⟩⟩])) alone (by cbv)
  obtain ⟨second, made', found'⟩ :=
    exists_bare (f := outputs "xy") (a := (line, some [])) before (by cbv)
  rw [Prod.mk.injEq] at found found'
  exact ⟨first, second, made, made', found.1, found'.1, found.2, found'.2⟩

end Session

end LineGrammar
