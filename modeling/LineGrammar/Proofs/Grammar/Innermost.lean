import LineGrammar.Proofs.Grammar.Boundaries
import LineGrammar.Proofs.Tree.Variables

/-! The innermost variable at a position. Of the variables around the position the first of those
with the shortest span is reported. A variable that lies in another one has its span within the span
of the other, so what lies in the reported variable and around the position covers the same text;
where there is such a variable, the reported one is not the innermost. -/

namespace LineGrammar

theorem Span.eq_of_within {span around : Span} {position : Nat} (start : around.start ≤ span.start)
    (stop : span.stop ≤ around.stop) (some : span.contains position = true)
    (le : around.length ≤ span.length) : span = around := by
  obtain ⟨first, last⟩ := span
  obtain ⟨first', last'⟩ := around
  simp only [Span.contains, Span.length, Bool.and_eq_true, decide_eq_true_eq] at *
  rw [Span.mk.injEq]
  omega

namespace Match

theorem shortest?_eq_none_iff {fields : List (String × Span)} :
    shortest? fields = none ↔ fields = [] := by
  cases fields with
  | nil => simp [shortest?]
  | cons first rest =>
    rw [shortest?]
    split <;> simp

theorem exists_append_of_shortest? {fields : List (String × Span)} {field : String × Span}
    (shortest : shortest? fields = some field) :
    ∃ before after, fields = before ++ field :: after ∧
      (∀ other ∈ before, field.2.length < other.2.length) ∧
      ∀ other ∈ after, field.2.length ≤ other.2.length := by
  induction fields generalizing field with
  | nil => simp [shortest?] at shortest
  | cons first rest ih =>
    rw [shortest?] at shortest
    cases later : shortest? rest with
    | none =>
      obtain rfl := shortest?_eq_none_iff.mp later
      obtain rfl : first = field := by simpa [later] using shortest
      exact ⟨[], [], rfl, by simp, by simp⟩
    | some other =>
      obtain ⟨before, after, rfl, longer, notShorter⟩ := ih later
      rw [later] at shortest
      by_cases shorter : other.2.length < first.2.length
      · obtain rfl : other = field := by simpa [shorter] using shortest
        exact ⟨first :: before, after, rfl, List.forall_mem_cons.mpr ⟨shorter, longer⟩, notShorter⟩
      · obtain rfl : first = field := by simpa [shorter] using shortest
        have le := Nat.le_of_not_lt shorter
        refine ⟨[], before ++ other :: after, rfl, by simp, fun span mem => ?_⟩
        rcases List.mem_append.mp mem with mem | mem
        · exact le.trans (Nat.le_of_lt (longer span mem))
        · rcases List.mem_cons.mp mem with rfl | mem
          · exact le
          · exact le.trans (notShorter span mem)

/-- The first of the shortest occurrences around a position. -/
structure IsShortestAt (result : Match) (position : Nat) (found : Occurrence) : Prop where
  mem : found ∈ result.occurrences
  around : found.span.contains position = true
  first : ∃ before after,
    result.occurrences.filter (·.span.contains position) = before ++ found :: after ∧
      (∀ other ∈ before, found.span.length < other.span.length) ∧
      ∀ other ∈ after, found.span.length ≤ other.span.length

theorem IsShortestAt.le {result : Match} {position : Nat} {found other : Occurrence}
    (shortest : result.IsShortestAt position found) (mem : other ∈ result.occurrences)
    (around : other.span.contains position = true) :
    found.span.length ≤ other.span.length := by
  obtain ⟨before, after, split, longer, notShorter⟩ := shortest.first
  have among : other ∈ before ++ found :: after :=
    split ▸ List.mem_filter.mpr ⟨mem, around⟩
  rcases List.mem_append.mp among with among | among
  · exact Nat.le_of_lt (longer other among)
  · rcases List.mem_cons.mp among with rfl | among
    · exact Nat.le_refl _
    · exact notShorter other among

variable {result : Match} {position : Nat}

theorem filter_occurrences :
    (result.fields.filter (·.2.contains position)).map result.occurrence =
      result.occurrences.filter (·.span.contains position) := by
  rw [occurrences, List.filter_map]
  rfl

theorem innermostAt?_eq_none_iff :
    result.innermostAt? position = none ↔
      ∀ occurrence ∈ result.occurrences, occurrence.span.contains position = false := by
  rw [innermostAt?, Option.map_eq_none_iff, shortest?_eq_none_iff, ← List.map_eq_nil_iff,
    filter_occurrences, List.filter_eq_nil_iff]
  simp only [Bool.not_eq_true]

theorem isShortestAt_of_innermostAt? {found : Occurrence}
    (innermost : result.innermostAt? position = some found) :
    result.IsShortestAt position found := by
  obtain ⟨field, shortest, rfl⟩ := Option.map_eq_some_iff.mp innermost
  obtain ⟨before, after, split, longer, notShorter⟩ := exists_append_of_shortest? shortest
  have among : field ∈ result.fields.filter fun field => field.2.contains position :=
    split ▸ List.mem_append_right _ List.mem_cons_self
  obtain ⟨mem, around⟩ := List.mem_filter.mp among
  refine ⟨List.mem_map_of_mem mem, around, before.map result.occurrence,
    after.map result.occurrence, ?_, ?_, ?_⟩
  · rw [← filter_occurrences, split, List.map_append, List.map_cons]
  · rw [List.forall_mem_map]
    exact longer
  · rw [List.forall_mem_map]
    exact notShorter

end Match

namespace Grammar

variable {grammar : Grammar} {input name : String} {span : Span} {place outer inner : Nat}

/-- What the variable at a place of the tree captures when the whole input is matched. -/
structure Captures (grammar : Grammar) (input : String) (place : Nat) (name : String)
    (span : Span) : Prop where
  named : grammar.root.variableNames[place]? = some name
  captured : (grammar.whole.find? input).bind (·.lookup (place + 1)) = some span

structure CoversTree (grammar : Grammar) (body : Body) : Prop where
  covers : grammar.whole.Covers grammar.groupNames body
  orderly : body.Orderly
  names : body.names = grammar.root.variableNames
  scopes : body.scopes = grammar.root.variableNodes.map (·.2.variableNodes.length)

theorem root_of_ofTree {root : Tree} {escapes unescapes : Registry (String → String)}
    (eq : ofTree root escapes unescapes = .ok grammar) : grammar.root = root := by
  simp only [ofTree, bind_eq_ok, pure, Except.pure, Except.ok.injEq] at eq
  obtain ⟨lowered, -, whole, -, beginnings, -, trailing, -, rfl⟩ := eq
  rfl

theorem exists_coversTree {expression : String} {escapes unescapes : Registry (String → String)}
    (compiles : ofExpression expression escapes unescapes = .ok grammar) :
    ∃ body, grammar.CoversTree body := by
  obtain ⟨root, read, made⟩ := bind_eq_ok.mp compiles
  have parsed := Tree.parsed_of_ofExpression read
  have compiles := compiles_of_ofTree made
  have pieced := ((parsed.grounds compiles.negative).all Body.hereditary_pieced).whole
  obtain ⟨body, rereads⟩ := pieced.exists_rereads
  obtain rfl := root_of_ofTree made
  exact ⟨body, compiles.covers_of_respelled rereads.toRespells, rereads.orderly,
    rereads.names.trans (Tree.names_wholeBody _),
    rereads.scopes.trans (Tree.scopes_wholeBody fun text mem => parsed _ mem)⟩

namespace CoversTree

variable {body : Body}

theorem mem_fields_iff (coversTree : grammar.CoversTree body) {result : Match}
    (matched : grammar.matchWhole? input = some result) :
    (name, span) ∈ result.fields ↔ ∃ place, grammar.Captures input place name span := by
  obtain ⟨captures, found, rfl⟩ := Option.map_eq_some_iff.mp matched
  have groups := coversTree.covers.groups
  rw [coversTree.names] at groups
  have known (place : Nat) :
      (grammar.whole.groups[place]?).map (grammar.groupNames[·]?) =
        (grammar.root.variableNames[place]?).map some := by
    have same := congrArg (·[place]?) groups
    simpa using same
  rw [Match.mem_named]
  constructor
  · rintro ⟨group, identified, named⟩
    obtain ⟨place, among, captured⟩ := CompiledPattern.mem_identified.mp identified
    refine ⟨place, ?_, by rw [found]; exact captured⟩
    have same := known place
    rw [among, Option.map_some, show grammar.groupNames[group]? = some name from named] at same
    simpa using same.symm
  · rintro ⟨place, named, captured⟩
    rw [found, Option.bind_some] at captured
    have same := known place
    rw [named, Option.map_some] at same
    obtain ⟨group, among, named⟩ := Option.map_eq_some_iff.mp same
    exact ⟨group, CompiledPattern.mem_identified.mpr ⟨place, among, captured⟩, named⟩

theorem exists_enclosing (coversTree : grammar.CoversTree body)
    (captures : grammar.Captures input inner name span)
    (encloses : grammar.root.Encloses outer inner) :
    ∃ other around, grammar.Captures input outer other around ∧ around.start ≤ span.start ∧
      span.stop ≤ around.stop := by
  obtain ⟨other, inside, place, atOuter, less, rfl⟩ := encloses
  obtain ⟨spans, found, captured⟩ := Option.bind_eq_some_iff.mp captures.captured
  obtain ⟨reached, way, rfl⟩ := coversTree.covers.exists_way found
  obtain ⟨capture, first, rfl⟩ :=
    Option.map_eq_some_iff.mp ((CompiledPattern.lookup_spansOf ..).symm.trans captured)
  have within : body.scopes[outer]? = some inside.variableNodes.length := by
    rw [coversTree.scopes, List.getElem?_map, atOuter, Option.map_some]
  obtain ⟨around, first', start, stop⟩ := coversTree.orderly.find?_enclosing way within
    (by omega : outer < outer + 1 + place) (by omega) first
  refine ⟨other, CompiledPattern.spanOf input.toList around, ⟨?_, ?_⟩,
    Text.monotone_byteLength_take _ start, Text.monotone_byteLength_take _ stop⟩
  · rw [← Tree.map_variableNodes, List.getElem?_map, atOuter, Option.map_some]
  · rw [found, Option.bind_some, CompiledPattern.lookup_spansOf, first', Option.map_some]

end CoversTree

/-- Nothing is reported exactly where no variable is captured. Else the first of the shortest
variables around the position is, and what is captured around the position by the variables in it is
no shorter. -/
theorem innermostAt?_of_matchWhole? {expression : String}
    {escapes unescapes : Registry (String → String)}
    (compiles : ofExpression expression escapes unescapes = .ok grammar) {result : Match}
    (matched : grammar.matchWhole? input = some result) (position : Nat) :
    (result.innermostAt? position = none ↔
        ∀ place name span, grammar.Captures input place name span →
          span.contains position = false) ∧
      ∀ found, result.innermostAt? position = some found →
        result.IsShortestAt position found ∧
        (∃ place, grammar.Captures input place found.name found.span) ∧
        ∀ outer inner name span, grammar.Captures input outer found.name found.span →
          grammar.root.Encloses outer inner → grammar.Captures input inner name span →
          span.contains position = true → span = found.span := by
  obtain ⟨body, coversTree⟩ := exists_coversTree compiles
  have captured {name : String} {span : Span} :
      (∃ occurrence ∈ result.occurrences, occurrence.name = name ∧ occurrence.span = span) ↔
        ∃ place, grammar.Captures input place name span := by
    rw [← coversTree.mem_fields_iff matched]
    constructor
    · rintro ⟨_, mem, rfl, rfl⟩
      obtain ⟨field, among, rfl⟩ := List.mem_map.mp mem
      exact among
    · intro mem
      exact ⟨_, List.mem_map_of_mem mem, rfl, rfl⟩
  refine ⟨Match.innermostAt?_eq_none_iff.trans ⟨fun none place name span captures => ?_,
    fun none occurrence mem => ?_⟩, fun found innermost => ?_⟩
  · obtain ⟨occurrence, mem, -, rfl⟩ := captured.mpr ⟨place, captures⟩
    exact none occurrence mem
  · obtain ⟨place, captures⟩ := captured.mp ⟨occurrence, mem, rfl, rfl⟩
    exact none place _ _ captures
  · have shortest := Match.isShortestAt_of_innermostAt? innermost
    refine ⟨shortest, captured.mp ⟨found, shortest.mem, rfl, rfl⟩, ?_⟩
    intro outer inner name span captures encloses captures' around
    obtain ⟨other, wider, captures'', start, stop⟩ := coversTree.exists_enclosing captures' encloses
    obtain rfl : wider = found.span :=
      Option.some.inj (captures''.captured.symm.trans captures.captured)
    obtain ⟨occurrence, mem, -, rfl⟩ := captured.mpr ⟨inner, captures'⟩
    exact Span.eq_of_within start stop around (shortest.le mem around)

theorem tree_nested : Tree.ofExpression "(?P<a>a(?P<b>b))" =
    .ok (.variable "a" (.sequence [.leaf "a", .variable "b" (.leaf "b")])) := by
  have a : (Tree.leaf "a").Tokenized :=
    Tree.tokenized_char 'a' "a" (by decide) (by decide) (by cbv)
  have b : (Tree.leaf "b").Tokenized :=
    Tree.tokenized_char 'b' "b" (by decide) (by decide) (by cbv)
  have inner : (Tree.variable "b" (.leaf "b")).Tokenized :=
    b.variable ⟨by simp, by simp [Token.isNameChar]⟩
  have body : (Tree.sequence [.leaf "a", .variable "b" (.leaf "b")]).Tokenized :=
    Tree.tokenized_sequence (by decide) (by simp [a, inner])
  have outer := body.variable ⟨show "a" ≠ "" by simp, by simp [Token.isNameChar]⟩
  exact outer.read (by decide) rfl (by cbv)

theorem innermostAt?_nested : ∃ grammar result,
    ofExpression "(?P<a>a(?P<b>b))" [] [] = .ok grammar ∧
      grammar.matchWhole? "ab" = some result ∧
      result.innermostAt? 0 = some ⟨"a", "ab", ⟨0, 2⟩⟩ ∧
      result.IsShortestAt 0 ⟨"a", "ab", ⟨0, 2⟩⟩ ∧
      ∀ outer inner name span, grammar.Captures "ab" outer "a" ⟨0, 2⟩ →
        grammar.root.Encloses outer inner → grammar.Captures "ab" inner name span →
        span.contains 0 = true → span = ⟨0, 2⟩ := by
  have run : (ofTree (.variable "a" (.sequence [.leaf "a", .variable "b" (.leaf "b")])) [] []
      >>= fun grammar => .ok ((grammar.matchWhole? "ab").map (·.innermostAt? 0))) =
        .ok (some (some ⟨"a", "ab", ⟨0, 2⟩⟩)) := by cbv
  obtain ⟨grammar, made, found⟩ := bind_eq_ok.mp run
  obtain ⟨result, matched, innermost⟩ := Option.map_eq_some_iff.mp (Except.ok.inj found)
  have compiles : ofExpression "(?P<a>a(?P<b>b))" [] [] = .ok grammar :=
    bind_eq_ok.mpr ⟨_, tree_nested, made⟩
  obtain ⟨shortest, -, rest⟩ := (innermostAt?_of_matchWhole? compiles matched 0).2 _ innermost
  exact ⟨grammar, result, compiles, matched, innermost, shortest, rest⟩

theorem tree_stacked : Tree.ofExpression "(?P<a>(?P<b>x))" =
    .ok (.variable "a" (.variable "b" (.leaf "x"))) := by
  have x : (Tree.leaf "x").Tokenized :=
    Tree.tokenized_char 'x' "x" (by decide) (by decide) (by cbv)
  have inner : (Tree.variable "b" (.leaf "x")).Tokenized :=
    x.variable ⟨by simp, by simp [Token.isNameChar]⟩
  have outer := inner.variable ⟨show "a" ≠ "" by simp, by simp [Token.isNameChar]⟩
  exact outer.read (by decide) rfl (by cbv)

/-- Of two variables with the same text the outer one is reported. -/
theorem innermostAt?_stacked : ∃ grammar result,
    ofExpression "(?P<a>(?P<b>x))" [] [] = .ok grammar ∧
      grammar.matchWhole? "x" = some result ∧
      result.innermostAt? 0 = some ⟨"a", "x", ⟨0, 1⟩⟩ ∧
      grammar.Captures "x" 0 "a" ⟨0, 1⟩ ∧ grammar.root.Encloses 0 1 ∧
      grammar.Captures "x" 1 "b" ⟨0, 1⟩ ∧ Span.contains ⟨0, 1⟩ 0 = true := by
  have run : (ofTree (.variable "a" (.variable "b" (.leaf "x"))) [] [] >>= fun grammar =>
      .ok ((grammar.matchWhole? "x").map (·.innermostAt? 0),
        (grammar.whole.find? "x").bind (·.lookup 1),
        (grammar.whole.find? "x").bind (·.lookup 2))) =
        .ok (some (some ⟨"a", "x", ⟨0, 1⟩⟩), some ⟨0, 1⟩, some ⟨0, 1⟩) := by cbv
  obtain ⟨grammar, made, found⟩ := bind_eq_ok.mp run
  obtain ⟨matched, outer, inner⟩ : _ ∧ _ ∧ _ := by simpa using Except.ok.inj found
  obtain ⟨result, matched, innermost⟩ := matched
  have root := root_of_ofTree made
  exact ⟨grammar, result, bind_eq_ok.mpr ⟨_, tree_stacked, made⟩, matched, innermost,
    ⟨by rw [root]; rfl, outer⟩,
    ⟨"a", .variable "b" (.leaf "x"), 0, by rw [root]; rfl, by decide, rfl⟩,
    ⟨by rw [root]; rfl, inner⟩, rfl⟩

end Grammar

end LineGrammar
