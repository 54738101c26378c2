import LineGrammar.Proofs.Grammar.BodyUses
import LineGrammar.Proofs.Grammar.Compiling
import LineGrammar.Proofs.Text.Boundaries

/-! What a match makes of the points that its patterns lead to. Positions become byte offsets, and
the number of a group leads to the variable that the group was written for. Of a grammar only the
bodies matter that its patterns run: they tell how far an input is matched, and what each of them
shows on its way is reported. -/

namespace LineGrammar

def Tree.Use.span (input : List Char) (use : Tree.Use) : Span :=
  ⟨Text.byteLength (input.take use.start), Text.byteLength (input.take use.stop)⟩

/-- The name and the bytes of a use, as a match lists them. -/
def Tree.Use.field (input : List Char) (use : Tree.Use) : String × Span :=
  (use.name, use.span input)

namespace CompiledPattern

variable {compiled : CompiledPattern} {input : String}

theorem spanOf_end (capture : Capture) (stops : capture.stop = input.toList.length) :
    (spanOf input.toList capture).stop = input.utf8ByteSize := by
  simp only [spanOf, stops, List.take_length, Text.byteLength_toList]

theorem lookup_spansOf (captures : List Capture) (group : Nat) :
    (spansOf input captures).lookup group =
      (captures.find? (·.group = group)).map (spanOf input.toList) := by
  induction captures with
  | nil => rfl
  | cons capture rest ih =>
    rw [spansOf, List.map_cons, List.lookup_cons, List.find?_cons]
    by_cases same : capture.group = group
    · simp [same]
    · have other : (group == capture.group) = false := by
        simp only [beq_eq_false_iff_ne, ne_eq]
        omega
      rw [other, decide_eq_false same]
      exact ih

theorem mem_identified {captures : List (Nat × Span)} {group : Nat} {span : Span} :
    (group, span) ∈ compiled.identified captures ↔
      ∃ index, compiled.groups[index]? = some group ∧
        captures.lookup (index + 1) = some span := by
  simp only [identified, List.mem_filterMap, Prod.exists, List.mem_zipIdx_iff_getElem?,
    Option.map_eq_some_iff, Prod.mk.injEq]
  constructor
  · rintro ⟨other, index, found, span', captured, rfl, rfl⟩
    exact ⟨index, found, captured⟩
  · rintro ⟨index, found, captured⟩
    exact ⟨group, index, found, span, captured, rfl, rfl⟩

theorem filterMap_identified {table : Array String} {groups : List Nat} {names : List String}
    (same : groups.map (table[·]?) = names.map some) (input : String) (captures : List Capture)
    (first : Nat) :
    ((groups.zipIdx first).filterMap fun (group, index) =>
        ((spansOf input captures).lookup (index + 1)).map fun span => (group, span)).filterMap
      (fun (group, span) => (table[group]?).map fun name => (name, span)) =
        (shown (first + 1) names captures).map (Tree.Use.field input.toList) := by
  induction groups generalizing names first with
  | nil =>
    obtain rfl : names = [] := by simpa using same.symm
    rfl
  | cons group rest ih =>
    cases names with
    | nil => simp at same
    | cons name names =>
      rw [List.map_cons, List.map_cons, List.cons.injEq] at same
      have others := ih same.2 (first + 1)
      have looked : (spansOf input captures).lookup (first + 1) =
          (captures.find? (·.group = first + 1)).map (spanOf input.toList) := lookup_spansOf ..
      rw [List.zipIdx_cons, shown_cons, List.map_append, ← others]
      cases latest : captures.find? (·.group = first + 1) with
      | none =>
        rw [latest] at looked
        simp [looked]
      | some capture =>
        rw [latest] at looked
        simp [looked, same.1, Tree.Use.field, Tree.Use.span, spanOf]

theorem named_identified {grammar : Grammar} {body : Body}
    (groups : compiled.groups.map (grammar.groupNames[·]?) = body.names.map some) (input : String)
    (captures : List Capture) :
    Match.named grammar (compiled.identified (spansOf input captures)) =
      ((shown 1 body.names captures).map (Tree.Use.field input.toList)).eraseDups :=
  congrArg List.eraseDups (filterMap_identified groups input captures 0)

theorem exists_positions_of_identified {captures : List (Nat × Span)} {group : Nat} {span : Span}
    (run : compiled.find? input = some captures)
    (identified : (group, span) ∈ compiled.identified captures) :
    ∃ first second, first ≤ second ∧ span = ⟨Text.byteLength (input.toList.take first),
      Text.byteLength (input.toList.take second)⟩ := by
  obtain ⟨index, -, looked⟩ := mem_identified.mp identified
  obtain ⟨spans, matched, rfl⟩ := Option.map_eq_some_iff.mp run
  have latest := (lookup_spansOf spans (index + 1)).symm.trans looked
  obtain ⟨capture, found, rfl⟩ := Option.map_eq_some_iff.mp latest
  exact ⟨_, _, Pattern.ordered_of_find? matched (List.mem_of_find?_eq_some found), rfl⟩

variable {names : Array String} {body : Body}

theorem Trails.trailing?_eq (trails : compiled.Trails names body) (input : String)
    (reached : Point) :
    compiled.trailing? (spansOf input (⟨body.names.length + 1, reached.position,
        input.toList.toArray.size⟩ :: reached.captures)) =
      some ⟨Text.byteLength (input.toList.take reached.position), input.utf8ByteSize⟩ := by
  have count : compiled.groups.length = body.names.length := by
    simpa using congrArg List.length trails.groups
  rw [trailing?, count, lookup_spansOf, List.find?_cons_of_pos (by simp), Option.map_some, spanOf]
  simp [Text.byteLength_toList]

end CompiledPattern

/-- How far the input is matched, in bytes: up to the trailing input. -/
def Match.reach (result : Match) : Nat :=
  match result.trailingInput? with
  | some trailing => trailing.span.start
  | none => result.input.utf8ByteSize

namespace Match

theorem mem_named {grammar : Grammar} {captures : List (Nat × Span)} {name : String}
    {span : Span} :
    (name, span) ∈ named grammar captures ↔
      ∃ group, (group, span) ∈ captures ∧ grammar.groupName? group = some name := by
  simp only [named, List.mem_eraseDups, List.mem_filterMap, Prod.exists, Option.map_eq_some_iff,
    Prod.mk.injEq]
  constructor
  · rintro ⟨group, other, mem, name', found, rfl, rfl⟩
    exact ⟨group, mem, found⟩
  · rintro ⟨group, mem, found⟩
    exact ⟨group, span, mem, name, found, rfl, rfl⟩

theorem exists_endNode_of_field (result : Match) {name : String} {span : Span}
    (mem : (name, span) ∈ result.fields) (stops : span.stop = result.input.utf8ByteSize) :
    ∃ occurrence ∈ result.endNodes, occurrence.name = name ∧ occurrence.span = span := by
  refine ⟨result.occurrence (name, span), List.mem_map_of_mem ?_, rfl, rfl⟩
  rw [List.mem_filter]
  exact ⟨mem, decide_eq_true stops⟩

end Match

namespace Grammar

variable {grammar : Grammar} {input : String} {compiled : CompiledPattern}
  {captures : List (Nat × Span)}

theorem mem_found {patterns : List CompiledPattern} :
    (compiled, captures) ∈ found patterns input ↔
      compiled ∈ patterns ∧ compiled.find? input = some captures := by
  simp only [found, List.mem_filterMap, Option.map_eq_some_iff, Prod.mk.injEq]
  constructor
  · rintro ⟨pattern, mem, captures', found, rfl, rfl⟩
    exact ⟨mem, found⟩
  · rintro ⟨mem, found⟩
    exact ⟨compiled, mem, captures, found, rfl, rfl⟩

theorem matchBeginning_of_found (mem : (compiled, captures) ∈ found grammar.beginnings input) :
    grammar.matchBeginning input =
      ⟨grammar, input, Match.named grammar (identified (found grammar.beginnings input)), none⟩ := by
  have covering : (found grammar.beginnings input).isEmpty = false := by
    simpa using List.ne_nil_of_mem mem
  simp [matchBeginning, covering]

theorem input_matchBeginning (grammar : Grammar) (input : String) :
    (grammar.matchBeginning input).input = input := by
  rw [matchBeginning]
  split <;> rfl

theorem exists_position_of_field {name : String} {span : Span}
    (mem : (name, span) ∈ (grammar.matchBeginning input).fields) :
    ∃ first second, span = ⟨Text.byteLength (input.toList.take first),
      Text.byteLength (input.toList.take second)⟩ := by
  have captured {patterns : List CompiledPattern}
      (mem : (name, span) ∈ Match.named grammar (identified (found patterns input))) :
      ∃ first second, span = ⟨Text.byteLength (input.toList.take first),
        Text.byteLength (input.toList.take second)⟩ := by
    obtain ⟨group, among, -⟩ := Match.mem_named.mp mem
    obtain ⟨⟨compiled, captures⟩, mem', identified⟩ := List.mem_flatMap.mp among
    obtain ⟨first, second, -, same⟩ :=
      CompiledPattern.exists_positions_of_identified (mem_found.mp mem').2 identified
    exact ⟨first, second, same⟩
  rw [matchBeginning] at mem
  split at mem
  · exact captured mem
  · exact captured mem

theorem exists_positions_of_matchWhole? {result : Match} {name : String} {span : Span}
    (matched : grammar.matchWhole? input = some result) (mem : (name, span) ∈ result.fields) :
    ∃ first second, first ≤ second ∧ span = ⟨Text.byteLength (input.toList.take first),
      Text.byteLength (input.toList.take second)⟩ := by
  obtain ⟨captures, run, rfl⟩ := Option.map_eq_some_iff.mp matched
  obtain ⟨group, identified, -⟩ := Match.mem_named.mp mem
  exact CompiledPattern.exists_positions_of_identified run identified

def trailingSpans (grammar : Grammar) (input : String) : List Span :=
  (found grammar.withTrailing input).filterMap fun found => found.1.trailing? found.2

theorem mem_trailingSpans {span : Span} :
    span ∈ grammar.trailingSpans input ↔ ∃ compiled captures, compiled ∈ grammar.withTrailing ∧
      compiled.find? input = some captures ∧ compiled.trailing? captures = some span := by
  simp only [trailingSpans, List.mem_filterMap, Prod.exists, mem_found, and_assoc]

theorem matchBeginning_of_not_found (none : found grammar.beginnings input = []) :
    grammar.matchBeginning input =
      ⟨grammar, input, Match.named grammar (identified (found grammar.withTrailing input)),
        some ((latest? (grammar.trailingSpans input)).getD ⟨0, input.utf8ByteSize⟩)⟩ := by
  rw [matchBeginning, none]
  rfl

theorem foldl_latest (spans : List Span) (seen : Span) :
    spans.foldl (fun seen span =>
      some (match seen with
        | none => span
        | some seen => ⟨max seen.start span.start, max seen.stop span.stop⟩)) (some seen) =
      some ⟨(spans.map (·.start)).foldl max seen.start,
        (spans.map (·.stop)).foldl max seen.stop⟩ := by
  induction spans generalizing seen with
  | nil => rfl
  | cons span rest ih => exact ih _

theorem max?_of_latest? {spans : List Span} {span : Span} (latest : latest? spans = some span) :
    (spans.map (·.start)).max? = some span.start ∧ (spans.map (·.stop)).max? = some span.stop := by
  cases spans with
  | nil => simp [latest?] at latest
  | cons first rest =>
    have folded := foldl_latest rest first
    obtain rfl := Option.some.inj (folded.symm.trans latest)
    exact ⟨rfl, rfl⟩

namespace Runs

variable {bodies : List Body}

theorem found_beginnings_eq_nil_iff (runs : grammar.Runs bodies) :
    found grammar.beginnings input = [] ↔
      ∀ body ∈ bodies, ¬body.Spans input.toList.toArray 0 input.toList.length := by
  constructor
  · intro none body mem spans
    obtain ⟨compiled, mem', covers⟩ := exists_of_forall₂_left runs.beginnings mem
    obtain ⟨captures, found'⟩ := Option.isSome_iff_exists.mp (covers.isSome_iff.mpr spans)
    simpa [none] using mem_found.mpr ⟨mem', found'⟩
  · intro none
    refine List.eq_nil_iff_forall_not_mem.mpr fun ⟨compiled, captures⟩ mem => ?_
    obtain ⟨mem, found'⟩ := mem_found.mp mem
    obtain ⟨body, mem', covers⟩ := exists_of_forall₂_left runs.beginnings.flip mem
    exact none body mem' (covers.isSome_iff.mp (by simp [found']))

theorem trailingInput?_eq_none_iff (runs : grammar.Runs bodies) :
    (grammar.matchBeginning input).trailingInput? = none ↔
      ∃ body ∈ bodies, body.Spans input.toList.toArray 0 input.toList.length := by
  cases covering : found grammar.beginnings input with
  | nil =>
    have none := runs.found_beginnings_eq_nil_iff.mp covering
    rw [matchBeginning_of_not_found covering]
    simpa [Match.trailingInput?] using none
  | cons first rest =>
    have some : found grammar.beginnings input ≠ [] := by simp [covering]
    have spans : ¬∀ body ∈ bodies, ¬body.Spans input.toList.toArray 0 input.toList.length :=
      mt runs.found_beginnings_eq_nil_iff.mpr some
    rw [matchBeginning_of_found (covering ▸ List.mem_cons_self)]
    simpa [Match.trailingInput?] using spans

theorem mem_trailingSpans_iff (runs : grammar.Runs bodies) {span : Span} :
    span ∈ grammar.trailingSpans input ↔ ∃ body ∈ bodies, ∃ reached,
      (body.waysFromStart input.toList.toArray).head? = some reached ∧
        span = ⟨Text.byteLength (input.toList.take reached.position), input.utf8ByteSize⟩ := by
  rw [mem_trailingSpans]
  constructor
  · rintro ⟨compiled, captures, mem, found', trailing⟩
    obtain ⟨body, mem', trails⟩ := exists_of_forall₂_left runs.withTrailing.flip mem
    rw [trails.find] at found'
    obtain ⟨reached, first, rfl⟩ := Option.map_eq_some_iff.mp found'
    rw [trails.trailing?_eq] at trailing
    exact ⟨body, mem', reached, first, (Option.some.inj trailing).symm⟩
  · rintro ⟨body, mem, reached, first, rfl⟩
    obtain ⟨compiled, mem', trails⟩ := exists_of_forall₂_left runs.withTrailing mem
    exact ⟨compiled, _, mem', by rw [trails.find, first, Option.map_some], trails.trailing?_eq ..⟩

theorem trailing_eq (runs : grammar.Runs bodies) {span : Span}
    (trails : (grammar.matchBeginning input).trailing = some span) :
    span.stop = input.utf8ByteSize ∧
      (∀ body ∈ bodies, ∀ reached, (body.waysFromStart input.toList.toArray).head? = some reached →
        Text.byteLength (input.toList.take reached.position) ≤ span.start) ∧
      (span.start = 0 ∨ ∃ body ∈ bodies, ∃ reached,
        (body.waysFromStart input.toList.toArray).head? = some reached ∧
          span.start = Text.byteLength (input.toList.take reached.position)) := by
  have covering : found grammar.beginnings input = [] := by
    by_contra some
    obtain ⟨first, mem⟩ := List.exists_mem_of_ne_nil _ some
    rw [matchBeginning_of_found mem] at trails
    simp at trails
  rw [matchBeginning_of_not_found covering] at trails
  obtain rfl := Option.some.inj trails
  cases latest : latest? (grammar.trailingSpans input) with
  | none =>
    refine ⟨rfl, fun body mem reached first => ?_, .inl rfl⟩
    have mem' := runs.mem_trailingSpans_iff.mpr ⟨body, mem, reached, first, rfl⟩
    obtain ⟨span, rest, spans⟩ := List.exists_cons_of_ne_nil (List.ne_nil_of_mem mem')
    have folded := foldl_latest rest span
    rw [spans, latest?, List.foldl_cons] at latest
    exact absurd (folded.symm.trans latest) (by simp)
  | some span =>
    obtain ⟨start, stop⟩ := max?_of_latest? latest
    rw [List.max?_eq_some_iff] at start stop
    have each {other : Span} (mem : other ∈ grammar.trailingSpans input) :
        other.start ≤ span.start ∧ other.stop = input.utf8ByteSize := by
      obtain ⟨_, _, _, _, rfl⟩ := runs.mem_trailingSpans_iff.mp mem
      exact ⟨start.2 _ (List.mem_map_of_mem mem), rfl⟩
    obtain ⟨other, mem, same⟩ := List.mem_map.mp stop.1
    obtain ⟨first, mem', same'⟩ := List.mem_map.mp start.1
    refine ⟨same.symm.trans (each mem).2, fun body among reached way => ?_, .inr ?_⟩
    · exact (each (runs.mem_trailingSpans_iff.mpr ⟨body, among, reached, way, rfl⟩)).1
    · obtain ⟨body, among, reached, way, rfl⟩ := runs.mem_trailingSpans_iff.mp mem'
      exact ⟨body, among, reached, way, same'.symm⟩

theorem exists_reach (runs : grammar.Runs bodies) (input : String) :
    (∃ body ∈ bodies, ∃ position, body.Spans input.toList.toArray 0 position ∧
        (grammar.matchBeginning input).reach = Text.byteLength (input.toList.take position)) ∨
      (grammar.matchBeginning input).reach = 0 := by
  cases trails : (grammar.matchBeginning input).trailing with
  | none =>
    have complete : (grammar.matchBeginning input).trailingInput? = none := by
      rw [Match.trailingInput?, trails, Option.map_none]
    obtain ⟨body, mem, spans⟩ := runs.trailingInput?_eq_none_iff.mp complete
    refine .inl ⟨body, mem, _, spans, ?_⟩
    rw [Match.reach, complete, input_matchBeginning, List.take_length, Text.byteLength_toList]
  | some span =>
    have reach : (grammar.matchBeginning input).reach = span.start := by
      rw [Match.reach, Match.trailingInput?, trails, Option.map_some]
    rw [reach]
    rcases (runs.trailing_eq trails).2.2 with none | ⟨body, mem, reached, first, start⟩
    · exact .inr none
    · exact .inl ⟨body, mem, reached.position,
        (body.mem_waysFromStart _ _).mp ⟨reached, List.mem_of_mem_head? first, rfl⟩, start⟩

theorem exists_shows (runs : grammar.Runs bodies) {name : String} {span : Span}
    (mem : (name, span) ∈ (grammar.matchBeginning input).fields) :
    ∃ body ∈ bodies, ∃ j seen, body.Shows input.toList.toArray 0 j seen ∧
      Text.byteLength (input.toList.take j) ≤ (grammar.matchBeginning input).reach ∧
      ((grammar.matchBeginning input).trailingInput? = none → j = input.toList.length) ∧
      ∃ use ∈ seen, use.field input.toList = (name, span) := by
  cases covering : found grammar.beginnings input with
  | cons first rest =>
    have covers : first ∈ found grammar.beginnings input := covering ▸ List.mem_cons_self
    rw [matchBeginning_of_found covers] at mem ⊢
    obtain ⟨group, identifies, named⟩ := Match.mem_named.mp mem
    obtain ⟨⟨compiled, captures⟩, among, identifies⟩ := List.mem_flatMap.mp identifies
    obtain ⟨among, found'⟩ := mem_found.mp among
    obtain ⟨body, mem', covers⟩ := exists_of_forall₂_left runs.beginnings.flip among
    obtain ⟨reached, way, rfl⟩ := covers.exists_way found'
    have field := Match.mem_named.mpr ⟨group, identifies, named⟩
    rw [CompiledPattern.named_identified covers.groups, List.mem_eraseDups] at field
    refine ⟨body, mem', _, _, ⟨reached, way, rfl⟩, ?_, fun _ => rfl, List.mem_map.mp field⟩
    simp [Match.reach, Match.trailingInput?, Text.byteLength_toList]
  | nil =>
    have ends := matchBeginning_of_not_found covering
    rw [ends] at mem
    obtain ⟨group, identifies, named⟩ := Match.mem_named.mp mem
    obtain ⟨⟨compiled, captures⟩, among, identifies⟩ := List.mem_flatMap.mp identifies
    obtain ⟨among, found'⟩ := mem_found.mp among
    obtain ⟨body, mem', trails⟩ := exists_of_forall₂_left runs.withTrailing.flip among
    rw [trails.find] at found'
    obtain ⟨reached, first, rfl⟩ := Option.map_eq_some_iff.mp found'
    have field := Match.mem_named.mpr ⟨group, identifies, named⟩
    rw [CompiledPattern.named_identified trails.groups, List.mem_eraseDups,
      ← List.singleton_append, shown_later (by simp; omega)] at field
    refine ⟨body, mem', reached.position, _,
      ⟨reached.captures, List.mem_of_mem_head? first, rfl⟩, ?_, ?_, List.mem_map.mp field⟩
    · have latest := (runs.trailing_eq (congrArg Match.trailing ends)).2.1 body mem' reached first
      rw [ends]
      exact latest
    · rw [ends]
      simp [Match.trailingInput?]

end Runs

end Grammar

end LineGrammar
