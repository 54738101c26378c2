import LineGrammar.Proofs.Grammar.Acceptance
import LineGrammar.Proofs.Grammar.Captures
import LineGrammar.Proofs.Text.CommonPrefix

/-! Grammars of a verbatim text. Each character is a leaf that spells itself, so the grammar matches
the text alone. The body for its beginnings tries the longest first: it goes on behind a character
before it stops at it, and so leads as far as the input agrees with the text. -/

namespace LineGrammar

namespace Leaf

/-- The leaf for a character. -/
def verbatim (c : Char) : String :=
  String.ofList (if patternChars.contains c then ['\\', c] else [c])

theorem native_verbatim (c : Char) : native (verbatim c) = .ok (verbatim c) := by
  unfold native verbatim
  rw [String.toList_ofList]
  by_cases special : patternChars.contains c = true
  · have escaped : escape false 0 c [] = .ok (['\\', c], 0) := by
      simp only [patternChars, List.contains_eq_mem, List.mem_cons, List.not_mem_nil, or_false,
        decide_eq_true_eq] at special
      rcases special with rfl | rfl | rfl | rfl | rfl | rfl | rfl | rfl | rfl | rfl | rfl | rfl |
        rfl | rfl | rfl <;> rfl
    rw [if_pos special, nativeFrom.eq_def]
    simp [escaped, nativeFrom_nil, Except.map]
  · rw [if_neg special, nativeFrom.eq_def]
    simp only [patternChars, List.contains_eq_mem, List.mem_cons, List.not_mem_nil, or_false,
      decide_eq_true_eq, not_or] at special
    simp [special, nativeFrom_nil, Except.map]

end Leaf

namespace Body

open Pattern

def ofChar (c : Char) : Body := single (Leaf.verbatim c).toList (.one (.single c.toNat false))

@[simp] theorem names_ofChar (c : Char) : (ofChar c).names = [] := rfl

theorem pattern_ofChar (c : Char) : (ofChar c).pattern = .one (.single c.toNat false) := rfl

variable {strict : Prop}

theorem readable_ofChar (c : Char) : (ofChar c).Readable strict := by
  unfold ofChar Leaf.verbatim
  rw [String.toList_ofList]
  by_cases special : Leaf.patternChars.contains c = true
  · rw [if_pos special]
    exact readable_escape [] (.point c.toNat) (Leaf.escape_special special)
  · rw [if_neg special]
    refine readable_char ?_
    simp_all [Leaf.patternChars, specialChars]

theorem ofLeaf_verbatim (c : Char) : ofLeaf (Leaf.verbatim c) = ofChar c := by
  have read : Pattern.read (Leaf.verbatim c) = .ok (.one (.single c.toNat false)) :=
    read_of_readable (readable_ofChar c)
  simp only [ofLeaf, Leaf.native_verbatim, read]
  rfl

variable {input text : List Char} {point : Point} {c : Char}

/-- The points are those behind a position up to which the input agrees with the text, the farthest
one first. -/
structure Agrees (text input : List Char) (i : Nat) (points : List Point) : Prop where
  farthest : points.head?.map (·.position) =
    some (i + (Text.commonPrefix text (input.drop i)).length)
  all : ∀ j, (∃ reached ∈ points, reached.position = j) ↔
    i ≤ j ∧ j ≤ i + (Text.commonPrefix text (input.drop i)).length

def Follows (text : List Char) (body : Body) : Prop :=
  ∀ (input : List Char) (point : Point), Agrees text input point.position
    (body.pattern.ways input.toArray .forward point)

theorem ways_ofChar (input : List Char) (c : Char) (point : Point) :
    (ofChar c).pattern.ways input.toArray .forward point =
      if input[point.position]? = some c then [{ point with position := point.position + 1 }]
      else [] := by
  rw [pattern_ofChar, Pattern.ways, Ways.one, Direction.next?, List.getElem?_toArray]
  cases next : input[point.position]? with
  | none => simp
  | some d => simp [CodeSet.contains_single, Char.toNat_inj]

def optionalChar (c : Char) : Body := (ofChar c).repeated ['?'] ⟨0, some 1, true⟩

theorem ways_optionalChar (input : List Char) (c : Char) (point : Point) :
    (optionalChar c).pattern.ways input.toArray .forward point =
      if input[point.position]? = some c then
        [{ point with position := point.position + 1 }, point]
      else [point] := by
  have pattern : (optionalChar c).pattern =
      .repeated (ofChar c).pattern ⟨0, some 1, true⟩ := rfl
  rw [pattern, Pattern.ways, Ways.repeated]
  by_cases next : input[point.position]? = some c
  · have within : point.position < input.length := (List.getElem?_eq_some_iff.mp next).1
    have room : Ways.further input.toArray .forward ⟨0, some 1, true⟩ point.position = 1 := by
      simp only [Ways.further, Direction.room, List.size_toArray]
      omega
    simp [Ways.exactly, Ways.empty, room, Ways.upTo, ways_ofChar, next]
  · have stays (count : Nat) : Ways.upTo ((ofChar c).pattern.ways input.toArray .forward)
        point.captures true count point = [point] := by
      cases count with
      | zero => rfl
      | succ count => simp [Ways.upTo, ways_ofChar, next]
    simp [Ways.exactly, Ways.empty, stays, next]

theorem agrees_here (differs : (Text.commonPrefix text (input.drop point.position)).length = 0) :
    Agrees text input point.position [point] where
  farthest := by rw [differs]; rfl
  all j := by
    rw [differs]
    simp only [List.mem_singleton, exists_eq_left]
    omega

theorem Agrees.behind {points others : List Point}
    (agrees : Agrees text input (point.position + 1) points)
    (next : input[point.position]? = some c)
    (each : ∀ reached ∈ others, reached.position = point.position + 1) :
    Agrees (c :: text) input point.position (points ++ (others ++ [point])) := by
  have longer := Text.length_commonPrefix_drop text input point.position c
  rw [if_pos next] at longer
  constructor
  · obtain ⟨reached, first, same⟩ := Option.map_eq_some_iff.mp agrees.farthest
    rw [List.head?_append, first, Option.some_or, Option.map_some, same, longer, Nat.add_assoc,
      Nat.add_comm 1]
  · intro j
    constructor
    · rintro ⟨reached, mem, rfl⟩
      rw [List.mem_append, List.mem_append, List.mem_singleton] at mem
      rcases mem with mem | mem | rfl
      · have := (agrees.all _).mp ⟨reached, mem, rfl⟩
        omega
      · have := each reached mem
        omega
      · omega
    · rintro ⟨least, most⟩
      by_cases here : j = point.position
      · exact ⟨point, by simp, here.symm⟩
      · obtain ⟨reached, mem, same⟩ := (agrees.all j).mpr ⟨by omega, by omega⟩
        exact ⟨reached, List.mem_append_left _ mem, same⟩

theorem follows_empty : Follows [] empty := fun input point => agrees_here (by simp)

theorem follows_optionalChar (c : Char) : Follows [c] (optionalChar c) := by
  intro input point
  rw [ways_optionalChar]
  by_cases next : input[point.position]? = some c
  · have after := follows_empty input { point with position := point.position + 1 }
    rw [if_pos next]
    exact after.behind next (List.forall_mem_nil _)
  · rw [if_neg next]
    exact agrees_here (by rw [Text.length_commonPrefix_drop, if_neg next])

def charPart (c : Char) : BodyPart := ⟨false, ofChar c, [optionalChar c]⟩

def stops (text : List Char) : Body := BodyPart.stopsOutside (text.map charPart)

theorem stops_cons (c : Char) (text : List Char) :
    stops (c :: text) = choice [(ofChar c).append (stops text), choice [optionalChar c]] := rfl

theorem names_stops (text : List Char) : (stops text).names = [] := by
  induction text with
  | nil => rfl
  | cons c text ih =>
    rw [stops_cons]
    simp [choice, append, ih, optionalChar, repeated]

theorem ways_stops_cons (input : List Char) (c : Char) (text : List Char) (point : Point) :
    (stops (c :: text)).pattern.ways input.toArray .forward point =
      ((ofChar c).pattern.ways input.toArray .forward point).flatMap
          ((stops text).pattern.ways input.toArray .forward) ++
        (optionalChar c).pattern.ways input.toArray .forward point := by
  have pattern : (stops (c :: text)).pattern =
      .choice ((ofChar c).append (stops text)).pattern (optionalChar c).pattern := by
    rw [stops_cons]
    simp [choice, branches, Body.pattern, append, names_stops, ofBranches, ofTerms]
  have first : ((ofChar c).append (stops text)).pattern.ways input.toArray .forward =
      ((ofChar c).pattern.ways input.toArray .forward).sequence
        ((stops text).pattern.ways input.toArray .forward) := by
    rw [Body.pattern, append, ways_ofTerms_append, names_ofChar, List.length_nil, map_shift_zero]
    rfl
  rw [pattern, Pattern.ways, Ways.choice, first]
  rfl

theorem follows_stops (text : List Char) : Follows text (stops text) := by
  induction text with
  | nil => exact follows_empty
  | cons c text ih =>
    intro input point
    rw [ways_stops_cons, ways_ofChar, ways_optionalChar]
    by_cases next : input[point.position]? = some c
    · have after := ih input { point with position := point.position + 1 }
      rw [if_pos next, if_pos next, List.flatMap_singleton]
      exact after.behind next (List.forall_mem_singleton.mpr rfl)
    · rw [if_neg next, if_neg next, List.flatMap_nil, List.nil_append]
      exact agrees_here (by rw [Text.length_commonPrefix_drop, if_neg next])

theorem spans_ofChar {i j : Nat} :
    (ofChar c).Spans input.toArray i j ↔ input[i]? = some c ∧ j = i + 1 := by
  rw [Spans, pattern_ofChar, takes_one]
  simp [CodeSet.contains_single, Char.toNat_inj]

theorem spans_concat_ofChar {i j : Nat} :
    (concat (text.map ofChar)).Spans input.toArray i j ↔
      text <+: input.drop i ∧ j = i + text.length := by
  induction text generalizing i with
  | nil => simp [concat, eq_comm]
  | cons c text ih =>
    rw [List.map_cons, spans_concat_cons]
    simp only [spans_ofChar, ih]
    constructor
    · rintro ⟨_, ⟨next, rfl⟩, begins, rfl⟩
      obtain ⟨within, rfl⟩ := List.getElem?_eq_some_iff.mp next
      rw [List.drop_eq_getElem_cons within, List.prefix_cons_inj, List.length_cons]
      exact ⟨begins, by omega⟩
    · rintro ⟨begins, rfl⟩
      obtain ⟨rest, split, begins⟩ := List.cons_prefix_iff.mp begins
      have next : input[i]? = some c := by
        rw [← Nat.add_zero i, ← List.getElem?_drop, split, List.getElem?_cons_zero]
      have behind : input.drop (i + 1) = rest := by
        rw [← List.tail_drop, split, List.tail_cons]
      exact ⟨_, ⟨next, rfl⟩, behind ▸ begins, by rw [List.length_cons]; omega⟩

end Body

namespace BodyPart

theorem stopsInVariable_eq_nil {parts : List BodyPart}
    (plain : ∀ part ∈ parts, part.hasVariable = false) (head : Body) :
    stopsInVariable head parts = [] := by
  induction parts generalizing head with
  | nil => rfl
  | cons part rest ih =>
    obtain ⟨first, others⟩ := List.forall_mem_cons.mp plain
    simp [stopsInVariable, first, ih others]

end BodyPart

namespace Tree

variable {text : String} {inner : Tree} {strict : Prop}

theorem cases_of_mem_literal (mem : inner ∈ (literal text).subtrees) :
    (∃ parts, inner = sequence parts) ∨ ∃ c, inner = leaf (Leaf.verbatim c) := by
  have leaves : ∀ part ∈ text.toList.map literalChar, inner ∈ part.subtrees →
      ∃ c, inner = leaf (Leaf.verbatim c) := by
    intro part mem below
    obtain ⟨c, -, rfl⟩ := List.mem_map.mp mem
    exact ⟨c, List.mem_singleton.mp below⟩
  unfold literal ofParts at mem
  split at mem
  · next part single => exact .inr (leaves part (by simp [single]) mem)
  · rw [subtrees, List.mem_cons, mem_allSubtrees] at mem
    rcases mem with rfl | ⟨part, mem, below⟩
    · exact .inl ⟨_, rfl⟩
    · exact .inr (leaves part mem below)

theorem exists_verbatim_of_mem_literal {spelled : String}
    (mem : leaf spelled ∈ (literal text).subtrees) : ∃ c, spelled = Leaf.verbatim c := by
  obtain ⟨parts, same⟩ | ⟨c, same⟩ := cases_of_mem_literal mem
  · cases same
  · exact ⟨c, leaf.inj same⟩

theorem lowerable_literal (text : String) : (literal text).Lowerable where
  native spelled mem := by
    obtain ⟨c, rfl⟩ := exists_verbatim_of_mem_literal mem
    exact ⟨_, Leaf.native_verbatim c⟩
  negative negated body mem := by
    obtain ⟨parts, same⟩ | ⟨c, same⟩ := cases_of_mem_literal mem <;> cases same

theorem grounds_literal (text : String) : (literal text).Grounds (Body.Readable strict) where
  leaf spelled mem := by
    obtain ⟨c, rfl⟩ := exists_verbatim_of_mem_literal mem
    exact Body.ofLeaf_verbatim c ▸ Body.readable_ofChar c
  look negated body mem := by
    obtain ⟨parts, same⟩ | ⟨c, same⟩ := cases_of_mem_literal mem <;> cases same
  bounds body repetition mem := by
    obtain ⟨parts, same⟩ | ⟨c, same⟩ := cases_of_mem_literal mem <;> cases same

theorem readable_literal (text : String) :
    (literal text).bodyPart.All (Body.Readable strict) :=
  (grounds_literal text).all hereditary_readable

theorem bodyPart_literalChar (c : Char) : (literalChar c).bodyPart = Body.charPart c := by
  have leaf : (literalChar c).bodyPart = ⟨false, .ofLeaf (Leaf.verbatim c),
      [(Body.ofLeaf (Leaf.verbatim c)).repeated ['?'] ⟨0, some 1, true⟩]⟩ := rfl
  rw [leaf, Body.ofLeaf_verbatim]
  rfl

theorem spans_ofParts {input : Array Char} {trees : List Tree} {i j : Nat} :
    (ofParts trees).wholeBody.Spans input i j ↔
      (Body.concat (trees.map wholeBody)).Spans input i j := by
  unfold ofParts
  split
  · simp [Body.concat, Body.spans_append]
  · rw [wholeBody, wholeBodies_eq]

theorem spans_literal {input : List Char} :
    (literal text).wholeBody.Spans input.toArray 0 input.length ↔ input = text.toList := by
  have wholes : (text.toList.map literalChar).map wholeBody = text.toList.map Body.ofChar := by
    rw [List.map_map]
    exact List.map_congr_left fun c _ => congrArg BodyPart.whole (bodyPart_literalChar c)
  rw [literal, spans_ofParts, wholes, Body.spans_concat_ofChar, List.drop_zero, Nat.zero_add]
  constructor
  · rintro ⟨begins, length⟩
    exact (begins.eq_of_length length.symm).symm
  · rintro rfl
    exact ⟨List.prefix_refl _, rfl⟩

theorem beginningBodies_literal (text : String) :
    ∃ body, (literal text).beginningBodies = [body] ∧ Body.Follows text.toList body := by
  rw [literal]
  match text.toList with
  | [] => exact ⟨.empty, rfl, Body.follows_empty⟩
  | [c] =>
    exact ⟨_, congrArg BodyPart.beginnings (bodyPart_literalChar c), Body.follows_optionalChar c⟩
  | c :: d :: rest =>
    refine ⟨Body.stops (c :: d :: rest), ?_, Body.follows_stops _⟩
    have parts : bodyParts ((c :: d :: rest).map literalChar) =
        (c :: d :: rest).map Body.charPart := by
      rw [bodyParts_eq, List.map_map]
      exact List.map_congr_left fun c _ => bodyPart_literalChar c
    have plain : ∀ part ∈ (c :: d :: rest).map Body.charPart, part.hasVariable = false := by
      simp [Body.charPart]
    have several : ofParts ((c :: d :: rest).map literalChar) =
        .sequence ((c :: d :: rest).map literalChar) := rfl
    rw [several, beginningBodies, parts, BodyPart.sequenceBeginnings,
      BodyPart.stopsInVariable_eq_nil plain]
    rfl

end Tree

namespace Grammar

variable {names : Array String} {root : Tree}

theorem exists_mapM_of_readable {fragments : List Fragment} {bodies : List Body}
    {compile : Fragment → Except GrammarError CompiledPattern}
    (compiles : ∀ {fragment : Fragment} {body : Body}, fragment.Represents names body →
      body.Readable True → ∃ compiled, compile fragment = .ok compiled)
    (each : List.Forall₂ (Fragment.Represents names) fragments bodies)
    (readable : ∀ body ∈ bodies, body.Readable True) :
    ∃ patterns, fragments.mapM compile = .ok patterns :=
  exists_mapM_eq_ok fun fragment mem => by
    obtain ⟨body, mem', represents⟩ := exists_of_forall₂_left each mem
    exact compiles represents (readable body mem')

theorem exists_ofTree_of_readable (lowerable : root.Lowerable)
    (readable : root.bodyPart.All (Body.Readable True))
    (escapes unescapes : Registry (String → String)) :
    ∃ grammar, ofTree root escapes unescapes = .ok grammar := by
  obtain ⟨lowered, lowers⟩ := lowerable.exists_lower
  obtain ⟨wholeSame, beginningsSame, -⟩ := Tree.represents_lower lowers
  obtain ⟨whole, anchored⟩ := CompiledPattern.exists_anchored wholeSame readable.whole
  obtain ⟨beginnings, covering⟩ := exists_mapM_of_readable CompiledPattern.exists_anchored
    beginningsSame readable.beginnings
  obtain ⟨withTrailing, trailing⟩ := exists_mapM_of_readable CompiledPattern.exists_withTrailing
    beginningsSame readable.beginnings
  refine ⟨⟨root, whole, beginnings, withTrailing, lowered.groupNames, escapes, unescapes⟩, ?_⟩
  simp only [ofTree, bind_eq_ok, pure, Except.pure, Except.ok.injEq]
  exact ⟨_, lowers, _, anchored, _, covering, _, trailing, rfl⟩

theorem Runs.trailing_of_follows {grammar : Grammar} {body : Body} {text : List Char}
    (runs : grammar.Runs [body]) (follows : Body.Follows text body) (input : String) :
    ((grammar.matchBeginning input).trailingInput? = none ↔ input.toList <+: text) ∧
      ∀ span, (grammar.matchBeginning input).trailing = some span →
        span = ⟨Text.byteLength (Text.commonPrefix text input.toList), input.utf8ByteSize⟩ := by
  obtain ⟨farthest, all⟩ := follows input.toList ⟨0, []⟩
  rw [List.drop_zero, Nat.zero_add] at farthest
  simp only [List.drop_zero, Nat.zero_add, Nat.zero_le, true_and] at all
  constructor
  · have through : body.Spans input.toList.toArray 0 input.toList.length ↔
        input.toList.length ≤ (Text.commonPrefix text input.toList).length :=
      (body.mem_waysFromStart _ _).symm.trans (all _)
    simp only [runs.trailingInput?_eq_none_iff, List.mem_singleton, exists_eq_left, through]
    rw [← Text.length_commonPrefix_eq_iff]
    have := (Text.commonPrefix_prefix_right text input.toList).length_le
    omega
  · intro span trails
    obtain ⟨reached, first, same⟩ := Option.map_eq_some_iff.mp farthest
    have common : input.toList.take reached.position = Text.commonPrefix text input.toList := by
      rw [same]
      exact (List.prefix_iff_eq_take.mp (Text.commonPrefix_prefix_right text input.toList)).symm
    obtain ⟨stop, least, start⟩ := runs.trailing_eq trails
    have atLeast := least body List.mem_cons_self reached first
    have exactly : span.start = Text.byteLength (input.toList.take reached.position) := by
      rcases start with none | ⟨other, mem, reached', first', start⟩
      · omega
      · obtain rfl := List.mem_singleton.mp mem
        obtain rfl := Option.some.inj (first.symm.trans first')
        exact start
    rw [← common, ← exactly, ← stop]

theorem Compiles.isSome_matchWhole?_literal {grammar : Grammar} {text : String}
    (compiles : grammar.Compiles (Tree.literal text)) (input : String) :
    (grammar.matchWhole? input).isSome = true ↔ input = text := by
  have readable : (Tree.literal text).bodyPart.All (Body.Readable False) :=
    Tree.readable_literal text
  have covers := compiles.covers_of_respelled ⟨rfl, rfl, readable.whole.enclosable⟩
  rw [matchWhole?, Option.isSome_map, covers.isSome_iff]
  exact Tree.spans_literal.trans String.toList_inj

/-- The grammar of a literal matches its text alone. The trailing input of any other input starts
where the input first differs from the text. -/
theorem exists_ofTree_literal (text : String) (escapes unescapes : Registry (String → String)) :
    ∃ grammar, ofTree (Tree.literal text) escapes unescapes = .ok grammar ∧ ∀ input : String,
      ((grammar.matchWhole? input).isSome = true ↔ input = text) ∧
      ((grammar.matchBeginning input).trailingInput? = none ↔ input.toList <+: text.toList) ∧
      (¬input.toList <+: text.toList →
        ∃ trailing, (grammar.matchBeginning input).trailingInput? = some trailing ∧
          trailing.span = ⟨Text.byteLength (Text.commonPrefix text.toList input.toList),
            input.utf8ByteSize⟩) := by
  obtain ⟨grammar, compiled⟩ := exists_ofTree_of_readable (Tree.lowerable_literal text)
    (Tree.readable_literal text) escapes unescapes
  refine ⟨grammar, compiled, fun input => ?_⟩
  have compiles := compiles_of_ofTree compiled
  have readable : (Tree.literal text).bodyPart.All (Body.Readable False) :=
    Tree.readable_literal text
  obtain ⟨body, alone, follows⟩ := Tree.beginningBodies_literal text
  have runs : grammar.Runs [body] := alone ▸ compiles.runs_of_respelled
    (List.forall₂_same.mpr fun body mem =>
      ⟨rfl, rfl, (readable.beginnings body mem).enclosable⟩)
  obtain ⟨complete, trails⟩ := runs.trailing_of_follows follows input
  refine ⟨compiles.isSome_matchWhole?_literal input, complete, fun differs => ?_⟩
  obtain ⟨trailing, some⟩ := Option.ne_none_iff_exists'.mp (mt complete.mp differs)
  obtain ⟨span, trailing', rfl⟩ := Option.map_eq_some_iff.mp some
  exact ⟨_, some, trails span trailing'⟩

end Grammar

end LineGrammar
