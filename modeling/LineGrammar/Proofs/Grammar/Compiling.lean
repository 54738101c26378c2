import LineGrammar.Grammar.Match
import LineGrammar.Proofs.Expression.LeafBody
import LineGrammar.Proofs.Grammar.BodySpans
import LineGrammar.Proofs.Grammar.Lowering
import LineGrammar.Proofs.Pattern.Frame

/-! Compiled grammars. A compiled pattern runs the pattern of a body between the two ends of the
input, so what it finds is told by the ways of that body alone. -/

namespace LineGrammar

namespace Body

open Pattern

variable {strict : Prop} {body : Body}

/-- The points that the pattern of the body leads to from the start of the input. -/
def waysFromStart (input : Array Char) (body : Body) : List Point :=
  body.pattern.ways input .forward ⟨0, []⟩

theorem mem_waysFromStart (body : Body) (input : Array Char) (j : Nat) :
    (∃ reached ∈ body.waysFromStart input, reached.position = j) ↔
      body.Spans input 0 j :=
  ways_reaches input body.pattern .forward ⟨0, []⟩ j

theorem Spans.le_length {input : String} {j : Nat} (spans : body.Spans input.toList.toArray 0 j) :
    j ≤ input.toList.length := by
  simpa using Pattern.Spans.le_size spans (Nat.zero_le _)

theorem exists_first {input : Array Char} {j : Nat} (spans : body.Spans input 0 j) :
    ∃ reached, (body.waysFromStart input).head? = some reached := by
  obtain ⟨reached, mem, -⟩ := (body.mem_waysFromStart input j).mpr spans
  cases ways : body.waysFromStart input with
  | nil => simp [ways] at mem
  | cons first rest => exact ⟨first, rfl⟩

def anchored (body last : Body) : Body :=
  (single ['^'] (.boundary .backward false)).append ((choice [body]).append last)

theorem Enclosable.anchored {last : Body} (enclosable : body.Enclosable strict)
    (readable : last.Readable strict) : (body.anchored last).Readable strict :=
  readable_start.append ((readable_choice (by simpa using enclosable)).append readable)

/-- The body between the two ends of the text. -/
def covering (body : Body) : Body :=
  (single ['^'] (.boundary .backward false)).append
    ((choice [body]).append (single ['$'] (.boundary .forward false)))

def anything : Body := ⟨['.', '*', '?'], [], [Pattern.anything]⟩

/-- The body with a group behind it for what it leaves over. -/
def trailing (body : Body) : Body :=
  (single ['^'] (.boundary .backward false)).append
    ((choice [body]).append ((anything.capture Match.trailingName).append
      (single ['$'] (.boundary .forward false))))

theorem readable_anything : anything.Readable strict where
  unquantified := by simp [anything, Unquantified, isQuantifierStart]
  reads reading rest h unquantified := by
    refine ⟨.nothing, .of_eq ?_⟩
    have dot : reading.step '.' ('*' :: '?' :: rest) =
        .ok (reading.extend [.one .all] 0 .atom, 0) := by
      simp [Reading.step, h.openClass, h.flags, Flags.standard, isQuantifierStart, Reading.push,
        Reading.extend]
    have lazy := Repetition.spells_quantifier ⟨0, none, false⟩ (by simp) (by simp)
    have sign : Repetition.quantifier ⟨0, none, false⟩ = "*?" := rfl
    rw [sign] at lazy
    have quantified := Reading.run_quantified (.one .all) 0 h lazy rfl unquantified
    exact (Reading.run_step 0 dot).trans
      (by simpa [Pattern.anything, shift, anything] using quantified)

theorem Enclosable.covering (enclosable : body.Enclosable strict) :
    body.covering.Readable strict := enclosable.anchored readable_end

theorem Enclosable.trailing (enclosable : body.Enclosable strict) :
    body.trailing.Readable strict :=
  enclosable.anchored ((readable_anything.enclosable.capture _).append readable_end)

theorem pattern_covering :
    body.covering.pattern =
      ofTerms [.boundary .backward false, body.pattern, .boundary .forward false] := by
  simp [covering, Body.pattern, append, single, choice, branches, ofBranches, shift]

theorem pattern_trailing :
    body.trailing.pattern = ofTerms [.boundary .backward false, body.pattern,
      .capture (body.names.length + 1) Pattern.anything, .boundary .forward false] := by
  simp [trailing, anything, Pattern.anything, capture, Body.pattern, append, single, choice,
    branches, ofBranches, shift, Nat.add_comm]
  rfl

end Body

namespace CompiledPattern

variable {strict : Prop} {names : Array String} {fragment : Fragment} {body : Body}
  {compiled : CompiledPattern}

def spansOf (input : String) (captures : List Capture) : List (Nat × Span) :=
  captures.map fun capture => (capture.group, spanOf input.toList capture)

theorem ofSource_eq_ok {source : String} {groups : List Nat} :
    ofSource source groups = .ok compiled ↔
      Pattern.read source = .ok compiled.pattern ∧ source = compiled.source ∧
        groups = compiled.groups := by
  unfold ofSource
  cases Pattern.read source with
  | error fault => simp
  | ok pattern =>
    simp only [Except.ok.injEq]
    constructor
    · rintro rfl
      exact ⟨rfl, rfl, rfl⟩
    · rintro ⟨rfl, rfl, rfl⟩
      rfl

theorem find?_of_anchored (represents : fragment.Represents names body)
    (enclosable : body.Enclosable strict) (compiles : anchored fragment = .ok compiled)
    (input : String) :
    compiled.find? input =
      ((body.waysFromStart input.toList.toArray).find?
        (·.position = input.toList.toArray.size)).map fun reached =>
          spansOf input reached.captures := by
  obtain ⟨read, -, -⟩ := ofSource_eq_ok.mp compiles
  have spelled : ("^(?:" ++ fragment.source ++ ")$").toList = body.covering.source := by
    simp [Body.covering, Body.append, Body.single, Body.choice, represents.source]
  rw [find?, enclosable.covering.enclosable.read_eq spelled read, Body.pattern_covering,
    Pattern.find?_covering, Option.map_map]
  rfl

theorem find?_of_withTrailing (represents : fragment.Represents names body)
    (enclosable : body.Enclosable strict) (compiles : withTrailing fragment = .ok compiled)
    (input : String) :
    compiled.find? input =
      (body.waysFromStart input.toList.toArray).head?.map fun reached =>
        spansOf input (⟨body.names.length + 1, reached.position, input.toList.toArray.size⟩ ::
          reached.captures) := by
  obtain ⟨read, -, -⟩ := ofSource_eq_ok.mp compiles
  have spelled : ("^(?:" ++ fragment.source ++ ")(.*?)$").toList = body.trailing.source := by
    simp [Body.trailing, Body.append, Body.single, Body.choice, Body.capture, Body.anything,
      represents.source]
  rw [find?, enclosable.trailing.enclosable.read_eq spelled read, Body.pattern_trailing,
    Pattern.find?_trailing, Option.map_map]
  rfl

theorem groups_of_anchored (compiles : anchored fragment = .ok compiled) :
    compiled.groups = fragment.groups := (ofSource_eq_ok.mp compiles).2.2.symm

theorem groups_of_withTrailing (compiles : withTrailing fragment = .ok compiled) :
    compiled.groups = fragment.groups := (ofSource_eq_ok.mp compiles).2.2.symm

/-- The pattern runs the body between the two ends of an input, and its groups are those of the
body's variables. -/
structure Covers (names : Array String) (body : Body) (compiled : CompiledPattern) : Prop where
  groups : compiled.groups.map (names[·]?) = body.names.map some
  find : ∀ input : String, compiled.find? input =
    ((body.waysFromStart input.toList.toArray).find?
      (·.position = input.toList.toArray.size)).map fun reached => spansOf input reached.captures

/-- The pattern runs the body from the start of an input on and leaves the rest to a group behind
those of the body's variables. -/
structure Trails (names : Array String) (body : Body) (compiled : CompiledPattern) : Prop where
  groups : compiled.groups.map (names[·]?) = body.names.map some
  find : ∀ input : String, compiled.find? input =
    (body.waysFromStart input.toList.toArray).head?.map fun reached =>
      spansOf input (⟨body.names.length + 1, reached.position, input.toList.toArray.size⟩ ::
        reached.captures)

theorem covers_of_anchored (represents : fragment.Represents names body)
    (enclosable : body.Enclosable strict) (compiles : anchored fragment = .ok compiled) :
    compiled.Covers names body where
  groups := groups_of_anchored compiles ▸ represents.groups
  find := find?_of_anchored represents enclosable compiles

theorem trails_of_withTrailing (represents : fragment.Represents names body)
    (enclosable : body.Enclosable strict) (compiles : withTrailing fragment = .ok compiled) :
    compiled.Trails names body where
  groups := groups_of_withTrailing compiles ▸ represents.groups
  find := find?_of_withTrailing represents enclosable compiles

variable {input : String} {captures : List (Nat × Span)}

theorem Covers.exists_way (covers : compiled.Covers names body)
    (found : compiled.find? input = some captures) :
    ∃ reached, ⟨input.toList.length, reached⟩ ∈ body.waysFromStart input.toList.toArray ∧
      captures = spansOf input reached := by
  rw [covers.find] at found
  obtain ⟨⟨stop, reached⟩, first, rfl⟩ := Option.map_eq_some_iff.mp found
  obtain rfl : stop = input.toList.length := by simpa using List.find?_some first
  exact ⟨reached, List.mem_of_find?_eq_some first, rfl⟩

theorem Covers.isSome_iff (covers : compiled.Covers names body) :
    (compiled.find? input).isSome = true ↔
      body.Spans input.toList.toArray 0 input.toList.length := by
  rw [covers.find, Option.isSome_map, List.find?_isSome]
  simpa using body.mem_waysFromStart input.toList.toArray input.toList.length

end CompiledPattern

theorem Fragment.Represents.respelled {names : Array String} {fragment : Fragment}
    {body other : Body} (represents : fragment.Represents names body)
    (respells : Body.Respells body.source body.names other) :
    fragment.Represents names other :=
  ⟨represents.source.trans respells.source.symm, respells.names ▸ represents.groups⟩

theorem exists_of_forall₂_left {α β : Type} {R : α → β → Prop} {as : List α} {bs : List β}
    (each : List.Forall₂ R as bs) {a : α} (mem : a ∈ as) : ∃ b ∈ bs, R a b := by
  induction each with
  | nil => simp at mem
  | cons related rest ih =>
    rcases List.mem_cons.mp mem with rfl | later
    · exact ⟨_, List.mem_cons_self, related⟩
    · obtain ⟨b, mem', related'⟩ := ih later
      exact ⟨b, List.mem_cons_of_mem _ mem', related'⟩

theorem forall₂_join {α β γ : Type} {R : α → β → Prop} {S : α → γ → Prop} {as : List α}
    {bs : List β} {cs : List γ} (first : List.Forall₂ R as bs) (second : List.Forall₂ S as cs) :
    List.Forall₂ (fun b c => ∃ a, R a b ∧ S a c) bs cs := by
  induction first generalizing cs with
  | nil =>
    cases second
    exact .nil
  | cons related rest ih =>
    cases second with
    | cons related' rest' => exact .cons ⟨_, related, related'⟩ (ih rest')

theorem Tree.represents_lower {root : Tree} {lowered : Lowered} (eq : root.lower = .ok lowered) :
    lowered.whole.Represents lowered.groupNames root.wholeBody ∧
      List.Forall₂ (Fragment.Represents lowered.groupNames) lowered.beginnings
        root.beginningBodies ∧ root.LooksNegative := by
  rw [lower, bind_eq_ok] at eq
  obtain ⟨⟨⟨fragment, fragments⟩, names⟩, run, made⟩ := eq
  obtain rfl := Except.ok.inj made
  simp only [StateT.run, Lowering.runs_bind, Lowering.runs_pure, Prod.mk.injEq] at run
  obtain ⟨whole, middle, lowered, beginnings, last, lowered', ⟨rfl, rfl⟩, rfl⟩ := run
  have before := lowersTo root lowered
  have after := beginsWith root lowered'
  exact ⟨before.2.mono after.1, after.2, looksNegative_of_whole lowered⟩

namespace Grammar

structure Compiles (root : Tree) (grammar : Grammar) : Prop where
  whole : ∃ fragment : Fragment, fragment.Represents grammar.groupNames root.wholeBody ∧
    CompiledPattern.anchored fragment = .ok grammar.whole
  beginnings : List.Forall₂ (fun (body : Body) compiled => ∃ fragment : Fragment,
    fragment.Represents grammar.groupNames body ∧
      CompiledPattern.anchored fragment = .ok compiled) root.beginningBodies grammar.beginnings
  withTrailing : List.Forall₂ (fun (body : Body) compiled => ∃ fragment : Fragment,
    fragment.Represents grammar.groupNames body ∧
      CompiledPattern.withTrailing fragment = .ok compiled) root.beginningBodies
        grammar.withTrailing
  negative : root.LooksNegative

/-- The patterns of the grammar run the bodies. -/
structure Runs (bodies : List Body) (grammar : Grammar) : Prop where
  beginnings : List.Forall₂ (CompiledPattern.Covers grammar.groupNames) bodies grammar.beginnings
  withTrailing : List.Forall₂ (CompiledPattern.Trails grammar.groupNames) bodies
    grammar.withTrailing

theorem compiles_of_ofTree {root : Tree} {escapes unescapes : Registry (String → String)}
    {grammar : Grammar} (eq : ofTree root escapes unescapes = .ok grammar) :
    grammar.Compiles root := by
  simp only [ofTree, bind_eq_ok, pure, Except.pure, Except.ok.injEq, mapM_eq_ok] at eq
  obtain ⟨lowered, lowers, whole, anchored, beginnings, anchoredAll, trailing, trailingAll, rfl⟩ :=
    eq
  obtain ⟨wholeSame, beginningsSame, negative⟩ := Tree.represents_lower lowers
  exact ⟨⟨lowered.whole, wholeSame, anchored⟩, forall₂_join beginningsSame anchoredAll,
    forall₂_join beginningsSame trailingAll, negative⟩

namespace Compiles

variable {root : Tree} {grammar : Grammar}

theorem covers_of_respelled (compiles : grammar.Compiles root) {body : Body}
    (respells : Body.Respells root.wholeBody.source root.wholeBody.names body) :
    grammar.whole.Covers grammar.groupNames body := by
  obtain ⟨fragment, represents, anchored⟩ := compiles.whole
  exact CompiledPattern.covers_of_anchored (represents.respelled respells) respells.enclosable
    anchored

theorem covers_whole (compiles : grammar.Compiles root) (wellFormed : root.WellFormed) :
    grammar.whole.Covers grammar.groupNames root.wholeBody := by
  have readable : root.wholeBody.Readable False :=
    (Tree.readable_bodyPart ⟨wellFormed, False.elim⟩).whole
  exact compiles.covers_of_respelled ⟨rfl, rfl, readable.enclosable⟩

theorem runs_of_respelled (compiles : grammar.Compiles root) {bodies : List Body}
    (respelled : List.Forall₂ (fun body => Body.Respells body.source body.names)
      root.beginningBodies bodies) : grammar.Runs bodies := by
  refine ⟨(forall₂_join respelled compiles.beginnings).imp ?_,
    (forall₂_join respelled compiles.withTrailing).imp ?_⟩
  · rintro other compiled ⟨body, respells, fragment, represents, anchored⟩
    exact CompiledPattern.covers_of_anchored (represents.respelled respells) respells.enclosable
      anchored
  · rintro other compiled ⟨body, respells, fragment, represents, withTrailing⟩
    exact CompiledPattern.trails_of_withTrailing (represents.respelled respells)
      respells.enclosable withTrailing

theorem runs (compiles : grammar.Compiles root) (wellFormed : root.WellFormed) :
    grammar.Runs root.beginningBodies := by
  have readable : ∀ body ∈ root.beginningBodies, body.Readable False :=
    (Tree.readable_bodyPart ⟨wellFormed, False.elim⟩).beginnings
  exact compiles.runs_of_respelled
    (List.forall₂_same.mpr fun body mem => ⟨rfl, rfl, (readable body mem).enclosable⟩)

end Compiles

end Grammar

end LineGrammar
