import LineGrammar.Proofs.Expression.Pieces
import LineGrammar.Proofs.Grammar.Acceptance
import LineGrammar.Proofs.Grammar.Identifiers

/-! Capture groups and the variables that they stand for. Identifiers are listed beside the text and
the reader counts parentheses on its own; both come to the same, because no leaf opens a group and
the texts of leaves cannot run into the parentheses that are written around them. -/

namespace LineGrammar

open Pattern

namespace Tree

def WritesWhole (tree : Tree) (fragment : Fragment) : Prop :=
  ∃ names later, tree.whole names = .ok (fragment, later)

/-- The tree is lowered to the fragment, for its whole language or for one of its beginnings. -/
def Writes (tree : Tree) (fragment : Fragment) : Prop :=
  tree.WritesWhole fragment ∨
    ∃ names fragments later, tree.beginnings names = .ok (fragments, later) ∧ fragment ∈ fragments

/-- The text is that of a fragment of the body of a variable with that name. -/
def Tells (fragmentOf : Tree → Fragment → Prop) (root : Tree) (name : String)
    (inside : List Char) : Prop :=
  ∃ body inner, Tree.variable name body ∈ root.subtrees ∧ fragmentOf body inner ∧
    inner.source.toList = inside

variable {root body : Tree}

theorem Lowerable.writesWhole (lowerable : body.Lowerable) :
    ∃ inner, body.WritesWhole inner ∧ inner.source.toList = body.wholeBody.source := by
  obtain ⟨⟨inner, later⟩, lowered⟩ := lowerable.succeeds_whole #[]
  exact ⟨inner, ⟨_, _, lowered⟩, (lowersTo body lowered).2.source⟩

theorem Lowerable.writes (lowerable : body.Lowerable) {made : Body}
    (mem : made ∈ body.beginningBodies) :
    ∃ inner, body.Writes inner ∧ inner.source.toList = made.source := by
  obtain ⟨⟨fragments, later⟩, lowered⟩ := lowerable.succeeds_beginnings #[]
  obtain ⟨inner, mem', represents⟩ := exists_of_forall₂_left (beginsWith body lowered).2.flip mem
  exact ⟨inner, .inr ⟨_, _, _, lowered, mem'⟩, represents.source⟩

theorem Lowerable.builds (lowerable : root.Lowerable)
    (tokens : ∀ text, leaf text ∈ root.subtrees → Leaf.IsToken text) :
    root.Builds (Body.IsPieced (Tells WritesWhole root)) (Body.IsPieced (Tells Writes root)) where
  whole := Body.joins_pieced
  beginnings := Body.joins_pieced
  weaken pieced := pieced.imp fun _ _ ⟨body, inner, mem, writes, source⟩ =>
    ⟨body, inner, mem, .inl writes, source⟩
  leaf text mem := Body.isPieced_ofLeaf (tokens text mem)
  look negated body mem pieced := lowerable.negative negated body mem ▸ pieced.look
  captureWhole name body mem pieced := by
    obtain ⟨inner, writes, source⟩ :=
      (lowerable.part (mem_subtrees_trans variable_body_mem_subtrees mem)).writesWhole
    exact pieced.capture ⟨body, inner, mem, writes, source⟩
  captureBeginning name body mem made mem' pieced := by
    obtain ⟨inner, writes, source⟩ :=
      (lowerable.part (mem_subtrees_trans variable_body_mem_subtrees mem)).writes mem'
    exact pieced.capture ⟨body, inner, mem, writes, source⟩
  repeated sign repetition body quantifies pieced := by
    cases quantifies with
    | optional => exact pieced.repeated spells_optional _
    | all mem => exact pieced.repeated repetition.spells_clamped _
    | beforeLast mem => exact pieced.repeated (Repetition.spells_beforeLast_clamped _) _

end Tree

/-- The pattern is what its text is read as. Its groups are numbered through, and after those with
an identifier come `spare` others. No identifier is there twice. A group with an identifier encloses
a fragment of the body of a variable, and the identifier stands for the name of that variable. -/
structure CompiledPattern.Aligned (fragmentOf : Tree → Fragment → Prop) (root : Tree)
    (groupNames : Array String) (spare : Nat) (compiled : CompiledPattern) : Prop where
  read : Pattern.read compiled.source = .ok compiled.pattern
  numbered : compiled.pattern.groups = List.range' 1 (compiled.groups.length + spare)
  distinct : compiled.groups.Nodup
  encloses : ∀ place group, compiled.groups[place]? = some group →
    ∃ name body inner inside, groupNames[group]? = some name ∧
      Tree.variable name body ∈ root.subtrees ∧ fragmentOf body inner ∧
      Pattern.read inner.source = .ok inside ∧
      compiled.pattern.enclosures[place]? = some (place + 1, inside.shift (place + 1))

theorem exists_getElem?_of_forall₂ {α β : Type} {R : α → β → Prop} {as : List α} {bs : List β}
    (each : List.Forall₂ R as bs) {place : Nat} {a : α} (found : as[place]? = some a) :
    ∃ b, bs[place]? = some b ∧ R a b := by
  obtain ⟨within, rfl⟩ := List.getElem?_eq_some_iff.mp found
  have within' : place < bs.length := each.length_eq ▸ within
  exact ⟨bs[place], List.getElem?_eq_getElem within', each.get within within'⟩

namespace Body

variable {about : String → List Char → Prop} {body last : Body}

theorem Encloses.exists_inside (encloses : body.Encloses about) (orderly : body.Orderly)
    {place : Nat} {name : String} (named : body.names[place]? = some name) :
    ∃ text inside, about name text ∧ Pattern.read (String.ofList text) = .ok inside ∧
      body.pattern.enclosures[place]? = some (place + 1, inside.shift (place + 1)) := by
  obtain ⟨⟨group, enclosed⟩, found, text, inside, told, read, same⟩ :=
    exists_getElem?_of_forall₂ encloses named
  have within : place < body.names.length := (List.getElem?_eq_some_iff.mp named).1
  have number : body.pattern.groups[place]? = some (1 + place) := by
    rw [orderly.numbered, List.getElem?_range' within, Nat.one_mul]
  rw [← map_fst_enclosures, List.getElem?_map, found] at number
  obtain rfl : group = place + 1 := (Option.some.inj number).trans (Nat.add_comm 1 place)
  dsimp only at same
  exact ⟨text, inside, told, read, found.trans (by rw [same])⟩

theorem Fails.anchored (fails : Fails Fenced body.source)
    (unquantified : Unquantified last.source) : Fails Fenced (body.anchored last).source := by
  have inside : Fails Unquantified (choice [body]).source :=
    fails_choice (by simpa using .inl fails) ⟨body, List.mem_singleton_self _, fails⟩
  refine (inside.append unquantified).behind readable_start ?_
  simp [Body.append, choice, Unquantified, isQuantifierStart]

theorem enclosures_anchored : (body.anchored last).pattern.enclosures =
    body.pattern.enclosures ++ (last.pattern.shift body.names.length).enclosures := by
  have start : (single ['^'] (.boundary .backward false)).pattern.enclosures = [] := rfl
  have group : (choice [body]).pattern.enclosures = body.pattern.enclosures := rfl
  have names : (choice [body]).names = body.names := by simp [choice]
  rw [anchored, enclosures_append, start, List.nil_append, single, List.length_nil, shift_zero,
    enclosures_append, group, names]

end Body

namespace CompiledPattern

variable {fragmentOf : Tree → Fragment → Prop} {root : Tree} {names : Array String}
  {fragment : Fragment} {body : Body} {compiled : CompiledPattern}
  {extra : List (Nat × Pattern)} {spare : Nat}

theorem aligned_of_ofSource {last : Body} {source : String}
    (pieced : body.IsPieced (Tree.Tells fragmentOf root))
    (represents : fragment.Represents names body) (distinct : fragment.groups.Nodup)
    (compiles : ofSource source fragment.groups = .ok compiled)
    (spelled : source.toList = (body.anchored last).source) (ends : last.Readable True)
    (behind : last.pattern.groups = List.range' 1 spare) :
    compiled.Aligned fragmentOf root names spare := by
  obtain ⟨other, rereads⟩ := pieced.exists_rereads
  obtain ⟨read, rfl, groups⟩ := ofSource_eq_ok.mp compiles
  have spelled : compiled.source.toList = (other.anchored last).source := by
    simpa [Body.anchored, Body.append, Body.choice, rereads.source] using spelled
  rcases rereads.reads with fails | ⟨enclosable, encloses⟩
  · exact absurd read ((fails.anchored ends.unquantified).read_ne spelled)
  have lengths : compiled.groups.length = other.names.length := by
    rw [← groups, rereads.names]
    simpa using congrArg List.length represents.groups
  have same := (enclosable.anchored ends).enclosable.read_eq spelled read
  have split : compiled.pattern.enclosures =
      other.pattern.enclosures ++ (last.pattern.shift other.names.length).enclosures := by
    rw [same, Body.enclosures_anchored]
  refine ⟨read, ?_, groups ▸ distinct, fun place group found => ?_⟩
  · rw [← map_fst_enclosures, split, List.map_append, map_fst_enclosures, map_fst_enclosures,
      groups_shift, behind, rereads.orderly.numbered, lengths, ← List.range'_append_1]
    simp [Nat.add_comm _ other.names.length, List.map_add_range']
  · have named := congrArg (·[place]?) (represents.respelled rereads.toRespells).groups
    simp only [groups, List.getElem?_map, found, Option.map_some] at named
    obtain ⟨name, named, known⟩ := Option.map_eq_some_iff.mp named.symm
    obtain ⟨text, inside, ⟨body, inner, mem, writes, rfl⟩, read, enclosed⟩ :=
      encloses.exists_inside rereads.orderly named
    rw [String.ofList_toList] at read
    refine ⟨name, body, inner, inside, known.symm, mem, writes, read, ?_⟩
    rw [split, List.getElem?_append_left (List.getElem?_eq_some_iff.mp enclosed).1, enclosed]

theorem aligned_of_anchored (pieced : body.IsPieced (Tree.Tells fragmentOf root))
    (represents : fragment.Represents names body) (distinct : fragment.groups.Nodup)
    (compiles : anchored fragment = .ok compiled) : compiled.Aligned fragmentOf root names 0 :=
  aligned_of_ofSource pieced represents distinct compiles
    (by simp [Body.anchored, Body.append, Body.single, Body.choice, represents.source])
    Body.readable_end rfl

theorem aligned_of_withTrailing (pieced : body.IsPieced (Tree.Tells fragmentOf root))
    (represents : fragment.Represents names body) (distinct : fragment.groups.Nodup)
    (compiles : withTrailing fragment = .ok compiled) :
    compiled.Aligned fragmentOf root names 1 :=
  aligned_of_ofSource pieced represents distinct compiles
    (by simp [Body.anchored, Body.append, Body.single, Body.choice, Body.capture, Body.anything,
      represents.source])
    ((Body.readable_anything.enclosable.capture "").append Body.readable_end) rfl

end CompiledPattern

namespace Grammar

variable {root : Tree} {escapes unescapes : Registry (String → String)} {grammar : Grammar}

/-- The groups of each pattern of a grammar are those that have identifiers, and one more where
trailing input is left over; no identifier is in a pattern twice; and each stands for the variable
that its group is written for. The list of names begins with the variables of the tree in their
order, which are the groups of the pattern for whole inputs, and without repetitions it is the list
of their names. -/
theorem aligned_of_ofTree (compiles : ofTree root escapes unescapes = .ok grammar)
    (tokens : ∀ text, .leaf text ∈ root.subtrees → Leaf.IsToken text) :
    grammar.whole.Aligned Tree.WritesWhole root grammar.groupNames 0 ∧
      (∀ compiled ∈ grammar.beginnings,
        compiled.Aligned Tree.Writes root grammar.groupNames 0) ∧
      (∀ compiled ∈ grammar.withTrailing,
        compiled.Aligned Tree.Writes root grammar.groupNames 1) ∧
      root.variableNames <+: grammar.groupNames.toList ∧
      grammar.whole.groups = List.range root.variableNames.length ∧
      grammar.variableNames = root.variableNames.eraseDups := by
  obtain ⟨lowered, lowers, names, anchored, beginnings, withTrailing⟩ := exists_lowered compiles
  obtain ⟨⟨added, grown, among⟩, whole, distinct⟩ := Tree.numbers_lower lowers
  obtain ⟨represents, each, negative⟩ := Tree.represents_lower lowers
  have lowerable : root.Lowerable := {
    native := fun text mem => by
      obtain ⟨_, _, _, _, _, _, _, native, lowered⟩ := tokens text mem
      exact ⟨native, lowered⟩
    negative := negative }
  obtain ⟨pieced, begun⟩ := (lowerable.builds tokens).all
  rw [← names] at represents each grown
  have nodup : lowered.whole.groups.Nodup := whole ▸ List.nodup_range'
  refine ⟨CompiledPattern.aligned_of_anchored pieced represents nodup anchored, ?_, ?_, ?_, ?_, ?_⟩
  · intro compiled mem
    obtain ⟨fragment, mem', anchored⟩ := exists_of_forall₂_left beginnings.flip mem
    obtain ⟨body, mem'', represents⟩ := exists_of_forall₂_left each mem'
    exact CompiledPattern.aligned_of_anchored (begun.beginnings body mem'') represents
      (distinct fragment mem') anchored
  · intro compiled mem
    obtain ⟨fragment, mem', compiles⟩ := exists_of_forall₂_left withTrailing.flip mem
    obtain ⟨body, mem'', represents⟩ := exists_of_forall₂_left each mem'
    exact CompiledPattern.aligned_of_withTrailing (begun.beginnings body mem'') represents
      (distinct fragment mem') compiles
  · exact ⟨added, grown.symm⟩
  · rw [← (CompiledPattern.ofSource_eq_ok.mp anchored).2.2, whole, List.range_eq_range']
  · have none : added.removeAll root.variableNames = [] := by
      simpa [List.removeAll] using fun name mem => among mem
    rw [variableNames, grown, List.eraseDups_append, none]
    simp

end Grammar

namespace Tree

def twice : Tree :=
  .sequence [.look true (.variable "x" (.sequence [.leaf "\\x", .leaf "4", .leaf "1"])),
    .variable "x" (.repeated (.leaf "a") ⟨0, some 2, true⟩), .variable "y" (.leaf "1")]

theorem isToken_of_mem_twice {text : String} (mem : leaf text ∈ twice.subtrees) :
    Leaf.IsToken text := by
  have known : text = "\\x" ∨ text = "4" ∨ text = "1" ∨ text = "a" ∨ text = "1" := by
    simpa [twice, subtrees, allSubtrees] using mem
  rcases known with rfl | rfl | rfl | rfl | rfl
  · exact Leaf.isToken_of_alone "\\x" "\\x" (by cbv) (by cbv) (by cbv)
  · exact Leaf.isToken_of_alone "4" "4" (by cbv) (by cbv) (by cbv)
  · exact Leaf.isToken_of_alone "1" "1" (by cbv) (by cbv) (by cbv)
  · exact Leaf.isToken_of_alone "a" "a" (by cbv) (by cbv) (by cbv)
  · exact Leaf.isToken_of_alone "1" "1" (by cbv) (by cbv) (by cbv)

end Tree

namespace Grammar

theorem aligned_twice : ∃ grammar, ofTree .twice [] [] = .ok grammar ∧
    grammar.whole.groups = [0, 1, 2] ∧
    grammar.beginnings.map (·.groups) = [[6], [3, 7], [3, 4, 8]] ∧
    grammar.whole.Aligned Tree.WritesWhole .twice grammar.groupNames 0 ∧
    (∀ compiled ∈ grammar.withTrailing, compiled.Aligned Tree.Writes .twice grammar.groupNames 1) ∧
    grammar.variableNames = ["x", "y"] := by
  have run : (ofTree .twice [] [] >>= fun grammar =>
      .ok (grammar.whole.groups, grammar.beginnings.map (·.groups))) =
      .ok ([0, 1, 2], [[6], [3, 7], [3, 4, 8]]) := by cbv
  obtain ⟨grammar, compiles, listed⟩ := bind_eq_ok.mp run
  obtain ⟨groups, others⟩ := Prod.mk.inj (Except.ok.inj listed)
  obtain ⟨whole, -, trailing, -, -, names⟩ :=
    aligned_of_ofTree compiles fun _ mem => Tree.isToken_of_mem_twice mem
  exact ⟨grammar, compiles, groups, others, whole, trailing, names.trans (by decide)⟩

end Grammar

end LineGrammar
