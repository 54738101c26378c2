import LineGrammar.Proofs.Outcome
import LineGrammar.Proofs.Tree.Bodies

/-! Lowering writes bodies down. Each fragment has the text of a body, and the identifiers of its
groups are places of the body's variables in the list of names; the list only ever grows at its
end, so an identifier keeps its meaning. -/

namespace LineGrammar

/-- The fragment has the text of the body; its identifiers stand for the variables of the body. -/
structure Fragment.Represents (names : Array String) (fragment : Fragment) (body : Body) :
    Prop where
  source : fragment.source.toList = body.source
  groups : fragment.groups.map (names[·]?) = body.names.map some

def Extends (names later : Array String) : Prop :=
  ∀ (group : Nat) (name : String), names[group]? = some name → later[group]? = some name

theorem Extends.refl (names : Array String) : Extends names names := fun _ _ found => found

theorem Extends.trans {first second third : Array String} (h : Extends first second)
    (h' : Extends second third) : Extends first third := fun group name found =>
  h' group name (h group name found)

theorem extends_push (names : Array String) (name : String) : Extends names (names.push name) := by
  intro group other found
  obtain ⟨inside, -⟩ := Array.getElem?_eq_some_iff.mp found
  rw [Array.getElem?_push, if_neg (by omega)]
  exact found

namespace Fragment.Represents

variable {names later : Array String} {fragment first second : Fragment} {body body' : Body}
  {fragments : List Fragment} {bodies : List Body}

theorem mono (h : fragment.Represents names body) (more : Extends names later) :
    fragment.Represents later body where
  source := h.source
  groups := by
    have known : ∀ group ∈ fragment.groups, later[group]? = names[group]? := by
      intro group mem
      have found : names[group]? ∈ body.names.map some := by
        rw [← h.groups]
        exact List.mem_map_of_mem mem
      obtain ⟨name, -, eq⟩ := List.mem_map.mp found
      rw [← eq]
      exact more group name eq.symm
    rw [← h.groups]
    exact List.map_congr_left known

theorem exists_group (h : fragment.Represents names body) {index : Nat} {name : String}
    (named : body.names[index]? = some name) :
    ∃ group, fragment.groups[index]? = some group ∧ names[group]? = some name := by
  have same : (fragment.groups.map (names[·]?))[index]? = (body.names.map some)[index]? := by
    rw [h.groups]
  rw [List.getElem?_map, List.getElem?_map, named, Option.map_some] at same
  exact Option.map_eq_some_iff.mp same

theorem append (h : first.Represents names body) (h' : second.Represents names body') :
    (first ++ second).Represents names (body.append body') where
  source := by simp [Body.append, h.source, h'.source]
  groups := by simp [Body.append, h.groups, h'.groups]

theorem empty : Fragment.empty.Represents names Body.empty :=
  ⟨by simp [Fragment.empty, Body.empty], rfl⟩

theorem concat (each : List.Forall₂ (Represents names) fragments bodies) :
    (Fragment.concat fragments).Represents names (Body.concat bodies) := by
  induction each with
  | nil => exact ⟨by simp [Fragment.concat, Body.concat, Body.empty], rfl⟩
  | cons first rest ih =>
    have both := first.append ih
    refine ⟨?_, ?_⟩
    · rw [Body.concat, ← both.source]
      simp [Fragment.concat, String.toList_join]
    · rw [Body.concat, ← both.groups]
      simp [Fragment.concat]

theorem choice (each : List.Forall₂ (Represents names) fragments bodies) :
    (Fragment.choice fragments).Represents names (Body.choice bodies) := by
  have groups : (fragments.flatMap (·.groups)).map (names[·]?) =
      (bodies.flatMap (·.names)).map some := by
    induction each with
    | nil => rfl
    | cons first rest ih => simp [first.groups, ih]
  have sources : fragments.map (·.source.toList) = bodies.map (·.source) := by
    clear groups
    induction each with
    | nil => rfl
    | cons first rest ih => simp [first.source, ih]
  refine ⟨?_, groups⟩
  simp only [Fragment.choice, Body.choice, ← sources, String.toList_append,
    String.toList_intercalate, List.map_map]
  simp
  rfl

theorem repeated (h : fragment.Represents names body) (sign : String) (repetition : Repetition) :
    (Fragment.grouped fragment ++ Fragment.raw sign).Represents names
      (body.repeated sign.toList repetition) where
  source := by simp [grouped, raw, Body.repeated, h.source]
  groups := by simp [grouped, raw, Body.repeated, h.groups]

theorem negativeLook (h : fragment.Represents names body) :
    (Fragment.negativeLook fragment).Represents names (body.look .forward true) where
  source := by simp [Fragment.negativeLook, raw, Body.look, Pattern.lookOpener, h.source]
  groups := by simp [Fragment.negativeLook, raw, Body.look, h.groups]

theorem capture {name : String} {group : Nat} (found : names[group]? = some name)
    (h : fragment.Represents names body) :
    (Fragment.capture group fragment).Represents names (body.capture name) where
  source := by simp [Fragment.capture, raw, Body.capture, h.source]
  groups := by simp [Fragment.capture, raw, Body.capture, h.groups, found]

end Fragment.Represents

namespace Lowering

variable {α β : Type} {names later : Array String}

theorem runs_bind {lowering : Lowering α} {next : α → Lowering β} {result : β × Array String} :
    (lowering >>= next) names = .ok result ↔
      ∃ a middle, lowering names = .ok (a, middle) ∧ next a middle = .ok result := by
  have split : (lowering >>= next) names = lowering names >>= fun made => next made.1 made.2 := rfl
  rw [split, bind_eq_ok]
  simp

theorem runs_pure {a : α} {result : α × Array String} :
    (pure a : Lowering α) names = .ok result ↔ (a, names) = result := by
  simp [pure, StateT.pure, Except.pure]

theorem runs_bind_pure {lowering : Lowering α} {f : α → β} {b : β} :
    (lowering >>= fun a => pure (f a)) names = .ok (b, later) ↔
      ∃ a, lowering names = .ok (a, later) ∧ f a = b := by
  simp only [runs_bind, runs_pure, Prod.mk.injEq]
  constructor
  · rintro ⟨a, middle, run, rfl, rfl⟩
    exact ⟨a, run, rfl⟩
  · rintro ⟨a, run, rfl⟩
    exact ⟨a, later, run, rfl, rfl⟩

theorem runs_newGroup {name : String} {result : Nat × Array String} :
    newGroup name names = .ok result ↔ (names.size, names.push name) = result := by
  simp [newGroup, runs_bind, get, getThe, MonadStateOf.get, StateT.get, set, StateT.set, pure,
    StateT.pure, Except.pure]

theorem runs_native {text : String} {result : String × Array String} :
    native text names = .ok result ↔
      ∃ source, Leaf.native text = .ok source ∧ (source, names) = result := by
  rw [native, map_eq_ok]

end Lowering

namespace Tree

variable {names later : Array String}

open Lowering Fragment

section Runs

variable {fragment : Fragment} {fragments : List Fragment} {bodies : List (List Fragment)}
  {tree : Tree} {rest : List Tree}

theorem runs_wholeAll_nil :
    wholeAll [] names = .ok (fragments, later) ↔ [] = fragments ∧ names = later := by
  simp only [wholeAll, runs_pure, Prod.mk.injEq]

theorem runs_wholeAll_cons :
    wholeAll (tree :: rest) names = .ok (fragments, later) ↔
      ∃ first middle, tree.whole names = .ok (first, middle) ∧
        ∃ others, wholeAll rest middle = .ok (others, later) ∧ first :: others = fragments := by
  rw [wholeAll, runs_bind]
  simp only [runs_bind_pure]

theorem runs_whole_choice {branches : List Tree} :
    (choice branches).whole names = .ok (fragment, later) ↔
      ∃ inner, wholeAll branches names = .ok (inner, later) ∧ .choice inner = fragment :=
  runs_bind_pure

theorem runs_whole_sequence {parts : List Tree} :
    (sequence parts).whole names = .ok (fragment, later) ↔
      ∃ inner, wholeAll parts names = .ok (inner, later) ∧ .concat inner = fragment :=
  runs_bind_pure

theorem runs_whole_leaf {text : String} :
    (leaf text).whole names = .ok (fragment, later) ↔
      ∃ source, Leaf.native text = .ok source ∧ .raw source = fragment ∧ names = later := by
  simp only [whole, runs_bind_pure, runs_native, Prod.mk.injEq]
  constructor
  · rintro ⟨source, ⟨source', native, rfl, rfl⟩, rfl⟩
    exact ⟨source', native, rfl, rfl⟩
  · rintro ⟨source, native, rfl, rfl⟩
    exact ⟨source, ⟨source, native, rfl, rfl⟩, rfl⟩

theorem runs_whole_look {negated : Bool} :
    (look negated tree).whole names = .ok (fragment, later) ↔
      negated = true ∧ ∃ inner, tree.whole names = .ok (inner, later) ∧
        .negativeLook inner = fragment := by
  cases negated with
  | false => simp [whole, throw, throwThe, MonadExceptOf.throw, StateT.lift]
  | true => simp only [whole, if_true, runs_bind_pure, true_and]

theorem runs_whole_variable {name : String} :
    (Tree.variable name tree).whole names = .ok (fragment, later) ↔
      ∃ inner, tree.whole (names.push name) = .ok (inner, later) ∧
        .capture names.size inner = fragment := by
  rw [whole, runs_bind]
  simp only [runs_newGroup, runs_bind_pure, Prod.mk.injEq]
  constructor
  · rintro ⟨group, middle, ⟨rfl, rfl⟩, lowered⟩
    exact lowered
  · intro lowered
    exact ⟨_, _, ⟨rfl, rfl⟩, lowered⟩

theorem runs_whole_repeated {repetition : Repetition} :
    (repeated tree repetition).whole names = .ok (fragment, later) ↔
      ∃ inner, tree.whole names = .ok (inner, later) ∧
        .grouped inner ++ .raw repetition.quantifier = fragment :=
  runs_bind_pure

theorem runs_beginningsAll_nil :
    beginningsAll [] names = .ok (bodies, later) ↔ [] = bodies ∧ names = later := by
  simp only [beginningsAll, runs_pure, Prod.mk.injEq]

theorem runs_beginningsAll_cons :
    beginningsAll (tree :: rest) names = .ok (bodies, later) ↔
      ∃ first middle, tree.beginnings names = .ok (first, middle) ∧
        ∃ others, beginningsAll rest middle = .ok (others, later) ∧ first :: others = bodies := by
  rw [beginningsAll, runs_bind]
  simp only [runs_bind_pure]

theorem runs_beginnings_choice {branches : List Tree} :
    (choice branches).beginnings names = .ok (fragments, later) ↔
      ∃ bodies, beginningsAll branches names = .ok (bodies, later) ∧
        LoweredPart.choiceBeginnings ((branches.map hasVariable).zip bodies) = fragments := by
  simp only [beginnings, runs_bind_pure]

theorem runs_beginnings_sequence {parts : List Tree} :
    (sequence parts).beginnings names = .ok (fragments, later) ↔
      ∃ wholes middle, wholeAll parts names = .ok (wholes, middle) ∧
        ∃ bodies, beginningsAll parts middle = .ok (bodies, later) ∧
          LoweredPart.sequenceBeginnings (((parts.map hasVariable).zip (wholes.zip bodies)).map
            fun part => ⟨part.1, part.2.1, part.2.2⟩) = fragments := by
  rw [beginnings, runs_bind]
  simp only [runs_bind_pure]

theorem runs_beginnings_leaf {text : String} :
    (leaf text).beginnings names = .ok (fragments, later) ↔
      ∃ source, Leaf.native text = .ok source ∧
        [.grouped (.raw source) ++ .raw "?"] = fragments ∧ names = later := by
  simp only [beginnings, runs_bind_pure, runs_native, Prod.mk.injEq]
  constructor
  · rintro ⟨source, ⟨source', native, rfl, rfl⟩, rfl⟩
    exact ⟨source', native, rfl, rfl⟩
  · rintro ⟨source, native, rfl, rfl⟩
    exact ⟨source, ⟨source, native, rfl, rfl⟩, rfl⟩

theorem runs_beginnings_look {negated : Bool} :
    (look negated tree).beginnings names = .ok (fragments, later) ↔
      ∃ inner, (look negated tree).whole names = .ok (inner, later) ∧ [inner] = fragments := by
  simp only [beginnings, runs_bind_pure]

def captures (name : String) (bodies : List Fragment) : Lowering (List Fragment) :=
  bodies.mapM fun inner => return .capture (← newGroup name) inner

theorem runs_captures_nil {name : String} :
    captures name [] names = .ok (fragments, later) ↔ [] = fragments ∧ names = later := by
  simp only [captures, List.mapM_nil, runs_pure, Prod.mk.injEq]

theorem runs_captures_cons {name : String} {bodies : List Fragment} :
    captures name (fragment :: bodies) names = .ok (fragments, later) ↔
      ∃ others, captures name bodies (names.push name) = .ok (others, later) ∧
        .capture names.size fragment :: others = fragments := by
  simp only [captures, List.mapM_cons, runs_bind, runs_newGroup, runs_pure, Prod.mk.injEq]
  constructor
  · rintro ⟨_, _, ⟨_, _, ⟨rfl, rfl⟩, rfl, rfl⟩, others, last, lowered, rfl, rfl⟩
    exact ⟨others, lowered, rfl⟩
  · rintro ⟨others, lowered, rfl⟩
    exact ⟨_, _, ⟨_, _, ⟨rfl, rfl⟩, rfl, rfl⟩, others, _, lowered, rfl, rfl⟩

theorem runs_beginnings_variable {name : String} :
    (Tree.variable name tree).beginnings names = .ok (fragments, later) ↔
      ∃ bodies middle, tree.beginnings names = .ok (bodies, middle) ∧
        captures name bodies middle = .ok (fragments, later) := by
  simp only [beginnings, runs_bind, captures]

end Runs

theorem represents_ofLeaf (names : Array String) {text source : String}
    (native : Leaf.native text = .ok source) :
    (Fragment.raw source).Represents names (Body.ofLeaf text) := by
  simp only [Body.ofLeaf, native]
  exact ⟨rfl, rfl⟩

/-- What running a lowering of one tree promises. -/
def LowersTo (tree : Tree) : Prop :=
  ∀ {names later : Array String} {fragment : Fragment},
    tree.whole names = .ok (fragment, later) →
      Extends names later ∧ fragment.Represents later tree.wholeBody

theorem represents_wholeAll {trees : List Tree} (each : ∀ tree ∈ trees, tree.LowersTo)
    {fragments : List Fragment} (lowered : wholeAll trees names = .ok (fragments, later)) :
    Extends names later ∧ List.Forall₂ (Represents later) fragments (wholeBodies trees) := by
  induction trees generalizing names fragments with
  | nil =>
    rw [runs_wholeAll_nil] at lowered
    obtain ⟨rfl, rfl⟩ := lowered
    exact ⟨.refl _, .nil⟩
  | cons tree rest ih =>
    rw [runs_wholeAll_cons] at lowered
    obtain ⟨first, middle, lowered, others, lowered', rfl⟩ := lowered
    have before := each tree List.mem_cons_self lowered
    have after := ih (fun tree mem => each tree (List.mem_cons_of_mem _ mem)) lowered'
    exact ⟨before.1.trans after.1, .cons (before.2.mono after.1) after.2⟩

theorem lowersTo (tree : Tree) : tree.LowersTo := by
  induction tree with
  | choice branches ih =>
    intro names later fragment lowered
    rw [runs_whole_choice] at lowered
    obtain ⟨fragments, lowered, rfl⟩ := lowered
    have all := represents_wholeAll ih lowered
    exact ⟨all.1, .choice all.2⟩
  | sequence parts ih =>
    intro names later fragment lowered
    rw [runs_whole_sequence] at lowered
    obtain ⟨fragments, lowered, rfl⟩ := lowered
    have all := represents_wholeAll ih lowered
    exact ⟨all.1, .concat all.2⟩
  | leaf text =>
    intro names later fragment lowered
    rw [runs_whole_leaf] at lowered
    obtain ⟨source, native, rfl, rfl⟩ := lowered
    exact ⟨.refl _, represents_ofLeaf _ native⟩
  | look negated body ih =>
    intro names later fragment lowered
    rw [runs_whole_look] at lowered
    obtain ⟨rfl, inner, lowered, rfl⟩ := lowered
    have inside := ih lowered
    exact ⟨inside.1, inside.2.negativeLook⟩
  | named name body ih =>
    intro names later fragment lowered
    rw [runs_whole_variable] at lowered
    obtain ⟨inner, lowered, rfl⟩ := lowered
    have inside := ih lowered
    have found : later[names.size]? = some name := inside.1 _ _ Array.getElem?_push_size
    exact ⟨(extends_push names name).trans inside.1, inside.2.capture found⟩
  | repeated body repetition ih =>
    intro names later fragment lowered
    rw [runs_whole_repeated] at lowered
    obtain ⟨inner, lowered, rfl⟩ := lowered
    have inside := ih lowered
    exact ⟨inside.1, inside.2.repeated _ _⟩

theorem exists_whole_of_wholeAll {trees : List Tree} {fragments : List Fragment}
    (lowered : wholeAll trees names = .ok (fragments, later)) {tree : Tree} (mem : tree ∈ trees) :
    ∃ names later fragment, tree.whole names = .ok (fragment, later) := by
  induction trees generalizing names later fragments with
  | nil => simp at mem
  | cons first rest ih =>
    rw [runs_wholeAll_cons] at lowered
    obtain ⟨fragment, middle, lowered, others, lowered', -⟩ := lowered
    rcases List.mem_cons.mp mem with rfl | mem
    · exact ⟨_, _, _, lowered⟩
    · exact ih lowered' mem

theorem exists_whole_of_mem_subtrees {tree inner : Tree} {fragment : Fragment}
    (lowered : tree.whole names = .ok (fragment, later)) (mem : inner ∈ tree.subtrees) :
    ∃ names later fragment, inner.whole names = .ok (fragment, later) := by
  induction tree generalizing names later fragment with
  | choice branches ih =>
    rw [subtrees, List.mem_cons, mem_allSubtrees] at mem
    rcases mem with rfl | ⟨branch, mem, below⟩
    · exact ⟨_, _, _, lowered⟩
    · obtain ⟨fragments, lowered', -⟩ := runs_whole_choice.mp lowered
      obtain ⟨_, _, _, here⟩ := exists_whole_of_wholeAll lowered' mem
      exact ih branch mem here below
  | sequence parts ih =>
    rw [subtrees, List.mem_cons, mem_allSubtrees] at mem
    rcases mem with rfl | ⟨part, mem, below⟩
    · exact ⟨_, _, _, lowered⟩
    · obtain ⟨fragments, lowered', -⟩ := runs_whole_sequence.mp lowered
      obtain ⟨_, _, _, here⟩ := exists_whole_of_wholeAll lowered' mem
      exact ih part mem here below
  | leaf text =>
    obtain rfl := List.mem_singleton.mp mem
    exact ⟨_, _, _, lowered⟩
  | look negated body ih =>
    rcases List.mem_cons.mp mem with rfl | below
    · exact ⟨_, _, _, lowered⟩
    · obtain ⟨-, fragment, lowered', -⟩ := runs_whole_look.mp lowered
      exact ih lowered' below
  | named name body ih =>
    rcases List.mem_cons.mp mem with rfl | below
    · exact ⟨_, _, _, lowered⟩
    · obtain ⟨fragment, lowered', -⟩ := runs_whole_variable.mp lowered
      exact ih lowered' below
  | repeated body repetition ih =>
    rcases List.mem_cons.mp mem with rfl | below
    · exact ⟨_, _, _, lowered⟩
    · obtain ⟨fragment, lowered', -⟩ := runs_whole_repeated.mp lowered
      exact ih lowered' below

theorem looksNegative_of_whole {tree : Tree} {fragment : Fragment}
    (lowered : tree.whole names = .ok (fragment, later)) : tree.LooksNegative := by
  intro negated body mem
  obtain ⟨_, _, _, here⟩ := exists_whole_of_mem_subtrees lowered mem
  exact (runs_whole_look.mp here).1

end Tree

namespace LoweredPart

structure Represents (names : Array String) (part : LoweredPart) (bodies : BodyPart) : Prop where
  hasVariable : part.hasVariable = bodies.hasVariable
  whole : part.whole.Represents names bodies.whole
  beginnings : List.Forall₂ (Fragment.Represents names) part.beginnings bodies.beginnings

variable {names : Array String} {parts : List LoweredPart} {bodyParts : List BodyPart}

theorem represents_map_append {head : Fragment} {headBody : Body} {fragments : List Fragment}
    {bodies : List Body} (before : head.Represents names headBody)
    (each : List.Forall₂ (Fragment.Represents names) fragments bodies) :
    List.Forall₂ (Fragment.Represents names) (fragments.map (head ++ ·))
      (bodies.map (headBody.append ·)) := by
  rw [List.forall₂_map_left_iff, List.forall₂_map_right_iff]
  exact each.imp fun _ _ same => before.append same

theorem represents_stopsInVariable (each : List.Forall₂ (Represents names) parts bodyParts)
    {head : Fragment} {headBody : Body} (before : head.Represents names headBody) :
    List.Forall₂ (Fragment.Represents names) (stopsInVariable head parts)
      (BodyPart.stopsInVariable headBody bodyParts) := by
  induction each generalizing head headBody with
  | nil => exact .nil
  | cons first rest ih =>
    rw [stopsInVariable, BodyPart.stopsInVariable, first.hasVariable]
    refine List.rel_append ?_ (ih (before.append first.whole))
    split
    · exact represents_map_append before first.beginnings
    · exact .nil

theorem represents_merged {fragments : List Fragment} {bodies : List Body}
    (each : List.Forall₂ (Fragment.Represents names) fragments bodies) :
    (merged fragments).Represents names (BodyPart.merged bodies) := by
  cases each with
  | nil => exact .choice .nil
  | cons first rest =>
    cases rest with
    | nil => exact first
    | cons second rest => exact .choice (.cons first (.cons second rest))

theorem represents_stopsOutside (each : List.Forall₂ (Represents names) parts bodyParts) :
    (stopsOutside parts).Represents names (BodyPart.stopsOutside bodyParts) := by
  induction each with
  | nil => exact .empty
  | cons first rest ih =>
    have whole := first.whole.append ih
    have last := represents_merged first.beginnings
    rw [stopsOutside, BodyPart.stopsOutside, first.hasVariable]
    split
    · have alone := Fragment.Represents.choice (.cons whole .nil)
      refine ⟨?_, ?_⟩
      · rw [← alone.source]
        simp [Fragment.choice, Fragment.raw]
      · rw [← alone.groups]
        simp [Fragment.choice, Fragment.raw]
    · have either := Fragment.Represents.choice
        (.cons whole (.cons (.choice (.cons last .nil)) .nil))
      refine ⟨?_, ?_⟩
      · rw [← either.source]
        simp [Fragment.choice, Fragment.raw]
      · rw [← either.groups]
        simp [Fragment.choice, Fragment.raw]

theorem any_apart_eq (each : List.Forall₂ (Represents names) parts bodyParts) :
    parts.any (!·.hasVariable) = bodyParts.any (!·.hasVariable) := by
  induction each with
  | nil => rfl
  | cons first rest ih => rw [List.any_cons, List.any_cons, ih, first.hasVariable]

theorem represents_sequenceBeginnings (each : List.Forall₂ (Represents names) parts bodyParts) :
    List.Forall₂ (Fragment.Represents names) (sequenceBeginnings parts)
      (BodyPart.sequenceBeginnings bodyParts) := by
  have inVariable := represents_stopsInVariable each .empty
  have outside := represents_stopsOutside each
  have same := any_apart_eq each
  unfold sequenceBeginnings BodyPart.sequenceBeginnings
  cases each with
  | nil => exact .cons .empty .nil
  | cons first rest =>
    refine List.rel_append inVariable ?_
    rw [same]
    split
    · exact .cons outside .nil
    · exact .nil

theorem represents_choiceBeginnings {branches : List (Bool × List Fragment)}
    (each : List.Forall₂ (fun branch (bodies : BodyPart) => branch.1 = bodies.hasVariable ∧
      List.Forall₂ (Fragment.Represents names) branch.2 bodies.beginnings) branches bodyParts) :
    List.Forall₂ (Fragment.Represents names) (choiceBeginnings branches)
      (BodyPart.choiceBeginnings bodyParts) := by
  have apart : List.Forall₂ (Fragment.Represents names)
      (branches.flatMap fun branch => if branch.1 then branch.2 else [])
      (bodyParts.flatMap fun branch => if branch.hasVariable then branch.beginnings else []) := by
    induction each with
    | nil => exact .nil
    | cons first rest ih =>
      refine List.rel_append ?_ ih
      simp only [first.1]
      split
      · exact first.2
      · exact .nil
  have plain : List.Forall₂ (Fragment.Represents names)
      (branches.flatMap fun branch => if branch.1 then [] else branch.2)
      (bodyParts.flatMap fun branch => if branch.hasVariable then [] else branch.beginnings) := by
    clear apart
    induction each with
    | nil => exact .nil
    | cons first rest ih =>
      refine List.rel_append ?_ ih
      simp only [first.1]
      split
      · exact .nil
      · exact first.2
  unfold choiceBeginnings BodyPart.choiceBeginnings
  refine List.rel_append apart ?_
  revert plain
  generalize branches.flatMap _ = fragments, bodyParts.flatMap _ = bodies
  intro plain
  cases plain with
  | nil => exact .nil
  | cons first rest => exact .cons (.choice (.cons first rest)) .nil

end LoweredPart

namespace Tree

variable {names later : Array String}

open Lowering Fragment

def BeginsWith (tree : Tree) : Prop :=
  ∀ {names later : Array String} {fragments : List Fragment},
    tree.beginnings names = .ok (fragments, later) →
      Extends names later ∧ List.Forall₂ (Represents later) fragments tree.beginningBodies

theorem represents_mono {fragments : List Fragment} {bodies : List Body}
    (each : List.Forall₂ (Represents names) fragments bodies) (more : Extends names later) :
    List.Forall₂ (Represents later) fragments bodies :=
  each.imp fun _ _ same => same.mono more

theorem represents_beginningsAll {trees : List Tree} (each : ∀ tree ∈ trees, tree.BeginsWith)
    {fragments : List (List Fragment)}
    (lowered : beginningsAll trees names = .ok (fragments, later)) :
    Extends names later ∧ List.Forall₂ (fun fragments tree =>
      List.Forall₂ (Represents later) fragments (beginningBodies tree)) fragments trees := by
  induction trees generalizing names fragments with
  | nil =>
    rw [runs_beginningsAll_nil] at lowered
    obtain ⟨rfl, rfl⟩ := lowered
    exact ⟨.refl _, .nil⟩
  | cons tree rest ih =>
    rw [runs_beginningsAll_cons] at lowered
    obtain ⟨first, middle, lowered, others, lowered', rfl⟩ := lowered
    have before := each tree List.mem_cons_self lowered
    have after := ih (fun tree mem => each tree (List.mem_cons_of_mem _ mem)) lowered'
    exact ⟨before.1.trans after.1, .cons (represents_mono before.2 after.1) after.2⟩

theorem represents_captures {start : Array String} {name : String} {inner : List Fragment}
    {bodies : List Body} (each : List.Forall₂ (Represents start) inner bodies)
    (known : Extends start names) {fragments : List Fragment}
    (lowered : captures name inner names = .ok (fragments, later)) :
    Extends names later ∧
      List.Forall₂ (Represents later) fragments (bodies.map (.capture name)) := by
  induction each generalizing names fragments with
  | nil =>
    rw [runs_captures_nil] at lowered
    obtain ⟨rfl, rfl⟩ := lowered
    exact ⟨.refl _, .nil⟩
  | cons first rest ih =>
    rw [runs_captures_cons] at lowered
    obtain ⟨others, lowered', rfl⟩ := lowered
    have pushed := extends_push names name
    have after := ih (known.trans pushed) lowered'
    have found : later[names.size]? = some name := after.1 _ _ Array.getElem?_push_size
    have captured := (first.mono ((known.trans pushed).trans after.1)).capture found
    exact ⟨pushed.trans after.1, .cons captured after.2⟩

theorem represents_branches {bodies : List (List Fragment)} {branches : List Tree}
    (each : List.Forall₂ (fun fragments tree =>
      List.Forall₂ (Represents names) fragments (beginningBodies tree)) bodies branches) :
    List.Forall₂ (fun branch (part : BodyPart) => branch.1 = part.hasVariable ∧
      List.Forall₂ (Represents names) branch.2 part.beginnings)
        ((branches.map hasVariable).zip bodies) (branches.map bodyPart) := by
  induction each with
  | nil => exact .nil
  | cons first rest ih => exact .cons ⟨rfl, first⟩ ih

theorem represents_parts {wholes : List Fragment} {bodies : List (List Fragment)}
    {parts : List Tree}
    (complete : List.Forall₂ (fun fragment tree => Represents names fragment (wholeBody tree))
      wholes parts)
    (each : List.Forall₂ (fun fragments tree =>
      List.Forall₂ (Represents names) fragments (beginningBodies tree)) bodies parts) :
    List.Forall₂ (LoweredPart.Represents names)
      (((parts.map hasVariable).zip (wholes.zip bodies)).map fun part =>
        ⟨part.1, part.2.1, part.2.2⟩) (parts.map bodyPart) := by
  induction each generalizing wholes with
  | nil =>
    cases complete
    exact .nil
  | cons first rest ih =>
    cases complete with
    | cons whole others => exact .cons ⟨rfl, whole, first⟩ (ih others)

theorem beginnings_repeated (body : Tree) (repetition : Repetition) :
    ((repeated body repetition).beginnings = (do
        let whole ← body.whole
        let bodies ← body.beginnings
        return bodies.map fun inner => .grouped whole ++ .raw repetition.beforeLast ++ inner) ∧
      (repeated body repetition).beginningBodies = body.beginningBodies.map fun inner =>
        (body.wholeBody.repeated repetition.beforeLast.toList repetition.complete).append inner) ∨
    ((repeated body repetition).beginnings = pure [.empty] ∧
      (repeated body repetition).beginningBodies = [.empty]) ∨
    ((repeated body repetition).beginnings = body.beginnings ∧
      (repeated body repetition).beginningBodies = body.beginningBodies) := by
  obtain ⟨min, max, greedy⟩ := repetition
  rcases Repetition.max_cases max with rfl | rfl | rfl | ⟨most, rfl⟩
  · exact .inl ⟨rfl, rfl⟩
  · exact .inr (.inl ⟨rfl, rfl⟩)
  · exact .inr (.inr ⟨by simp only [beginnings], by simp only [beginningBodies]⟩)
  · exact .inl ⟨rfl, rfl⟩

theorem beginsWith (tree : Tree) : tree.BeginsWith := by
  induction tree with
  | choice branches ih =>
    intro names later fragments lowered
    rw [runs_beginnings_choice] at lowered
    obtain ⟨bodies, lowered, rfl⟩ := lowered
    have all := represents_beginningsAll ih lowered
    refine ⟨all.1, ?_⟩
    rw [beginningBodies, bodyParts_eq]
    refine LoweredPart.represents_choiceBeginnings ?_
    exact represents_branches all.2
  | sequence parts ih =>
    intro names later fragments lowered
    rw [runs_beginnings_sequence] at lowered
    obtain ⟨wholes, middle, lowered, bodies, lowered', rfl⟩ := lowered
    have complete := represents_wholeAll (fun part _ => lowersTo part) lowered
    have all := represents_beginningsAll ih lowered'
    refine ⟨complete.1.trans all.1, ?_⟩
    rw [beginningBodies, bodyParts_eq]
    refine LoweredPart.represents_sequenceBeginnings ?_
    have wholesSame := represents_mono complete.2 all.1
    rw [wholeBodies_eq, List.forall₂_map_right_iff] at wholesSame
    exact represents_parts wholesSame all.2
  | leaf text =>
    intro names later fragments lowered
    rw [runs_beginnings_leaf] at lowered
    obtain ⟨source, native, rfl, rfl⟩ := lowered
    have optional := (represents_ofLeaf names native).repeated "?" ⟨0, some 1, true⟩
    exact ⟨.refl _, .cons optional .nil⟩
  | look negated body ih =>
    intro names later fragments lowered
    rw [runs_beginnings_look] at lowered
    obtain ⟨inner, lowered, rfl⟩ := lowered
    have inside := lowersTo (look negated body) lowered
    exact ⟨inside.1, .cons inside.2 .nil⟩
  | named name body ih =>
    intro names later fragments lowered
    rw [runs_beginnings_variable] at lowered
    obtain ⟨inner, middle, lowered, lowered'⟩ := lowered
    have inside := ih lowered
    have captured := represents_captures inside.2 (.refl _) lowered'
    exact ⟨inside.1.trans captured.1, captured.2⟩
  | repeated body repetition ih =>
    intro names later fragments lowered
    rcases beginnings_repeated body repetition with ⟨made, bodies⟩ | ⟨made, bodies⟩ | ⟨made, bodies⟩
    · simp only [made, runs_bind, runs_pure, Prod.mk.injEq] at lowered
      obtain ⟨complete, middle, lowered, inner, last, lowered', rfl, rfl⟩ := lowered
      have before := lowersTo body lowered
      have inside := ih lowered'
      have quantified := (before.2.mono inside.1).repeated repetition.beforeLast repetition.complete
      rw [bodies]
      exact ⟨before.1.trans inside.1, LoweredPart.represents_map_append quantified inside.2⟩
    · simp only [made, runs_pure, Prod.mk.injEq] at lowered
      obtain ⟨rfl, rfl⟩ := lowered
      rw [bodies]
      exact ⟨.refl _, .cons .empty .nil⟩
    · rw [bodies]
      exact ih (made ▸ lowered)

end Tree

end LineGrammar
