import LineGrammar.Grammar.Compiled
import LineGrammar.Proofs.Grammar.Lowering

/-! The identifiers of groups and the names they stand for. Lowering the whole tree lists its
variables in order; every beginning lists only variables of the tree again. An identifier is given
out once, so no body has one twice. -/

namespace LineGrammar

def Adds (known : List String) (names later : Array String) : Prop :=
  ∃ added, later.toList = names.toList ++ added ∧ added ⊆ known

namespace Adds

variable {known others : List String} {names middle later : Array String}

theorem refl (names : Array String) : Adds known names names := ⟨[], by simp, by simp⟩

theorem trans (h : Adds known names middle) (h' : Adds known middle later) :
    Adds known names later := by
  obtain ⟨first, same, among⟩ := h
  obtain ⟨second, same', among'⟩ := h'
  exact ⟨first ++ second, by rw [same', same, List.append_assoc],
    List.append_subset.mpr ⟨among, among'⟩⟩

theorem mono (h : Adds known names later) (among : known ⊆ others) : Adds others names later := by
  obtain ⟨added, same, among'⟩ := h
  exact ⟨added, same, List.Subset.trans among' among⟩

theorem size_le (h : Adds known names later) : names.size ≤ later.size := by
  obtain ⟨added, same, -⟩ := h
  have lengths := congrArg List.length same
  simp only [Array.length_toList, List.length_append] at lengths
  omega

theorem push {name : String} (mem : name ∈ known) (names : Array String) :
    Adds known names (names.push name) :=
  ⟨[name], by simp, by simpa using mem⟩

theorem size_eq (h : Adds [] names later) : later.size = names.size := by
  obtain ⟨added, same, among⟩ := h
  obtain rfl := List.subset_nil.mp among
  rw [← Array.length_toList, same, List.append_nil, Array.length_toList]

end Adds

namespace Fragment

/-- The identifiers of the fragment are numbers from `start` up to and without `stop`, each of them
there once. -/
structure Fresh (start stop : Nat) (fragment : Fragment) : Prop where
  nodup : fragment.groups.Nodup
  within : ∀ group ∈ fragment.groups, start ≤ group ∧ group < stop

variable {start middle stop : Nat} {fragment first second : Fragment}

theorem fresh_of_eq_nil (ungrouped : fragment.groups = []) : fragment.Fresh start stop where
  nodup := by simp [ungrouped]
  within := by simp [ungrouped]

theorem fresh_range' (count : Nat) (numbered : fragment.groups = List.range' start count) :
    fragment.Fresh start (start + count) where
  nodup := numbered ▸ List.nodup_range'
  within group mem := List.mem_range'_1.mp (numbered ▸ mem)

namespace Fresh

theorem mono {start' stop' : Nat} (h : fragment.Fresh start stop) (lower : start' ≤ start)
    (upper : stop ≤ stop') : fragment.Fresh start' stop' where
  nodup := h.nodup
  within group mem := by
    have := h.within group mem
    omega

theorem sublist (h : fragment.Fresh start stop) (fewer : first.groups.Sublist fragment.groups) :
    first.Fresh start stop where
  nodup := h.nodup.sublist fewer
  within group mem := h.within group (fewer.subset mem)

theorem append (h : first.Fresh start middle) (h' : second.Fresh middle stop) (le : start ≤ middle)
    (le' : middle ≤ stop) : (first ++ second).Fresh start stop where
  nodup := by
    rw [groups_append, List.nodup_append']
    refine ⟨h.nodup, h'.nodup, fun group mem mem' => ?_⟩
    have before := h.within group mem
    have behind := h'.within group mem'
    omega
  within group mem := by
    rcases List.mem_append.mp mem with mem | mem
    · have := h.within group mem
      omega
    · have := h'.within group mem
      omega

theorem eq_nil (h : fragment.Fresh start start) : fragment.groups = [] :=
  List.eq_nil_iff_forall_not_mem.mpr fun group mem => by
    have := h.within group mem
    omega

theorem capture (h : fragment.Fresh start stop) (lower : start ≤ middle) (upper : stop ≤ middle) :
    (Fragment.capture middle fragment).Fresh start (middle + 1) := by
  have groups : (Fragment.capture middle fragment).groups = middle :: fragment.groups := by
    simp [Fragment.capture, raw]
  refine ⟨?_, fun group mem => ?_⟩
  · rw [groups, List.nodup_cons]
    refine ⟨fun mem => ?_, h.nodup⟩
    have := h.within middle mem
    omega
  · rw [groups, List.mem_cons] at mem
    rcases mem with rfl | mem
    · omega
    · have := h.within group mem
      omega

end Fresh

end Fragment

namespace Tree

open Lowering Fragment

variable {names later : Array String} {fragment : Fragment} {trees : List Tree}

/-- What running a lowering of one tree does to the names, and the identifiers that come of it. -/
def NumbersWhole (tree : Tree) : Prop :=
  ∀ {names later : Array String} {fragment : Fragment},
    tree.whole names = .ok (fragment, later) →
      later.toList = names.toList ++ tree.variableNames ∧
        fragment.groups = List.range' names.size tree.variableNames.length

theorem numbers_wholeAll (each : ∀ tree ∈ trees, tree.NumbersWhole) {fragments : List Fragment}
    (lowered : wholeAll trees names = .ok (fragments, later)) :
    later.toList = names.toList ++ allVariableNames trees ∧
      fragments.flatMap (·.groups) = List.range' names.size (allVariableNames trees).length := by
  induction trees generalizing names fragments with
  | nil =>
    rw [runs_wholeAll_nil] at lowered
    obtain ⟨rfl, rfl⟩ := lowered
    simp [allVariableNames]
  | cons tree rest ih =>
    obtain ⟨first, others⟩ := List.forall_mem_cons.mp each
    rw [runs_wholeAll_cons] at lowered
    obtain ⟨fragment, middle, lowered, fragments, lowered', rfl⟩ := lowered
    obtain ⟨grown, groups⟩ := first lowered
    obtain ⟨grown', groups'⟩ := ih others lowered'
    have size : middle.size = names.size + tree.variableNames.length := by
      rw [← Array.length_toList, grown, List.length_append, Array.length_toList]
    refine ⟨by rw [grown', grown, allVariableNames, List.append_assoc], ?_⟩
    rw [List.flatMap_cons, groups, groups', size, allVariableNames, List.length_append,
      List.range'_append_1]

theorem numbersWhole (tree : Tree) : tree.NumbersWhole := by
  induction tree with
  | choice branches ih =>
    intro names later fragment lowered
    rw [runs_whole_choice] at lowered
    obtain ⟨fragments, lowered, rfl⟩ := lowered
    exact numbers_wholeAll ih lowered
  | sequence parts ih =>
    intro names later fragment lowered
    rw [runs_whole_sequence] at lowered
    obtain ⟨fragments, lowered, rfl⟩ := lowered
    exact numbers_wholeAll ih lowered
  | leaf text =>
    intro names later fragment lowered
    rw [runs_whole_leaf] at lowered
    obtain ⟨source, native, rfl, rfl⟩ := lowered
    simp [variableNames, raw]
  | look negated body ih =>
    intro names later fragment lowered
    rw [runs_whole_look] at lowered
    obtain ⟨rfl, inner, lowered, rfl⟩ := lowered
    simpa [negativeLook, raw, variableNames] using ih lowered
  | named name body ih =>
    intro names later fragment lowered
    rw [runs_whole_variable] at lowered
    obtain ⟨inner, lowered, rfl⟩ := lowered
    obtain ⟨grown, groups⟩ := ih lowered
    refine ⟨by simp [grown, variableNames], ?_⟩
    simp [Fragment.capture, raw, groups, variableNames, List.range'_succ]
  | repeated body repetition ih =>
    intro names later fragment lowered
    rw [runs_whole_repeated] at lowered
    obtain ⟨inner, lowered, rfl⟩ := lowered
    simpa [grouped, raw, variableNames] using ih lowered

theorem adds_of_whole {tree : Tree} (lowered : tree.whole names = .ok (fragment, later)) :
    Adds tree.variableNames names later ∧ fragment.Fresh names.size later.size := by
  obtain ⟨grown, groups⟩ := numbersWhole tree lowered
  refine ⟨⟨_, grown, List.Subset.refl _⟩, ?_⟩
  have fresh := fresh_range' _ groups
  have sizes := congrArg List.length grown
  rw [List.length_append, Array.length_toList, Array.length_toList] at sizes
  rwa [← sizes] at fresh

end Tree

namespace LoweredPart

structure Numbered (start stop : Nat) (part : LoweredPart) : Prop where
  beginnings : ∀ fragment ∈ part.beginnings, fragment.Fresh start stop
  plain : part.hasVariable = false →
    part.whole.groups = [] ∧ ∀ fragment ∈ part.beginnings, fragment.groups = []

variable {start middle stop : Nat} {parts : List LoweredPart} {fragments : List Fragment}

theorem groups_concat (fragments : List Fragment) :
    (Fragment.concat fragments).groups = fragments.flatMap (·.groups) := rfl

theorem fresh_stopsInVariable (each : ∀ part ∈ parts, part.Numbered middle stop)
    (le : start ≤ middle) (le' : middle ≤ stop) {head : Fragment}
    (before : (head ++ .concat (parts.map (·.whole))).Fresh start middle) :
    ∀ fragment ∈ stopsInVariable head parts, fragment.Fresh start stop := by
  induction parts generalizing head with
  | nil => simp [stopsInVariable]
  | cons part rest ih =>
    obtain ⟨first, others⟩ := List.forall_mem_cons.mp each
    intro fragment mem
    rw [stopsInVariable, List.mem_append] at mem
    rcases mem with mem | mem
    · split at mem
      · obtain ⟨beginning, mem', rfl⟩ := List.mem_map.mp mem
        have alone : head.Fresh start middle :=
          before.sublist (List.sublist_append_left _ _)
        exact alone.append (first.beginnings beginning mem') le le'
      · simp at mem
    · refine ih others ?_ fragment mem
      exact before.sublist (by simp [groups_concat])

theorem groups_merged (ungrouped : ∀ fragment ∈ fragments, fragment.groups = []) :
    (merged fragments).groups = [] := by
  unfold merged
  split
  · exact ungrouped _ List.mem_cons_self
  · exact List.flatMap_eq_nil_iff.mpr ungrouped

theorem groups_stopsOutside (each : ∀ part ∈ parts, part.Numbered start stop) :
    (stopsOutside parts).groups = parts.flatMap (·.whole.groups) := by
  induction parts with
  | nil => rfl
  | cons part rest ih =>
    obtain ⟨first, others⟩ := List.forall_mem_cons.mp each
    rw [List.flatMap_cons, ← ih others, stopsOutside]
    split
    · simp [Fragment.raw]
    · next plain =>
      have last := groups_merged (first.plain (by simpa using plain)).2
      simp [Fragment.raw, last]

theorem fresh_sequenceBeginnings (each : ∀ part ∈ parts, part.Numbered middle stop)
    (le : start ≤ middle) (le' : middle ≤ stop)
    (before : (Fragment.concat (parts.map (·.whole))).Fresh start middle) :
    ∀ fragment ∈ sequenceBeginnings parts, fragment.Fresh start stop := by
  intro fragment mem
  unfold sequenceBeginnings at mem
  split at mem
  · obtain rfl := List.mem_singleton.mp mem
    exact Fragment.fresh_of_eq_nil rfl
  · rcases List.mem_append.mp mem with mem | mem
    · refine fresh_stopsInVariable each le le' ?_ fragment mem
      exact before.sublist (by simp [Fragment.empty])
    · split at mem
      · obtain rfl := List.mem_singleton.mp mem
        refine (before.sublist ?_).mono (Nat.le_refl start) le'
        rw [groups_stopsOutside each, groups_concat, List.flatMap_map]
      · simp at mem

theorem fresh_choiceBeginnings {branches : List (Bool × List Fragment)}
    (each : ∀ branch ∈ branches, (∀ fragment ∈ branch.2, fragment.Fresh start stop) ∧
      (branch.1 = false → ∀ fragment ∈ branch.2, fragment.groups = [])) :
    ∀ fragment ∈ choiceBeginnings branches, fragment.Fresh start stop := by
  intro fragment mem
  unfold choiceBeginnings at mem
  rcases List.mem_append.mp mem with mem | mem
  · obtain ⟨branch, mem', inside⟩ := List.mem_flatMap.mp mem
    dsimp only at inside
    split at inside
    · exact (each branch mem').1 fragment inside
    · simp at inside
  · split at mem
    · simp at mem
    · obtain rfl := List.mem_singleton.mp mem
      refine Fragment.fresh_of_eq_nil (List.flatMap_eq_nil_iff.mpr fun plain mem => ?_)
      obtain ⟨branch, mem', inside⟩ := List.mem_flatMap.mp mem
      dsimp only at inside
      split at inside
      · simp at inside
      · next other => exact (each branch mem').2 (by simpa using other) plain inside

end LoweredPart

namespace Tree

open Lowering Fragment

variable {names middle later : Array String} {fragment : Fragment} {trees : List Tree}
  {tree : Tree} {name : String}

theorem variableNames_eq_nil (plain : tree.hasVariable = false) : tree.variableNames = [] := by
  have all {trees : List Tree} (each : ∀ tree ∈ trees, tree.hasVariable = false →
      tree.variableNames = []) (plain : anyVariable trees = false) :
      allVariableNames trees = [] := by
    induction trees with
    | nil => rfl
    | cons tree rest ih =>
      obtain ⟨first, others⟩ := List.forall_mem_cons.mp each
      rw [anyVariable, Bool.or_eq_false_iff] at plain
      rw [allVariableNames, first plain.1, ih others plain.2, List.append_nil]
  induction tree with
  | choice branches ih => exact all ih plain
  | sequence parts ih => exact all ih plain
  | leaf text => rfl
  | look negated body ih | repeated body repetition ih => exact ih plain
  | named name body ih => simp [hasVariable] at plain

def NumbersBeginnings (tree : Tree) : Prop :=
  ∀ {names later : Array String} {fragments : List Fragment},
    tree.beginnings names = .ok (fragments, later) →
      Adds tree.variableNames names later ∧
        ∀ fragment ∈ fragments, fragment.Fresh names.size later.size

theorem NumbersBeginnings.eq_nil (numbers : tree.NumbersBeginnings)
    (plain : tree.hasVariable = false) {fragments : List Fragment}
    (lowered : tree.beginnings names = .ok (fragments, later)) :
    ∀ fragment ∈ fragments, fragment.groups = [] := by
  obtain ⟨adds, fresh⟩ := numbers lowered
  rw [variableNames_eq_nil plain] at adds
  rw [adds.size_eq] at fresh
  exact fun fragment mem => (fresh fragment mem).eq_nil

def FreshFor (start stop : Nat) (fragments : List Fragment) (tree : Tree) : Prop :=
  (∀ fragment ∈ fragments, fragment.Fresh start stop) ∧
    (tree.hasVariable = false → ∀ fragment ∈ fragments, fragment.groups = [])

theorem FreshFor.mono {start stop start' stop' : Nat} {fragments : List Fragment}
    (h : FreshFor start stop fragments tree) (lower : start' ≤ start) (upper : stop ≤ stop') :
    FreshFor start' stop' fragments tree :=
  ⟨fun fragment mem => (h.1 fragment mem).mono lower upper, h.2⟩

theorem numbers_beginningsAll (each : ∀ tree ∈ trees, tree.NumbersBeginnings)
    {bodies : List (List Fragment)} (lowered : beginningsAll trees names = .ok (bodies, later)) :
    Adds (allVariableNames trees) names later ∧
      List.Forall₂ (FreshFor names.size later.size) bodies trees := by
  induction trees generalizing names bodies with
  | nil =>
    rw [runs_beginningsAll_nil] at lowered
    obtain ⟨rfl, rfl⟩ := lowered
    exact ⟨.refl _, .nil⟩
  | cons tree rest ih =>
    obtain ⟨first, others⟩ := List.forall_mem_cons.mp each
    rw [runs_beginningsAll_cons] at lowered
    obtain ⟨fragments, middle, lowered, bodies, lowered', rfl⟩ := lowered
    obtain ⟨adds, fresh⟩ := first lowered
    obtain ⟨adds', fresh'⟩ := ih others lowered'
    refine ⟨(adds.mono (by simp [allVariableNames])).trans
      (adds'.mono (by simp [allVariableNames])), .cons ?_ ?_⟩
    · exact FreshFor.mono ⟨fresh, fun plain => first.eq_nil plain lowered⟩ (Nat.le_refl _)
        adds'.size_le
    · exact fresh'.imp fun _ _ fresh => fresh.mono adds.size_le (Nat.le_refl _)

theorem plain_wholeAll {fragments : List Fragment}
    (lowered : wholeAll trees names = .ok (fragments, later)) :
    List.Forall₂ (fun fragment tree => hasVariable tree = false → Fragment.groups fragment = [])
      fragments trees := by
  induction trees generalizing names fragments with
  | nil =>
    rw [runs_wholeAll_nil] at lowered
    obtain ⟨rfl, rfl⟩ := lowered
    exact .nil
  | cons tree rest ih =>
    rw [runs_wholeAll_cons] at lowered
    obtain ⟨fragment, middle, lowered, fragments, lowered', rfl⟩ := lowered
    refine .cons (fun plain => ?_) (ih lowered')
    have groups := (numbersWhole tree lowered).2
    rwa [variableNames_eq_nil plain] at groups

theorem numbers_branches {start stop : Nat} {bodies : List (List Fragment)} {branches : List Tree}
    (each : List.Forall₂ (FreshFor start stop) bodies branches) :
    ∀ branch ∈ (branches.map hasVariable).zip bodies,
      (∀ fragment ∈ branch.2, fragment.Fresh start stop) ∧
        (branch.1 = false → ∀ fragment ∈ branch.2, fragment.groups = []) := by
  induction each with
  | nil => simp
  | cons first rest ih => exact List.forall_mem_cons.mpr ⟨first, ih⟩

theorem numbered_parts {start stop : Nat} {wholes : List Fragment} {bodies : List (List Fragment)}
    {parts : List Tree}
    (plain : List.Forall₂ (fun fragment tree => hasVariable tree = false →
      Fragment.groups fragment = []) wholes parts)
    (each : List.Forall₂ (FreshFor start stop) bodies parts) :
    let lowered := ((parts.map hasVariable).zip (wholes.zip bodies)).map fun part =>
      (⟨part.1, part.2.1, part.2.2⟩ : LoweredPart)
    (∀ part ∈ lowered, part.Numbered start stop) ∧ lowered.map (·.whole) = wholes := by
  induction each generalizing wholes with
  | nil =>
    cases plain
    exact ⟨by simp, rfl⟩
  | cons first rest ih =>
    cases plain with
    | cons whole others =>
      obtain ⟨numbered, wholes⟩ := ih others
      refine ⟨List.forall_mem_cons.mpr ⟨⟨first.1, fun plain => ⟨whole plain, first.2 plain⟩⟩,
        numbered⟩, ?_⟩
      exact congrArg (_ :: ·) wholes

theorem numbers_captures {start : Nat} {known : List String} {inner fragments : List Fragment}
    (each : ∀ fragment ∈ inner, fragment.Fresh start names.size)
    (le : start ≤ names.size) (mem : name ∈ known)
    (lowered : captures name inner names = .ok (fragments, later)) :
    Adds known names later ∧ ∀ fragment ∈ fragments, fragment.Fresh start later.size := by
  induction inner generalizing names fragments with
  | nil =>
    rw [runs_captures_nil] at lowered
    obtain ⟨rfl, rfl⟩ := lowered
    exact ⟨.refl _, by simp⟩
  | cons first rest ih =>
    obtain ⟨fresh, others⟩ := List.forall_mem_cons.mp each
    rw [runs_captures_cons] at lowered
    obtain ⟨fragments, lowered', rfl⟩ := lowered
    have size : names.size ≤ (names.push name).size := by simp
    obtain ⟨adds, fresh'⟩ := ih
      (fun fragment mem => (others fragment mem).mono (Nat.le_refl _) size) (by omega) lowered'
    refine ⟨(Adds.push mem names).trans adds, List.forall_mem_cons.mpr ⟨?_, fresh'⟩⟩
    have captured := fresh.capture le (Nat.le_refl _)
    refine captured.mono (Nat.le_refl _) ?_
    simpa using adds.size_le

theorem numbersBeginnings (tree : Tree) : tree.NumbersBeginnings := by
  induction tree with
  | choice branches ih =>
    intro names later fragments lowered
    rw [runs_beginnings_choice] at lowered
    obtain ⟨bodies, lowered, rfl⟩ := lowered
    obtain ⟨adds, fresh⟩ := numbers_beginningsAll ih lowered
    exact ⟨adds, LoweredPart.fresh_choiceBeginnings (numbers_branches fresh)⟩
  | sequence parts ih =>
    intro names later fragments lowered
    rw [runs_beginnings_sequence] at lowered
    obtain ⟨wholes, middle, lowered, bodies, lowered', rfl⟩ := lowered
    have complete : (sequence parts).whole names = .ok (.concat wholes, middle) :=
      runs_whole_sequence.mpr ⟨wholes, lowered, rfl⟩
    obtain ⟨adds, fresh⟩ := adds_of_whole complete
    obtain ⟨adds', fresh'⟩ := numbers_beginningsAll ih lowered'
    obtain ⟨numbered, same⟩ := numbered_parts (plain_wholeAll lowered) fresh'
    refine ⟨adds.trans adds', LoweredPart.fresh_sequenceBeginnings numbered adds.size_le
      adds'.size_le ?_⟩
    rwa [same]
  | leaf text =>
    intro names later fragments lowered
    rw [runs_beginnings_leaf] at lowered
    obtain ⟨source, native, rfl, rfl⟩ := lowered
    exact ⟨.refl _, List.forall_mem_singleton.mpr (fresh_of_eq_nil rfl)⟩
  | look negated body ih =>
    intro names later fragments lowered
    rw [runs_beginnings_look] at lowered
    obtain ⟨inner, lowered, rfl⟩ := lowered
    obtain ⟨adds, fresh⟩ := adds_of_whole lowered
    exact ⟨adds, List.forall_mem_singleton.mpr fresh⟩
  | named name body ih =>
    intro names later fragments lowered
    rw [runs_beginnings_variable] at lowered
    obtain ⟨inner, middle, lowered, lowered'⟩ := lowered
    obtain ⟨adds, fresh⟩ := ih lowered
    have mem : name ∈ (Tree.variable name body).variableNames := List.mem_cons_self
    obtain ⟨adds', fresh'⟩ := numbers_captures fresh adds.size_le mem lowered'
    exact ⟨(adds.mono (List.subset_cons_self _ _)).trans adds', fresh'⟩
  | repeated body repetition ih =>
    intro names later fragments lowered
    rcases beginnings_repeated body repetition with ⟨made, -⟩ | ⟨made, -⟩ | ⟨made, -⟩
    · simp only [made, runs_bind, runs_pure, Prod.mk.injEq] at lowered
      obtain ⟨complete, middle, lowered, bodies, last, lowered', rfl, rfl⟩ := lowered
      obtain ⟨adds, fresh⟩ := adds_of_whole lowered
      obtain ⟨adds', fresh'⟩ := ih lowered'
      refine ⟨adds.trans adds', List.forall_mem_map.mpr fun inner mem => ?_⟩
      have before : (grouped complete ++ raw repetition.beforeLast).Fresh names.size middle.size :=
        fresh.sublist (by simp [grouped, raw])
      exact before.append (fresh' inner mem) adds.size_le adds'.size_le
    · simp only [made, runs_pure, Prod.mk.injEq] at lowered
      obtain ⟨rfl, rfl⟩ := lowered
      exact ⟨.refl _, List.forall_mem_singleton.mpr (fresh_of_eq_nil rfl)⟩
    · exact ih (made ▸ lowered)

theorem numbers_lower {root : Tree} {lowered : Lowered} (eq : root.lower = .ok lowered) :
    (∃ added, lowered.groupNames.toList = root.variableNames ++ added ∧
      added ⊆ root.variableNames) ∧
      lowered.whole.groups = List.range' 0 root.variableNames.length ∧
      ∀ fragment ∈ lowered.beginnings, fragment.groups.Nodup := by
  obtain ⟨⟨⟨whole, beginnings⟩, groupNames⟩, run, made⟩ := bind_eq_ok.mp eq
  obtain rfl := Except.ok.inj made
  simp only [StateT.run, runs_bind, runs_pure, Prod.mk.injEq] at run
  obtain ⟨whole', middle, run, beginnings', last, run', ⟨rfl, rfl⟩, rfl⟩ := run
  obtain ⟨grown, groups⟩ := numbersWhole root run
  obtain ⟨⟨added, grown', among⟩, fresh⟩ := numbersBeginnings root run'
  refine ⟨⟨added, ?_, among⟩, by simpa using groups, fun fragment mem => (fresh fragment mem).nodup⟩
  rw [grown', grown]
  rfl

end Tree

namespace Grammar

variable {root : Tree} {escapes unescapes : Registry (String → String)} {grammar : Grammar}

theorem exists_lowered (compiles : ofTree root escapes unescapes = .ok grammar) :
    ∃ lowered, root.lower = .ok lowered ∧ grammar.groupNames = lowered.groupNames ∧
      CompiledPattern.anchored lowered.whole = .ok grammar.whole ∧
      List.Forall₂ (fun fragment compiled => CompiledPattern.anchored fragment = .ok compiled)
        lowered.beginnings grammar.beginnings ∧
      List.Forall₂ (fun fragment compiled => CompiledPattern.withTrailing fragment = .ok compiled)
        lowered.beginnings grammar.withTrailing := by
  simp only [ofTree, bind_eq_ok, pure, Except.pure, Except.ok.injEq, mapM_eq_ok] at compiles
  obtain ⟨lowered, lowers, whole, anchored, beginnings, anchoredAll, trailing, trailingAll, rfl⟩ :=
    compiles
  exact ⟨lowered, lowers, rfl, anchored, anchoredAll, trailingAll⟩

theorem mem_variableNames (compiles : ofTree root escapes unescapes = .ok grammar) {group : Nat}
    {name : String} (named : grammar.groupName? group = some name) :
    name ∈ root.variableNames := by
  obtain ⟨lowered, lowers, names, -⟩ := exists_lowered compiles
  obtain ⟨⟨added, grown, among⟩, -⟩ := Tree.numbers_lower lowers
  have mem : name ∈ grammar.groupNames.toList := by
    rw [Array.mem_toList_iff]
    exact Array.mem_of_getElem? named
  rw [names, grown, List.mem_append] at mem
  exact mem.elim id fun mem => among mem

end Grammar

end LineGrammar
