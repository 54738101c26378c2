import LineGrammar.Proofs.Grammar.Compiling

/-! Trees that become grammars. Lowering refuses a positive lookahead and a leaf without native
text, and nothing else. What it writes is read without a fault wherever each leaf can be read on
its own: every piece of the text is followed by another whole piece, by the end of its group or by
a quantifier behind a group, so no piece changes what its neighbours are read as. -/

namespace LineGrammar.Lowering

variable {α β : Type} {lowering : Lowering α}

/-- The lowering does not fail, whatever names there are already. -/
def Succeeds (lowering : Lowering α) : Prop :=
  ∀ names, ∃ made, lowering names = .ok made

theorem succeeds_pure (a : α) : (pure a : Lowering α).Succeeds := fun _ => ⟨_, rfl⟩

theorem succeeds_newGroup (name : String) : (newGroup name).Succeeds := fun _ => ⟨_, rfl⟩

theorem succeeds_native {text source : String} (lowered : Leaf.native text = .ok source) :
    (native text).Succeeds := fun names => ⟨(source, names), runs_native.mpr ⟨_, lowered, rfl⟩⟩

theorem Succeeds.bind {next : α → Lowering β} (first : lowering.Succeeds)
    (later : ∀ a, (next a).Succeeds) : (lowering >>= next).Succeeds := by
  intro names
  obtain ⟨⟨a, middle⟩, run⟩ := first names
  obtain ⟨made, run'⟩ := later a middle
  exact ⟨made, runs_bind.mpr ⟨a, middle, run, run'⟩⟩

theorem succeeds_mapM {f : α → Lowering β} {items : List α} (each : ∀ item, (f item).Succeeds) :
    (items.mapM f).Succeeds := by
  induction items with
  | nil => exact succeeds_pure _
  | cons item rest ih =>
    rw [List.mapM_cons]
    exact (each item).bind fun _ => ih.bind fun _ => succeeds_pure _

end LineGrammar.Lowering

namespace LineGrammar

namespace Tree

open Lowering

variable {tree : Tree} {trees : List Tree}

structure Lowerable (root : Tree) : Prop where
  native : ∀ text, leaf text ∈ root.subtrees → ∃ source, Leaf.native text = .ok source
  negative : root.LooksNegative

theorem Lowerable.part {inner : Tree} (lowerable : tree.Lowerable) (mem : inner ∈ tree.subtrees) :
    inner.Lowerable where
  native text below := lowerable.native text (mem_subtrees_trans below mem)
  negative := lowerable.negative.subtree mem

theorem succeeds_wholeAll (each : ∀ tree ∈ trees, tree.whole.Succeeds) :
    (wholeAll trees).Succeeds := by
  induction trees with
  | nil => exact succeeds_pure _
  | cons tree rest ih =>
    have others := ih fun tree mem => each tree (List.mem_cons_of_mem _ mem)
    exact (each tree List.mem_cons_self).bind fun _ => others.bind fun _ => succeeds_pure _

theorem succeeds_beginningsAll (each : ∀ tree ∈ trees, tree.beginnings.Succeeds) :
    (beginningsAll trees).Succeeds := by
  induction trees with
  | nil => exact succeeds_pure _
  | cons tree rest ih =>
    have others := ih fun tree mem => each tree (List.mem_cons_of_mem _ mem)
    exact (each tree List.mem_cons_self).bind fun _ => others.bind fun _ => succeeds_pure _

theorem Lowerable.succeeds_whole (lowerable : tree.Lowerable) : tree.whole.Succeeds := by
  induction tree with
  | choice branches ih =>
    have inside := succeeds_wholeAll fun branch mem =>
      ih branch mem (lowerable.part (branch_mem_subtrees mem))
    exact inside.bind fun _ => succeeds_pure _
  | sequence parts ih =>
    have inside := succeeds_wholeAll fun part mem =>
      ih part mem (lowerable.part (part_mem_subtrees mem))
    exact inside.bind fun _ => succeeds_pure _
  | leaf text =>
    obtain ⟨source, lowered⟩ := lowerable.native text (self_mem_subtrees _)
    exact (succeeds_native lowered).bind fun _ => succeeds_pure _
  | look negated body ih =>
    obtain rfl : negated = true := lowerable.negative _ _ (self_mem_subtrees _)
    exact (ih (lowerable.part look_body_mem_subtrees)).bind fun _ => succeeds_pure _
  | named name body ih =>
    have inside := ih (lowerable.part variable_body_mem_subtrees)
    exact (succeeds_newGroup name).bind fun _ => inside.bind fun _ => succeeds_pure _
  | repeated body repetition ih =>
    exact (ih (lowerable.part repeated_body_mem_subtrees)).bind fun _ => succeeds_pure _

theorem Lowerable.succeeds_beginnings (lowerable : tree.Lowerable) :
    tree.beginnings.Succeeds := by
  induction tree with
  | choice branches ih =>
    have inside := succeeds_beginningsAll fun branch mem =>
      ih branch mem (lowerable.part (branch_mem_subtrees mem))
    rw [beginnings]
    exact inside.bind fun _ => succeeds_pure _
  | sequence parts ih =>
    have complete := succeeds_wholeAll fun part mem =>
      (lowerable.part (part_mem_subtrees mem)).succeeds_whole
    have inside := succeeds_beginningsAll fun part mem =>
      ih part mem (lowerable.part (part_mem_subtrees mem))
    rw [beginnings]
    exact complete.bind fun _ => inside.bind fun _ => succeeds_pure _
  | leaf text =>
    obtain ⟨source, lowered⟩ := lowerable.native text (self_mem_subtrees _)
    rw [beginnings]
    exact (succeeds_native lowered).bind fun _ => succeeds_pure _
  | look negated body ih =>
    rw [beginnings]
    exact lowerable.succeeds_whole.bind fun _ => succeeds_pure _
  | named name body ih =>
    have inside := ih (lowerable.part variable_body_mem_subtrees)
    rw [beginnings]
    exact inside.bind fun _ => succeeds_mapM fun _ =>
      (succeeds_newGroup name).bind fun _ => succeeds_pure _
  | repeated body repetition ih =>
    have part := lowerable.part repeated_body_mem_subtrees
    rcases beginnings_repeated body repetition with ⟨made, -⟩ | ⟨made, -⟩ | ⟨made, -⟩ <;> rw [made]
    · exact part.succeeds_whole.bind fun _ => (ih part).bind fun _ => succeeds_pure _
    · exact succeeds_pure _
    · exact ih part

theorem Lowerable.lower (lowerable : tree.Lowerable) {names : Array String} {body : Fragment}
    (lowered : tree.whole #[] = .ok (body, names)) :
    ∃ beginnings later, tree.lower = .ok ⟨body, beginnings, later⟩ ∧ Extends names later := by
  obtain ⟨⟨beginnings, later⟩, run⟩ := lowerable.succeeds_beginnings names
  refine ⟨beginnings, later, ?_, (beginsWith tree run).1⟩
  rw [Tree.lower, bind_eq_ok]
  refine ⟨((body, beginnings), later), ?_, rfl⟩
  simp only [StateT.run, runs_bind, runs_pure]
  exact ⟨body, names, lowered, beginnings, later, run, rfl⟩

theorem Lowerable.exists_lower (lowerable : tree.Lowerable) :
    ∃ lowered, tree.lower = .ok lowered := by
  obtain ⟨⟨whole, names⟩, run⟩ := lowerable.succeeds_whole #[]
  obtain ⟨beginnings, later, lowers, -⟩ := lowerable.lower run
  exact ⟨_, lowers⟩

end Tree

namespace CompiledPattern

variable {names : Array String} {fragment : Fragment} {body : Body}

theorem exists_ofSource {source : String} {pattern : Pattern}
    (read : Pattern.read source = .ok pattern) (groups : List Nat) :
    ∃ compiled, ofSource source groups = .ok compiled :=
  ⟨⟨source, pattern, groups⟩, ofSource_eq_ok.mpr ⟨read, rfl, rfl⟩⟩

theorem exists_anchored (represents : fragment.Represents names body)
    (readable : body.Readable True) : ∃ compiled, anchored fragment = .ok compiled := by
  refine exists_ofSource (readable.enclosable.covering.enclosable.read ?_) _
  simp [Body.covering, Body.append, Body.single, Body.choice, represents.source]

theorem exists_withTrailing (represents : fragment.Represents names body)
    (readable : body.Readable True) : ∃ compiled, withTrailing fragment = .ok compiled := by
  refine exists_ofSource (readable.enclosable.trailing.enclosable.read ?_) _
  simp [Body.trailing, Body.append, Body.single, Body.choice, Body.capture, Body.anything,
    represents.source]

end CompiledPattern

/-- Its lookaheads are negative, its repetitions have possible bounds, and its leaves are tokens
whose native texts are read as patterns on their own and not differently before a digit. -/
structure Tree.Acceptable (root : Tree) : Prop where
  negative : root.LooksNegative
  bounds : ∀ body repetition, repeated body repetition ∈ root.subtrees → repetition.WellFormed
  token : ∀ text, leaf text ∈ root.subtrees → Leaf.IsToken text
  accepted : ∀ text, leaf text ∈ root.subtrees → Accepted text

namespace Tree.Acceptable

variable {root : Tree}

theorem lowerable (acceptable : root.Acceptable) : root.Lowerable where
  native text mem := by
    obtain ⟨-, source, -, lowered, -⟩ := acceptable.accepted text mem
    exact ⟨source, lowered⟩
  negative := acceptable.negative

theorem notBare (acceptable : root.Acceptable) {text : String} (mem : leaf text ∈ root.subtrees) :
    ¬Leaf.IsBareEscape text := by
  obtain ⟨-, source, term, lowered, read⟩ := acceptable.accepted text mem
  exact fun bare => Leaf.read_ne_ok_of_isBareEscape bare lowered read

theorem grounds (acceptable : root.Acceptable) : root.Grounds (Body.Readable True) where
  leaf text mem := Body.readable_ofLeaf (acceptable.token text mem) (acceptable.notBare mem)
    fun _ => acceptable.accepted text mem
  look negated _ _ readable := readable.enclosable.look .forward negated
  bounds := acceptable.bounds

theorem readable_bodyPart (acceptable : root.Acceptable) :
    root.bodyPart.All (Body.Readable True) :=
  acceptable.grounds.all hereditary_readable

end Tree.Acceptable

namespace Grammar

/-- Such a tree becomes a grammar: the pattern for its language, the patterns for its beginnings and
those with room for trailing input can all be read. -/
theorem exists_ofTree {root : Tree} (acceptable : root.Acceptable)
    (escapes unescapes : Registry (String → String)) :
    ∃ grammar, ofTree root escapes unescapes = .ok grammar := by
  obtain ⟨⟨whole, names⟩, run⟩ := acceptable.lowerable.succeeds_whole #[]
  obtain ⟨beginnings, later, lowers, -⟩ := acceptable.lowerable.lower run
  obtain ⟨wholeSame, beginningsSame, -⟩ := Tree.represents_lower lowers
  have readable := acceptable.readable_bodyPart
  have each : ∀ fragment ∈ beginnings, ∃ body : Body, fragment.Represents later body ∧
      body.Readable True := by
    intro fragment mem
    obtain ⟨body, mem', represents⟩ := exists_of_forall₂_left beginningsSame mem
    exact ⟨body, represents, readable.beginnings body mem'⟩
  obtain ⟨compiled, anchored⟩ := CompiledPattern.exists_anchored wholeSame readable.whole
  obtain ⟨anchoredAll, covering⟩ : ∃ patterns, beginnings.mapM CompiledPattern.anchored =
      .ok patterns := exists_mapM_eq_ok fun fragment mem => by
    obtain ⟨body, represents, readable⟩ := each fragment mem
    exact CompiledPattern.exists_anchored represents readable
  obtain ⟨trailingAll, trailing⟩ : ∃ patterns, beginnings.mapM CompiledPattern.withTrailing =
      .ok patterns := exists_mapM_eq_ok fun fragment mem => by
    obtain ⟨body, represents, readable⟩ := each fragment mem
    exact CompiledPattern.exists_withTrailing represents readable
  refine ⟨⟨root, compiled, anchoredAll, trailingAll, later, escapes, unescapes⟩, ?_⟩
  simp only [ofTree, bind_eq_ok, pure, Except.pure, Except.ok.injEq]
  exact ⟨_, lowers, _, anchored, _, covering, _, trailing, rfl⟩

end Grammar

namespace Tree

def braces : Tree :=
  .sequence [.leaf "^", .look true (.leaf "\x7d"), .repeated (.leaf "\x7b") ⟨2, some 3, false⟩,
    .choice []]

theorem leaf_of_mem_braces {text : String} (mem : leaf text ∈ braces.subtrees) :
    text = "^" ∨ text = "\x7d" ∨ text = "\x7b" := by
  simpa [braces, subtrees, allSubtrees] using mem

theorem acceptable_braces : braces.Acceptable where
  negative negated body mem := by
    simp [braces, subtrees, allSubtrees] at mem
    exact mem.1
  bounds body repetition mem := by
    obtain ⟨-, rfl⟩ : body = leaf "\x7b" ∧ repetition = ⟨2, some 3, false⟩ := by
      simpa [braces, subtrees, allSubtrees] using mem
    exact ⟨by simp, by simp [Pattern.largestCount], by simp [Pattern.largestCount]⟩
  token text mem := by
    rcases leaf_of_mem_braces mem with rfl | rfl | rfl
    · exact Leaf.isToken_of_alone "^" "^" (by cbv) (by cbv) (by cbv)
    · exact Leaf.isToken_of_alone "\x7d" "\\\x7d" (by cbv) (by cbv) (by cbv)
    · exact Leaf.isToken_of_alone "\x7b" "\\\x7b" (by cbv) (by cbv) (by cbv)
  accepted text mem := by
    rcases leaf_of_mem_braces mem with rfl | rfl | rfl
    · exact ⟨by simp [Leaf.IsNull], "^", _, by cbv, by cbv⟩
    · exact ⟨by simp [Leaf.IsNull], "\\\x7d", _, by cbv, by cbv⟩
    · exact ⟨by simp [Leaf.IsNull], "\\\x7b", _, by cbv, by cbv⟩

end Tree

theorem Grammar.exists_ofTree_braces :
    Tree.braces.Acceptable ∧ ∃ grammar, ofTree .braces [] [] = .ok grammar :=
  ⟨Tree.acceptable_braces, exists_ofTree Tree.acceptable_braces [] []⟩

end LineGrammar
