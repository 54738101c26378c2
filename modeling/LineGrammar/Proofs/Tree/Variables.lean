import LineGrammar.Proofs.Grammar.BodyScopes

/-! The variables of a tree and how they lie in each other. They are listed outer ones first, so the
variables in a variable follow right behind it; the body of the tree has a group for each of them,
in the same order and lying in each other alike. -/

namespace LineGrammar.Tree

mutual

/-- The variables with what is in them, outer ones first. -/
def variableNodes : Tree → List (String × Tree)
  | .choice branches => allVariableNodes branches
  | .sequence parts => allVariableNodes parts
  | .leaf _ => []
  | .look _ body => body.variableNodes
  | .variable name body => (name, body) :: body.variableNodes
  | .repeated body _ => body.variableNodes

def allVariableNodes : List Tree → List (String × Tree)
  | [] => []
  | tree :: rest => tree.variableNodes ++ allVariableNodes rest

end

theorem allVariableNodes_eq (trees : List Tree) :
    allVariableNodes trees = trees.flatMap variableNodes := by
  induction trees with
  | nil => rfl
  | cons tree rest ih => rw [allVariableNodes, List.flatMap_cons, ih]

/-- The variable at place `inner` lies in the one at place `outer`. -/
def Encloses (root : Tree) (outer inner : Nat) : Prop :=
  ∃ name body place, root.variableNodes[outer]? = some (name, body) ∧
    place < body.variableNodes.length ∧ inner = outer + 1 + place

variable {root tree body : Tree} {name : String} {outer inner place : Nat}

theorem getElem?_allVariableNodes {trees : List Tree}
    (each : ∀ tree ∈ trees, ∀ {outer : Nat}, tree.variableNodes[outer]? = some (name, body) →
      tree.variableNodes[outer + 1 + place]? = body.variableNodes[place]?)
    (less : place < body.variableNodes.length)
    (found : (allVariableNodes trees)[outer]? = some (name, body)) :
    (allVariableNodes trees)[outer + 1 + place]? = body.variableNodes[place]? := by
  induction trees generalizing outer with
  | nil => simp [allVariableNodes] at found
  | cons tree rest ih =>
    obtain ⟨first, others⟩ := List.forall_mem_cons.mp each
    rw [allVariableNodes, List.getElem?_append] at found
    rw [allVariableNodes, List.getElem?_append]
    split at found
    · have same := first found
      have within : outer + 1 + place < tree.variableNodes.length :=
        (List.getElem?_eq_some_iff.mp (same.trans (List.getElem?_eq_getElem less))).1
      rw [if_pos within, same]
    · rw [if_neg (by omega), ← ih others found]
      congr 1
      omega

/-- Right behind a variable stand the variables in it. -/
theorem getElem?_variableNodes (less : place < body.variableNodes.length)
    (found : root.variableNodes[outer]? = some (name, body)) :
    root.variableNodes[outer + 1 + place]? = body.variableNodes[place]? := by
  induction root generalizing outer with
  | choice branches ih =>
    exact getElem?_allVariableNodes (fun branch mem => ih branch mem) less found
  | sequence parts ih => exact getElem?_allVariableNodes (fun part mem => ih part mem) less found
  | leaf text => simp [variableNodes] at found
  | look negated inside ih | repeated inside repetition ih => exact ih found
  | named other inside ih =>
    rw [variableNodes] at found ⊢
    rw [Nat.add_right_comm, List.getElem?_cons_succ]
    cases outer with
    | zero =>
      obtain ⟨rfl, rfl⟩ : other = name ∧ inside = body := by simpa using found
      rw [Nat.zero_add]
    | succ outer =>
      rw [List.getElem?_cons_succ] at found
      exact ih found

theorem map_variableNodes (tree : Tree) : tree.variableNodes.map (·.1) = tree.variableNames := by
  have all {trees : List Tree}
      (each : ∀ tree ∈ trees, tree.variableNodes.map (·.1) = tree.variableNames) :
      (allVariableNodes trees).map (·.1) = allVariableNames trees := by
    induction trees with
    | nil => rfl
    | cons tree rest ih =>
      obtain ⟨first, others⟩ := List.forall_mem_cons.mp each
      rw [allVariableNodes, allVariableNames, List.map_append, first, ih others]
  induction tree with
  | choice branches ih => exact all ih
  | sequence parts ih => exact all ih
  | leaf text => rfl
  | look negated body ih | repeated body repetition ih => exact ih
  | named name body ih => exact congrArg (name :: ·) ih

theorem names_wholeBody (tree : Tree) : tree.wholeBody.names = tree.variableNames := by
  have all {trees : List Tree}
      (each : ∀ tree ∈ trees, tree.wholeBody.names = tree.variableNames) :
      (wholeBodies trees).flatMap Body.names = allVariableNames trees := by
    induction trees with
    | nil => rfl
    | cons tree rest ih =>
      obtain ⟨first, others⟩ := List.forall_mem_cons.mp each
      rw [wholeBodies, allVariableNames, List.flatMap_cons, first, ih others]
  induction tree with
  | choice branches ih => exact all ih
  | sequence parts ih =>
    rw [wholeBody, Body.names_concat, all ih]
    rfl
  | leaf text => exact Body.names_ofLeaf text
  | look negated body ih | repeated body repetition ih => exact ih
  | named name body ih => exact congrArg (name :: ·) ih

theorem scopes_wholeBody (tokens : ∀ text, leaf text ∈ tree.subtrees → Leaf.IsToken text) :
    tree.wholeBody.scopes = tree.variableNodes.map (·.2.variableNodes.length) := by
  have all {trees : List Tree} (each : ∀ tree ∈ trees,
        tree.wholeBody.scopes = tree.variableNodes.map (·.2.variableNodes.length)) :
      (wholeBodies trees).flatMap Body.scopes =
        (allVariableNodes trees).map (·.2.variableNodes.length) := by
    rw [wholeBodies_eq, allVariableNodes_eq, List.flatMap_map, List.map_flatMap]
    exact List.flatMap_congr each
  induction tree with
  | choice branches ih =>
    rw [wholeBody, Body.scopes_choice]
    exact all fun branch mem => ih branch mem fun text mem' =>
      tokens text (mem_subtrees_trans mem' (branch_mem_subtrees mem))
  | sequence parts ih =>
    rw [wholeBody, Body.scopes_concat]
    exact all fun part mem => ih part mem fun text mem' =>
      tokens text (mem_subtrees_trans mem' (part_mem_subtrees mem))
  | leaf text => exact Body.scopes_eq_nil (Body.groups_ofLeaf (tokens text (self_mem_subtrees _)))
  | look negated body ih =>
    exact ih fun text mem => tokens text (mem_subtrees_trans mem look_body_mem_subtrees)
  | named name body ih =>
    have inside := ih fun text mem =>
      tokens text (mem_subtrees_trans mem variable_body_mem_subtrees)
    rw [wholeBody, Body.scopes_capture, inside, List.length_map]
    rfl
  | repeated body repetition ih =>
    exact ih fun text mem => tokens text (mem_subtrees_trans mem repeated_body_mem_subtrees)

end LineGrammar.Tree
