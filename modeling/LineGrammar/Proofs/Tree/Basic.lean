import LineGrammar.Proofs.Expression.LeafToken

/-! Trees node by node: induction over a tree with lists of branches and parts, the trees that
occur in a tree, and what the language of a grammar presupposes of them. -/

namespace LineGrammar

/-- The bounds are in order, and they are counts of 64 bits. -/
structure Repetition.WellFormed (repetition : Repetition) : Prop where
  ordered : ∀ most ∈ repetition.max, repetition.min ≤ most
  min_le : repetition.min ≤ Pattern.largestCount
  max_le : ∀ most ∈ repetition.max, most ≤ Pattern.largestCount

theorem Repetition.max_cases (max : Option Nat) :
    max = none ∨ max = some 0 ∨ max = some 1 ∨ ∃ most, max = some (most + 2) := by
  cases max with
  | none => exact .inl rfl
  | some bound =>
    by_cases small : bound ≤ 1
    · simp only [Option.some.injEq]
      omega
    · exact .inr (.inr (.inr ⟨bound - 2, by rw [Nat.sub_add_cancel (by omega)]⟩))

theorem Repetition.WellFormed.isReversed {repetition : Repetition}
    (wellFormed : repetition.WellFormed) : repetition.isReversed = false := by
  cases eq : repetition.max with
  | none => simp [Repetition.isReversed, eq]
  | some most =>
    have := wellFormed.ordered most eq
    simpa [Repetition.isReversed, eq] using this

namespace Tree

@[elab_as_elim, induction_eliminator]
theorem induct {motive : Tree → Prop}
    (choice : ∀ branches, (∀ branch ∈ branches, motive branch) → motive (.choice branches))
    (sequence : ∀ parts, (∀ part ∈ parts, motive part) → motive (.sequence parts))
    (leaf : ∀ text, motive (.leaf text))
    (look : ∀ negated body, motive body → motive (.look negated body))
    (named : ∀ name body, motive body → motive (.variable name body))
    (repeated : ∀ body repetition, motive body → motive (.repeated body repetition))
    (tree : Tree) : motive tree :=
  match tree with
  | .choice branches =>
    choice branches fun branch _ => induct choice sequence leaf look named repeated branch
  | .sequence parts =>
    sequence parts fun part _ => induct choice sequence leaf look named repeated part
  | .leaf text => leaf text
  | .look negated body =>
    look negated body (induct choice sequence leaf look named repeated body)
  | .variable name body =>
    named name body (induct choice sequence leaf look named repeated body)
  | .repeated body repetition =>
    repeated body repetition (induct choice sequence leaf look named repeated body)

mutual

def subtrees : Tree → List Tree
  | .choice branches => .choice branches :: allSubtrees branches
  | .sequence parts => .sequence parts :: allSubtrees parts
  | .leaf text => [.leaf text]
  | .look negated body => .look negated body :: body.subtrees
  | .variable name body => .variable name body :: body.subtrees
  | .repeated body repetition => .repeated body repetition :: body.subtrees

def allSubtrees : List Tree → List Tree
  | [] => []
  | tree :: rest => tree.subtrees ++ allSubtrees rest

end

theorem mem_allSubtrees {inner : Tree} {trees : List Tree} :
    inner ∈ allSubtrees trees ↔ ∃ tree ∈ trees, inner ∈ tree.subtrees := by
  induction trees with
  | nil => simp [allSubtrees]
  | cons tree rest ih => simp [allSubtrees, ih]

theorem self_mem_subtrees (tree : Tree) : tree ∈ tree.subtrees := by
  cases tree <;> simp [subtrees]

theorem mem_subtrees_trans {innermost inner tree : Tree} (h : innermost ∈ inner.subtrees)
    (h' : inner ∈ tree.subtrees) : innermost ∈ tree.subtrees := by
  induction tree with
  | choice branches ih =>
    rw [subtrees, List.mem_cons, mem_allSubtrees] at h'
    rcases h' with rfl | ⟨branch, mem, below⟩
    · exact h
    · exact List.mem_cons_of_mem _ (mem_allSubtrees.mpr ⟨branch, mem, ih branch mem below⟩)
  | sequence parts ih =>
    rw [subtrees, List.mem_cons, mem_allSubtrees] at h'
    rcases h' with rfl | ⟨part, mem, below⟩
    · exact h
    · exact List.mem_cons_of_mem _ (mem_allSubtrees.mpr ⟨part, mem, ih part mem below⟩)
  | leaf text =>
    rw [subtrees, List.mem_singleton] at h'
    exact h' ▸ h
  | look negated body ih | named name body ih | repeated body repetition ih =>
    rw [subtrees, List.mem_cons] at h'
    rcases h' with rfl | below
    · exact h
    · exact List.mem_cons_of_mem _ (ih below)

section

variable {branch part body : Tree} {branches parts : List Tree} {name : String} {negated : Bool}
  {repetition : Repetition}

theorem branch_mem_subtrees (mem : branch ∈ branches) :
    branch ∈ (choice branches).subtrees :=
  List.mem_cons_of_mem _ (mem_allSubtrees.mpr ⟨branch, mem, branch.self_mem_subtrees⟩)

theorem part_mem_subtrees (mem : part ∈ parts) : part ∈ (sequence parts).subtrees :=
  List.mem_cons_of_mem _ (mem_allSubtrees.mpr ⟨part, mem, part.self_mem_subtrees⟩)

theorem look_body_mem_subtrees : body ∈ (look negated body).subtrees :=
  List.mem_cons_of_mem _ body.self_mem_subtrees

theorem variable_body_mem_subtrees : body ∈ (Tree.variable name body).subtrees :=
  List.mem_cons_of_mem _ body.self_mem_subtrees

theorem repeated_body_mem_subtrees : body ∈ (repeated body repetition).subtrees :=
  List.mem_cons_of_mem _ body.self_mem_subtrees

end

/-- What the language of a grammar presupposes of its tree: leaves that are tokens, choices that
have branches, and repetitions with possible bounds. -/
structure WellFormed (root : Tree) : Prop where
  token : ∀ text, leaf text ∈ root.subtrees → Leaf.IsToken text
  notBare : ∀ text, leaf text ∈ root.subtrees → ¬Leaf.IsBareEscape text
  branches : choice [] ∉ root.subtrees
  bounds : ∀ body repetition, repeated body repetition ∈ root.subtrees → repetition.WellFormed

theorem WellFormed.subtree {root inner : Tree} (wellFormed : root.WellFormed)
    (mem : inner ∈ root.subtrees) : inner.WellFormed where
  token text h := wellFormed.token text (mem_subtrees_trans h mem)
  notBare text h := wellFormed.notBare text (mem_subtrees_trans h mem)
  branches h := wellFormed.branches (mem_subtrees_trans h mem)
  bounds body repetition h := wellFormed.bounds body repetition (mem_subtrees_trans h mem)

def LookFree (root : Tree) : Prop := ∀ negated body, look negated body ∉ root.subtrees

def LeavesTake (root : Tree) : Prop :=
  ∀ text, leaf text ∈ root.subtrees → text ∉ Leaf.zeroWidth

def LooksNegative (root : Tree) : Prop :=
  ∀ negated body, look negated body ∈ root.subtrees → negated = true

theorem LookFree.subtree {root inner : Tree} (free : root.LookFree)
    (mem : inner ∈ root.subtrees) : inner.LookFree := fun negated body h =>
  free negated body (mem_subtrees_trans h mem)

theorem LeavesTake.subtree {root inner : Tree} (take : root.LeavesTake)
    (mem : inner ∈ root.subtrees) : inner.LeavesTake := fun text h =>
  take text (mem_subtrees_trans h mem)

theorem LooksNegative.subtree {root inner : Tree} (negative : root.LooksNegative)
    (mem : inner ∈ root.subtrees) : inner.LooksNegative := fun negated body h =>
  negative negated body (mem_subtrees_trans h mem)

theorem anyVariable_eq (trees : List Tree) : anyVariable trees = trees.any hasVariable := by
  induction trees with
  | nil => rfl
  | cons tree rest ih => rw [anyVariable, List.any_cons, ih]

end Tree

end LineGrammar
