import LineGrammar.Proofs.Tree.Slices

/-! A text and the same text cut short. What a tree relates before the cut it still relates in the
shorter text: tests see only the characters next to them, and a lookahead that finds nothing in
the longer text finds nothing in the shorter one. -/

namespace LineGrammar.Tree

open Pattern

/-- `part` is the beginning of `full`. -/
structure Cut (part full : Array Char) : Prop where
  size_le : part.size ≤ full.size
  same : ∀ k < part.size, part[k]? = full[k]?

/-- What the bodies of lookaheads must not do: look ahead themselves, test a place, or match the
empty text. -/
structure LooksBlind (root : Tree) : Prop where
  lookFree : ∀ negated body, look negated body ∈ root.subtrees → body.LookFree
  take : ∀ negated body, look negated body ∈ root.subtrees → body.LeavesTake
  notEmpty : ∀ negated body, look negated body ∈ root.subtrees → ¬body.Relates #[] 0 0

/-- A tree whose relation can be followed up to a cut. -/
structure Cuttable (root : Tree) : Prop where
  wellFormed : root.WellFormed
  looks : root.LooksBlind
  negative : root.LooksNegative

variable {part full : Array Char} {tree : Tree} {i j : Nat}

theorem Cuttable.subtree {inner : Tree} (cuttable : tree.Cuttable) (mem : inner ∈ tree.subtrees) :
    inner.Cuttable where
  wellFormed := cuttable.wellFormed.subtree mem
  looks := {
    lookFree := fun negated body h => cuttable.looks.lookFree negated body (mem_subtrees_trans h mem)
    take := fun negated body h => cuttable.looks.take negated body (mem_subtrees_trans h mem)
    notEmpty := fun negated body h =>
      cuttable.looks.notEmpty negated body (mem_subtrees_trans h mem) }
  negative := cuttable.negative.subtree mem

theorem Blind.cuttable (blind : tree.Blind) : tree.Cuttable where
  wellFormed := blind.wellFormed
  looks := {
    lookFree := fun negated body h => absurd h (blind.lookFree negated body)
    take := fun negated body h => absurd h (blind.lookFree negated body)
    notEmpty := fun negated body h => absurd h (blind.lookFree negated body) }
  negative negated body h := absurd h (blind.lookFree negated body)

theorem Cuttable.lookBody {negated : Bool} {body : Tree} (cuttable : (look negated body).Cuttable) :
    body.Blind :=
  ⟨cuttable.wellFormed.subtree look_body_mem_subtrees,
    cuttable.looks.lookFree negated body (self_mem_subtrees _),
    cuttable.looks.take negated body (self_mem_subtrees _)⟩

theorem Blind.extend (blind : tree.Blind) (cut : Cut part full) (related : tree.Relates part i j)
    (inside : i ≤ part.size) : tree.Relates full i j := by
  have stop := related.le_size blind.wellFormed inside
  obtain ⟨length, rfl⟩ := Nat.exists_eq_add_of_le (related.le blind.wellFormed)
  exact blind.carries i i length (fun k less => cut.same (i + k) (by omega)) related

theorem next?_eq_of_cut (cut : Cut part full) (before : i < part.size) (side : Direction) :
    side.next? full i = side.next? part i := by
  cases side with
  | forward => simp only [Direction.next?, cut.same i before]
  | backward =>
    cases i with
    | zero => rfl
    | succ k => simp only [Direction.next?, cut.same k (by omega)]

theorem relates_leaf_of_cut {text : String} (wellFormed : (leaf text).WellFormed)
    (cut : Cut part full) (related : Leaf.Relates full text i j) (inside : j ≤ part.size)
    (settled : j < part.size ∨ (leaf text).LeavesTake) : Leaf.Relates part text i j := by
  have stands := wellFormed.stands
  rw [Leaf.relates_iff_spans] at related ⊢
  unfold Leaf.Stands at stands
  split at stands
  · next narrow =>
    have stays := (stands full full i j (fun _ => rfl) related).1
    have before := settled.resolve_right fun take => take text (self_mem_subtrees _) narrow
    exact (stands full part i j (next?_eq_of_cut cut (by omega)) related).2
  · obtain ⟨accepts, takes⟩ := stands
    obtain ⟨c, here, accepted, rfl⟩ := (takes full i j).mp related
    exact (takes part i _).mpr ⟨c, (cut.same i (by omega)).trans here, accepted, rfl⟩

theorem relates_leaf_of_moves {text : String} (wellFormed : (leaf text).WellFormed)
    (cut : Cut part full) (related : Leaf.Relates full text i j) (moves : i ≠ j)
    (before : i < part.size) : j ≤ part.size ∧ Leaf.Relates part text i j := by
  have stands := wellFormed.stands
  rw [Leaf.relates_iff_spans] at related ⊢
  unfold Leaf.Stands at stands
  split at stands
  · exact absurd (stands full full i j (fun _ => rfl) related).1 moves
  · obtain ⟨accepts, takes⟩ := stands
    obtain ⟨c, here, accepted, rfl⟩ := (takes full i j).mp related
    exact ⟨before, (takes part i _).mpr ⟨c, (cut.same i before).trans here, accepted, rfl⟩⟩

theorem relatesAll_of_each {parts : List Tree} (wellFormed : ∀ tree ∈ parts, tree.WellFormed)
    (each : ∀ tree ∈ parts, ∀ k l, tree.Relates full k l → l ≤ j → tree.Relates part k l)
    (related : RelatesAll full parts i j) : RelatesAll part parts i j := by
  induction parts generalizing i with
  | nil => exact related
  | cons tree rest ih =>
    have others := fun tree mem => wellFormed tree (List.mem_cons_of_mem _ mem)
    obtain ⟨k, first, later⟩ := related
    exact ⟨k, each tree List.mem_cons_self i k first (later.le others),
      ih others (fun tree mem => each tree (List.mem_cons_of_mem _ mem)) later⟩

theorem Cuttable.truncate (cuttable : tree.Cuttable) (cut : Cut part full)
    (related : tree.Relates full i j) (inside : j ≤ part.size)
    (settled : j < part.size ∨ tree.LeavesTake) : tree.Relates part i j := by
  induction tree generalizing i j with
  | choice branches ih =>
    rw [Relates, relatesAny_iff] at related ⊢
    obtain ⟨branch, mem, related⟩ := related
    have below := branch_mem_subtrees mem
    exact ⟨branch, mem, ih branch mem (cuttable.subtree below) related inside
      (settled.imp_right (·.subtree below))⟩
  | sequence parts ih =>
    refine relatesAll_of_each (fun tree mem => cuttable.wellFormed.subtree (part_mem_subtrees mem))
      (fun tree mem k l related le => ?_) related
    have below := part_mem_subtrees mem
    exact ih tree mem (cuttable.subtree below) related (by omega)
      (settled.imp (by omega) (·.subtree below))
  | leaf text => exact relates_leaf_of_cut cuttable.wellFormed cut related inside settled
  | look negated body ih =>
    obtain ⟨rfl, found⟩ := related
    obtain rfl := cuttable.negative negated body (self_mem_subtrees _)
    refine ⟨rfl, fun _ => ?_, fun _ => rfl⟩
    -- What is found before the cut would also be found in the whole text.
    rintro ⟨k, related⟩
    exact found.mp rfl ⟨k, cuttable.lookBody.extend cut related inside⟩
  | named name body ih =>
    exact ih (cuttable.subtree variable_body_mem_subtrees) related inside
      (settled.imp_right (·.subtree variable_body_mem_subtrees))
  | repeated body repetition ih =>
    have inner := cuttable.subtree repeated_body_mem_subtrees
    obtain ⟨count, allowed, steps⟩ := related
    refine ⟨count, allowed, steps.mono_le (fun i j => Relates.le inner.wellFormed) ?_⟩
    intro k l related le
    exact ih inner related (by omega) (settled.imp (by omega) (·.subtree repeated_body_mem_subtrees))

end LineGrammar.Tree
