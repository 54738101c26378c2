import LineGrammar.Proofs.Grammar.BodyUses
import LineGrammar.Proofs.Tree.Slices

/-! The variables that a way through the body of a whole tree shows. They are the current uses of
a derivation: a repetition shows its last iteration alone, and a lookahead shows nothing. Any two
uses of one derivation lie apart, or one of them lies in the other. -/

namespace LineGrammar

/-- The stretches from `i` to `j` and from `k` to `l` lie apart, or one of them lies in the
other. -/
def Laminar (i j k l : Nat) : Prop := j ≤ k ∨ l ≤ i ∨ (i ≤ k ∧ l ≤ j) ∨ (k ≤ i ∧ j ≤ l)

theorem Laminar.map {i j k l : Nat} (laminar : Laminar i j k l) {offset : Nat → Nat}
    (monotone : Monotone offset) : Laminar (offset i) (offset j) (offset k) (offset l) :=
  laminar.imp (monotone ·) (.imp (monotone ·) (.imp (.imp (monotone ·) (monotone ·))
    (.imp (monotone ·) (monotone ·))))

namespace Tree

variable {input : Array Char} {tree : Tree} {i j k : Nat} {uses first later : List Use}

theorem WellFormed.grounds_numbered (wellFormed : tree.WellFormed) :
    tree.Grounds Body.Numbered where
  leaf text mem := by
    rw [Body.Numbered, Body.groups_ofLeaf (wellFormed.token text mem), Body.names_ofLeaf]
    rfl
  look negated _ _ numbered := numbered.look .forward negated
  bounds := wellFormed.bounds

theorem numbered_bodyPart (wellFormed : tree.WellFormed) : tree.bodyPart.All Body.Numbered :=
  wellFormed.grounds_numbered.all Body.hereditary_numbered

theorem numbered_wholeBodies {parts : List Tree} (wellFormed : ∀ part ∈ parts, part.WellFormed) :
    ∀ body ∈ wholeBodies parts, body.Numbered := by
  rw [wholeBodies_eq, List.forall_mem_map]
  exact fun part mem => (numbered_bodyPart (wellFormed part mem)).whole

theorem quiet_bodyPart (wellFormed : tree.WellFormed) (negative : tree.LooksNegative) :
    tree.bodyPart.All fun body => body.pattern.Quiet := by
  have grounds : tree.Grounds fun body => body.pattern.Quiet := {
    leaf := fun text mem => Pattern.quiet_of_groups_eq_nil
      (Body.groups_ofLeaf (wellFormed.token text mem))
    look := fun negated body mem _ => .inl (negative negated body mem)
    bounds := wellFormed.bounds }
  exact grounds.all Body.hereditary_quiet

theorem filter_overtaken (uses : List Use) : (uses.map Use.overtaken).filter (·.current) = [] := by
  simp [Use.overtaken]

theorem exists_iterates {derives : Nat → Nat → List Use → Prop} {before : Nat}
    (steps : Steps (fun i j => ∃ uses, derives i j uses) before i k)
    (last : derives k j later) :
    ∃ uses, Iterates derives (before + 1) i j uses ∧
      uses.filter (·.current) = later.filter (·.current) := by
  induction before generalizing i with
  | zero =>
    obtain rfl : i = k := steps
    exact ⟨later ++ [], ⟨j, later, [], last, ⟨rfl, rfl⟩, rfl⟩, by rw [List.append_nil]⟩
  | succ before ih =>
    obtain ⟨l, ⟨first, iteration⟩, rest⟩ := steps
    obtain ⟨others, iterates, same⟩ := ih rest
    refine ⟨first.map Use.overtaken ++ others, ⟨l, first, others, iteration, iterates, rfl⟩, ?_⟩
    rw [List.filter_append, filter_overtaken, List.nil_append, same]

theorem exists_derivesAll {parts : List Tree} (wellFormed : ∀ part ∈ parts, part.WellFormed)
    (each : ∀ part ∈ parts, ∀ i j uses, part.wholeBody.Shows input i j uses →
      ∃ all, part.Derives input i j all ∧ uses = all.filter (·.current))
    (shows : (Body.concat (wholeBodies parts)).Shows input i j uses) :
    ∃ all, DerivesAll input parts i j all ∧ uses = all.filter (·.current) := by
  induction parts generalizing i uses with
  | nil =>
    obtain ⟨rfl, rfl⟩ := Body.shows_empty shows
    exact ⟨[], ⟨rfl, rfl⟩, rfl⟩
  | cons part rest ih =>
    have others : ∀ tree ∈ rest, tree.WellFormed := fun tree mem =>
      wellFormed tree (List.mem_cons_of_mem _ mem)
    have first := (numbered_bodyPart (wellFormed part List.mem_cons_self)).whole
    obtain ⟨k, before, after, here, behind, rfl⟩ :=
      first.shows_concat_cons (numbered_wholeBodies others) shows
    obtain ⟨earlier, derives, rfl⟩ := each part List.mem_cons_self i k before here
    obtain ⟨later, derives', rfl⟩ :=
      ih others (fun tree mem => each tree (List.mem_cons_of_mem _ mem)) behind
    exact ⟨earlier ++ later, ⟨k, earlier, later, derives, derives', rfl⟩,
      (List.filter_append ..).symm⟩

theorem exists_iterates_of_shows (wellFormed : tree.WellFormed)
    (each : ∀ i j uses, tree.wholeBody.Shows input i j uses →
      ∃ all, tree.Derives input i j all ∧ uses = all.filter (·.current))
    {sign : List Char} {repetition : Repetition}
    (shows : (tree.wholeBody.repeated sign repetition).Shows input i j uses) :
    ∃ further, repetition.AllowsFurther further ∧
      ∃ all, Iterates (tree.Derives input) (repetition.min + further) i j all ∧
        uses = all.filter (·.current) := by
  rcases Body.shows_repeated shows with
    ⟨none, rfl, rfl⟩ | ⟨further, before, k, allowed, total, steps, last⟩
  · refine ⟨0, fun _ _ => Nat.zero_le _, [], ?_, rfl⟩
    rw [none]
    exact ⟨rfl, rfl⟩
  · obtain ⟨final, derives, rfl⟩ := each k j uses last
    have earlier := steps.mono fun k l spans =>
      ((spans_wholeBody wellFormed).mp spans).exists_derivation
    obtain ⟨all, iterates, same⟩ := exists_iterates earlier derives
    exact ⟨further, allowed, all, total ▸ iterates, same.symm⟩

theorem exists_derivation_of_shows (wellFormed : tree.WellFormed) (negative : tree.LooksNegative)
    (shows : tree.wholeBody.Shows input i j uses) :
    ∃ all, tree.Derives input i j all ∧ uses = all.filter (·.current) := by
  induction tree generalizing i j uses with
  | choice branches ih =>
    have below : ∀ branch ∈ branches, branch.WellFormed := fun branch mem =>
      wellFormed.subtree (branch_mem_subtrees mem)
    have some : wholeBodies branches ≠ [] := by
      rw [wholeBodies_eq, ne_eq, List.map_eq_nil_iff]
      rintro rfl
      exact wellFormed.branches (self_mem_subtrees _)
    obtain ⟨body, mem, shows⟩ := Body.Numbered.shows_choice (numbered_wholeBodies below) some shows
    rw [wholeBodies_eq, List.mem_map] at mem
    obtain ⟨branch, mem, rfl⟩ := mem
    obtain ⟨all, derives, same⟩ :=
      ih branch mem (below branch mem) (negative.subtree (branch_mem_subtrees mem)) shows
    exact ⟨all, derivesAny_iff.mpr ⟨branch, mem, derives⟩, same⟩
  | sequence parts ih =>
    exact exists_derivesAll (fun part mem => wellFormed.subtree (part_mem_subtrees mem))
      (fun part mem i j uses shows => ih part mem (wellFormed.subtree (part_mem_subtrees mem))
        (negative.subtree (part_mem_subtrees mem)) shows) shows
  | leaf text =>
    obtain rfl := Body.shows_no_names (Body.names_ofLeaf text) shows
    exact ⟨[], ⟨rfl, Leaf.relates_iff_spans.mpr shows.spans⟩, rfl⟩
  | look negated body ih =>
    obtain rfl := negative negated body (self_mem_subtrees _)
    obtain rfl := Body.shows_look shows
    exact ⟨[], ⟨rfl, (spans_wholeBody wellFormed).mp shows.spans⟩, rfl⟩
  | named name body ih =>
    obtain ⟨inner, inside, rfl⟩ := Body.shows_capture shows
    obtain ⟨all, derives, rfl⟩ := ih (wellFormed.subtree variable_body_mem_subtrees)
      (negative.subtree variable_body_mem_subtrees) inside
    exact ⟨⟨name, i, j, true⟩ :: all, ⟨all, derives, rfl⟩, rfl⟩
  | repeated body repetition ih =>
    have bounds := wellFormed.bounds body repetition (self_mem_subtrees _)
    have inner := wellFormed.subtree repeated_body_mem_subtrees
    obtain ⟨further, allowed, all, iterates, same⟩ := exists_iterates_of_shows inner
      (fun i j uses shows => ih inner (negative.subtree repeated_body_mem_subtrees) shows) shows
    exact ⟨all, ⟨_, (Repetition.allows_iff bounds.isReversed).mpr ⟨further, allowed, rfl⟩,
      iterates⟩, same⟩

structure Nested (i j : Nat) (uses : List Use) : Prop where
  le : i ≤ j
  within : ∀ use ∈ uses, i ≤ use.start ∧ use.stop ≤ j
  laminar : ∀ use ∈ uses, ∀ other ∈ uses, Laminar use.start use.stop other.start other.stop

theorem nested_nil (le : i ≤ j) : Nested i j [] := ⟨le, by simp, by simp⟩

theorem Nested.append (before : Nested i k first) (after : Nested k j later) :
    Nested i j (first ++ later) where
  le := Nat.le_trans before.le after.le
  within use mem := by
    have le := before.le
    have le' := after.le
    rcases List.mem_append.mp mem with mem | mem
    · have := before.within use mem
      omega
    · have := after.within use mem
      omega
  laminar use mem other mem' := by
    rcases List.mem_append.mp mem with mem | mem <;>
      rcases List.mem_append.mp mem' with mem' | mem'
    · exact before.laminar use mem other mem'
    · exact .inl (Nat.le_trans (before.within use mem).2 (after.within other mem').1)
    · exact .inr (.inl (Nat.le_trans (before.within other mem').2 (after.within use mem).1))
    · exact after.laminar use mem other mem'

theorem Nested.overtaken (nested : Nested i j uses) : Nested i j (uses.map Use.overtaken) where
  le := nested.le
  within := by
    rw [List.forall_mem_map]
    exact nested.within
  laminar := by
    simp only [List.forall_mem_map]
    exact nested.laminar

theorem Nested.named (nested : Nested i j uses) (name : String) :
    Nested i j (⟨name, i, j, true⟩ :: uses) where
  le := nested.le
  within := List.forall_mem_cons.mpr ⟨⟨Nat.le_refl i, Nat.le_refl j⟩, nested.within⟩
  laminar use mem other mem' := by
    rcases List.mem_cons.mp mem with rfl | mem <;> rcases List.mem_cons.mp mem' with rfl | mem'
    · exact .inr (.inr (.inl ⟨Nat.le_refl i, Nat.le_refl j⟩))
    · exact .inr (.inr (.inl (nested.within other mem')))
    · exact .inr (.inr (.inr (nested.within use mem)))
    · exact nested.laminar use mem other mem'

theorem nested_all {parts : List Tree}
    (each : ∀ part ∈ parts, ∀ i j uses, part.Derives input i j uses → Nested i j uses)
    (derives : DerivesAll input parts i j uses) : Nested i j uses := by
  induction parts generalizing i uses with
  | nil =>
    obtain ⟨rfl, rfl⟩ := derives
    exact nested_nil (Nat.le_refl i)
  | cons part rest ih =>
    obtain ⟨k, first, later, here, behind, rfl⟩ := derives
    exact (each part List.mem_cons_self i k first here).append
      (ih (fun tree mem => each tree (List.mem_cons_of_mem _ mem)) behind)

theorem Iterates.nested {derives : Nat → Nat → List Use → Prop} {count : Nat}
    (each : ∀ i j uses, derives i j uses → Nested i j uses)
    (iterates : Iterates derives count i j uses) : Nested i j uses := by
  induction count generalizing i uses with
  | zero =>
    obtain ⟨rfl, rfl⟩ := iterates
    exact nested_nil (Nat.le_refl i)
  | succ count ih =>
    obtain ⟨k, first, later, here, behind, rfl⟩ := iterates
    refine Nested.append ?_ (ih behind)
    split
    · exact each i k first here
    · exact (each i k first here).overtaken

theorem Derives.nested (wellFormed : tree.WellFormed) (derives : tree.Derives input i j uses) :
    Nested i j uses := by
  induction tree generalizing i j uses with
  | choice branches ih =>
    obtain ⟨branch, among, derives⟩ := derivesAny_iff.mp derives
    exact ih branch among (wellFormed.subtree (branch_mem_subtrees among)) derives
  | sequence parts ih =>
    exact nested_all (fun part mem i j uses derives =>
      ih part mem (wellFormed.subtree (part_mem_subtrees mem)) derives) derives
  | leaf text =>
    obtain ⟨rfl, related⟩ := derives
    have whole : (leaf text).Relates input i j := related
    exact nested_nil (whole.le wellFormed)
  | look negated body ih =>
    obtain ⟨rfl, rfl, -⟩ := derives
    exact nested_nil (Nat.le_refl i)
  | named name body ih =>
    obtain ⟨inner, derives, rfl⟩ := derives
    exact (ih (wellFormed.subtree variable_body_mem_subtrees) derives).named name
  | repeated body repetition ih =>
    obtain ⟨count, -, iterates⟩ := derives
    exact iterates.nested fun i j uses derives =>
      ih (wellFormed.subtree repeated_body_mem_subtrees) derives

theorem Derives.within (wellFormed : tree.WellFormed) (derives : tree.Derives input i j uses)
    {use : Use} (mem : use ∈ uses) : i ≤ use.start ∧ use.stop ≤ j :=
  (derives.nested wellFormed).within use mem

end Tree

end LineGrammar
