import LineGrammar.Proofs.Pattern.Frame
import LineGrammar.Proofs.Tree.Exactness

/-! Trees that neither look ahead nor test a place. What such a tree relates is told by the
characters between the two positions alone, wherever in a text they stand. -/

namespace LineGrammar.Tree

open Pattern

variable {input other : Array Char} {tree : Tree} {i j : Nat}

theorem Relates.le (wellFormed : tree.WellFormed) (related : tree.Relates input i j) : i ≤ j :=
  Spans.le ((spans_wholeBody wellFormed).mpr related)

theorem Relates.le_size (wellFormed : tree.WellFormed) (related : tree.Relates input i j)
    (inside : i ≤ input.size) : j ≤ input.size :=
  Spans.le_size ((spans_wholeBody wellFormed).mpr related) inside

theorem RelatesAll.le {parts : List Tree} (wellFormed : ∀ part ∈ parts, part.WellFormed)
    (related : RelatesAll input parts i j) : i ≤ j := by
  induction parts generalizing i with
  | nil => exact Nat.le_of_eq related
  | cons part rest ih =>
    obtain ⟨k, first, later⟩ := related
    have := first.le (wellFormed part List.mem_cons_self)
    have := ih (fun part mem => wellFormed part (List.mem_cons_of_mem _ mem)) later
    omega

theorem WellFormed.stands {text : String} (wellFormed : (leaf text).WellFormed) :
    Leaf.Stands text (Body.ofLeaf text).pattern :=
  Body.stands_ofLeaf (wellFormed.token text (self_mem_subtrees _))
    (wellFormed.notBare text (self_mem_subtrees _))

theorem exists_takes {text : String} (wellFormed : (leaf text).WellFormed)
    (take : (leaf text).LeavesTake) : ∃ accepts, (Body.ofLeaf text).pattern.Takes accepts := by
  have stands := wellFormed.stands
  rwa [Leaf.Stands, if_neg (take text (self_mem_subtrees _))] at stands

/-- Well-formed, and nothing in it looks at characters that it does not take. -/
structure Blind (tree : Tree) : Prop where
  wellFormed : tree.WellFormed
  lookFree : tree.LookFree
  take : tree.LeavesTake

theorem Blind.subtree {inner : Tree} (blind : tree.Blind) (mem : inner ∈ tree.subtrees) :
    inner.Blind :=
  ⟨blind.wellFormed.subtree mem, blind.lookFree.subtree mem, blind.take.subtree mem⟩

def Carries (input other : Array Char) (relation relation' : Nat → Nat → Prop) : Prop :=
  ∀ (i i' length : Nat), (∀ k < length, input[i + k]? = other[i' + k]?) →
    relation i (i + length) → relation' i' (i' + length)

section

variable {first first' second second' : Nat → Nat → Prop}

theorem carries_eq : Carries input other (· = ·) (· = ·) := by
  intro i i' length _ stays
  omega

theorem Carries.comp (hfirst : Carries input other first first')
    (hsecond : Carries input other second second') (le : ∀ i j, first i j → i ≤ j)
    (le' : ∀ i j, second i j → i ≤ j) :
    Carries input other (fun i j => ∃ k, first i k ∧ second k j)
      (fun i j => ∃ k, first' i k ∧ second' k j) := by
  intro i i' length same related
  obtain ⟨k, before, after⟩ := related
  obtain ⟨taken, rfl⟩ := Nat.exists_eq_add_of_le (le _ _ before)
  have reached := le' _ _ after
  obtain ⟨more, rfl⟩ : ∃ more, length = taken + more := ⟨length - taken, by omega⟩
  rw [← Nat.add_assoc] at after ⊢
  refine ⟨i' + taken, hfirst i i' taken (fun k less => same k (by omega)) before,
    hsecond (i + taken) (i' + taken) more (fun k less => ?_) after⟩
  rw [Nat.add_assoc, Nat.add_assoc]
  exact same (taken + k) (by omega)

theorem Carries.steps (hfirst : Carries input other first first')
    (le : ∀ i j, first i j → i ≤ j) (count : Nat) :
    Carries input other (Steps first count) (Steps first' count) := by
  induction count with
  | zero => exact carries_eq
  | succ count ih => exact hfirst.comp ih le fun i j => Steps.le le

end

theorem carries_all {parts : List Tree} (wellFormed : ∀ part ∈ parts, part.WellFormed)
    (each : ∀ part ∈ parts, Carries input other (part.Relates input) (part.Relates other)) :
    Carries input other (RelatesAll input parts) (RelatesAll other parts) := by
  induction parts with
  | nil => exact carries_eq
  | cons part rest ih =>
    have others : ∀ part ∈ rest, part.WellFormed := fun part mem =>
      wellFormed part (List.mem_cons_of_mem _ mem)
    exact (each part List.mem_cons_self).comp
      (ih others fun part mem => each part (List.mem_cons_of_mem _ mem))
      (fun i j => Relates.le (wellFormed part List.mem_cons_self)) fun i j => RelatesAll.le others

theorem Blind.carries (blind : tree.Blind) :
    Carries input other (tree.Relates input) (tree.Relates other) := by
  induction tree with
  | choice branches ih =>
    intro i i' length same related
    rw [Relates, relatesAny_iff] at related ⊢
    obtain ⟨branch, mem, related⟩ := related
    exact ⟨branch, mem, ih branch mem (blind.subtree (branch_mem_subtrees mem)) i i' length
      same related⟩
  | sequence parts ih =>
    have below : ∀ part ∈ parts, part.Blind := fun part mem =>
      blind.subtree (part_mem_subtrees mem)
    exact carries_all (fun part mem => (below part mem).wellFormed)
      fun part mem => ih part mem (below part mem)
  | leaf text =>
    intro i i' length same related
    obtain ⟨accepts, takes⟩ := exists_takes blind.wellFormed blind.take
    rw [Relates, Leaf.relates_iff_spans] at related ⊢
    obtain ⟨c, here, accepted, stop⟩ := (takes input i _).mp related
    obtain rfl : length = 1 := by omega
    exact (takes other i' _).mpr ⟨c, (same 0 (by omega)).symm.trans here, accepted, rfl⟩
  | look negated body ih => exact absurd (self_mem_subtrees _) (blind.lookFree negated body)
  | named name body ih => exact ih (blind.subtree variable_body_mem_subtrees)
  | repeated body repetition ih =>
    have inner := blind.subtree repeated_body_mem_subtrees
    intro i i' length same related
    obtain ⟨count, allowed, steps⟩ := related
    exact ⟨count, allowed, (ih inner).steps (fun i j => Relates.le inner.wellFormed) count
      i i' length same steps⟩

def Portable (body : Body) : Prop :=
  ∀ input other, Carries input other (body.Spans input) (body.Spans other)

theorem hereditary_portable : Body.Hereditary Portable where
  empty _ _ := carries_eq
  append hfirst hsecond input other := by
    have both := (hfirst input other).comp (hsecond input other) (fun _ _ => Spans.le)
      fun _ _ => Spans.le
    intro i i' length same spans
    exact Body.spans_append.mpr (both i i' length same (Body.spans_append.mp spans))
  choice {bodies} each input other := by
    intro i i' length same spans
    cases bodies with
    | nil => exact carries_eq i i' length same spans
    | cons body rest =>
      have some : body :: rest ≠ [] := List.cons_ne_nil body rest
      obtain ⟨found, mem, spans⟩ := (Body.spans_choice some).mp spans
      exact (Body.spans_choice some).mpr
        ⟨found, mem, each found mem input other i i' length same spans⟩
  capture _ _ portable := by
    intro input other i i' length same spans
    exact Body.spans_capture.mpr
      (portable input other i i' length same (Body.spans_capture.mp spans))
  repeated _ _ portable := by
    intro input other
    rintro i i' length same ⟨further, allowed, steps⟩
    exact ⟨further, allowed, (portable input other).steps (fun _ _ => Spans.le) _ i i' length
      same steps⟩

theorem Blind.portable_bodyPart (blind : tree.Blind) : tree.bodyPart.All Portable := by
  have grounds : tree.Grounds Portable := {
    leaf := fun text mem input other i i' length same spans => Leaf.relates_iff_spans.mp
      ((blind.subtree mem).carries i i' length same (Leaf.relates_iff_spans.mpr spans))
    look := fun negated body mem => absurd mem (blind.lookFree negated body)
    bounds := blind.wellFormed.bounds }
  exact grounds.all hereditary_portable

end LineGrammar.Tree
