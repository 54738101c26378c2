import Mathlib

/-! A relation on positions followed several times in a row. Repetitions of patterns and of trees
are both read this way. -/

namespace LineGrammar

/-- `count` steps of the relation, one after another. -/
def Steps (relation : Nat → Nat → Prop) : Nat → Nat → Nat → Prop
  | 0, i, j => i = j
  | count + 1, i, j => ∃ k, relation i k ∧ Steps relation count k j

namespace Steps

variable {relation other : Nat → Nat → Prop} {count i j k : Nat}

theorem add {more : Nat} :
    Steps relation (count + more) i j ↔
      ∃ k, Steps relation count i k ∧ Steps relation more k j := by
  induction count generalizing i with
  | zero => simp [Steps]
  | succ count ih =>
    rw [Nat.add_right_comm]
    simp only [Steps, ih]
    constructor
    · rintro ⟨k, first, l, before, after⟩
      exact ⟨l, ⟨k, first, before⟩, after⟩
    · rintro ⟨l, ⟨k, first, before⟩, after⟩
      exact ⟨k, first, l, before, after⟩

theorem one : Steps relation 1 i j ↔ relation i j := by
  simp [Steps]

theorem trans {more : Nat} (before : Steps relation count i k) (after : Steps relation more k j) :
    Steps relation (count + more) i j :=
  add.mpr ⟨k, before, after⟩

theorem mono (steps : Steps relation count i j)
    (weaker : ∀ i j, relation i j → other i j) : Steps other count i j := by
  induction count generalizing i with
  | zero => exact steps
  | succ count ih =>
    obtain ⟨k, first, rest⟩ := steps
    exact ⟨k, weaker i k first, ih rest⟩

theorem congr (same : ∀ i j, relation i j ↔ other i j) :
    Steps relation count i j ↔ Steps other count i j :=
  ⟨fun steps => steps.mono fun i j => (same i j).mp,
    fun steps => steps.mono fun i j => (same i j).mpr⟩

theorem moving (steps : Steps relation count i j) :
    ∃ fewer, fewer ≤ count ∧ Steps (fun i j => relation i j ∧ i ≠ j) fewer i j := by
  induction count generalizing i with
  | zero => exact ⟨0, Nat.le_refl 0, steps⟩
  | succ count ih =>
    obtain ⟨k, first, rest⟩ := steps
    obtain ⟨fewer, le, moves⟩ := ih rest
    by_cases stays : i = k
    · subst stays
      exact ⟨fewer, by omega, moves⟩
    · exact ⟨fewer + 1, by omega, k, ⟨first, stays⟩, moves⟩

theorem le_measure (measure : Nat → Nat) (lowers : ∀ i j, relation i j → measure j < measure i)
    (steps : Steps relation count i j) : count + measure j ≤ measure i := by
  induction count generalizing i with
  | zero => simp [show i = j from steps]
  | succ count ih =>
    obtain ⟨k, first, rest⟩ := steps
    have := lowers i k first
    have := ih rest
    omega

theorem preserves (holds : Nat → Prop) (keeps : ∀ i j, relation i j → holds i → holds j)
    (steps : Steps relation count i j) (first : holds i) : holds j := by
  induction count generalizing i with
  | zero => exact steps ▸ first
  | succ count ih =>
    obtain ⟨k, step, rest⟩ := steps
    exact ih rest (keeps i k step first)

theorem le (forward : ∀ i j, relation i j → i ≤ j) (steps : Steps relation count i j) : i ≤ j :=
  steps.preserves (i ≤ ·) (fun k l step before => Nat.le_trans before (forward k l step))
    (Nat.le_refl i)

theorem mono_le (forward : ∀ i j, relation i j → i ≤ j) (steps : Steps relation count i j)
    (weaker : ∀ k l, relation k l → l ≤ j → other k l) : Steps other count i j := by
  induction count generalizing i with
  | zero => exact steps
  | succ count ih =>
    obtain ⟨k, first, rest⟩ := steps
    exact ⟨k, weaker i k first (rest.le forward), ih rest⟩

theorem reach {cut : Nat} (steps : Steps relation (count + 1) i j) (lower : i ≤ cut)
    (upper : cut ≤ j) :
    ∃ before ≤ count, ∃ k l, Steps (fun i j => relation i j ∧ j < cut) before i k ∧ k ≤ cut ∧
      relation k l ∧ cut ≤ l := by
  induction count generalizing i with
  | zero => exact ⟨0, Nat.le_refl 0, i, j, rfl, lower, one.mp steps, upper⟩
  | succ count ih =>
    obtain ⟨m, first, rest⟩ := steps
    by_cases reaches : cut ≤ m
    · exact ⟨0, by omega, i, m, rfl, lower, first, reaches⟩
    · obtain ⟨before, le, k, l, earlier, reached, last, upper⟩ := ih rest (by omega)
      exact ⟨before + 1, by omega, k, l, ⟨m, ⟨first, by omega⟩, earlier⟩, reached, last, upper⟩

end Steps

end LineGrammar
