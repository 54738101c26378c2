import Mathlib

/-! Computations that may fail, taken apart where they succeed. -/

namespace LineGrammar

variable {ε α β : Type} {outcome : Except ε α}

theorem map_eq_ok {f : α → β} {b : β} :
    outcome.map f = .ok b ↔ ∃ a, outcome = .ok a ∧ f a = b := by
  cases outcome <;> simp [Except.map]

theorem map_eq_error {f : α → β} {error : ε} :
    outcome.map f = .error error ↔ outcome = .error error := by
  cases outcome <;> simp [Except.map]

theorem mapError_eq_error {δ : Type} {f : ε → δ} {error : δ} :
    outcome.mapError f = .error error ↔ ∃ inner, outcome = .error inner ∧ f inner = error := by
  cases outcome <;> simp [Except.mapError]

theorem bind_eq_ok {f : α → Except ε β} {b : β} :
    (outcome >>= f) = .ok b ↔ ∃ a, outcome = .ok a ∧ f a = .ok b := by
  cases outcome <;> simp [bind, Except.bind]

theorem bind_eq_error {f : α → Except ε β} {error : ε} :
    (outcome >>= f) = .error error ↔
      outcome = .error error ∨ ∃ a, outcome = .ok a ∧ f a = .error error := by
  cases outcome <;> simp [bind, Except.bind]

theorem isOk_iff : outcome.isOk = true ↔ ∃ a, outcome = .ok a := by
  cases outcome <;> simp [Except.isOk, Except.toBool]

theorem mapM_eq_ok {f : α → Except ε β} {as : List α} {bs : List β} :
    as.mapM f = .ok bs ↔ List.Forall₂ (fun a b => f a = .ok b) as bs := by
  induction as generalizing bs with
  | nil =>
    rw [List.mapM_nil, List.forall₂_nil_left_iff]
    simp [pure, Except.pure, eq_comm]
  | cons a as ih =>
    rw [List.mapM_cons, bind_eq_ok, List.forall₂_cons_left_iff]
    simp only [bind_eq_ok, ih, pure, Except.pure, Except.ok.injEq]
    constructor
    · rintro ⟨b, first, rest, others, rfl⟩
      exact ⟨b, rest, first, others, rfl⟩
    · rintro ⟨b, rest, first, others, rfl⟩
      exact ⟨b, first, rest, others, rfl⟩

theorem exists_of_mapM_eq_error {f : α → Except ε β} {as : List α} {error : ε}
    (failed : as.mapM f = .error error) : ∃ a ∈ as, f a = .error error := by
  induction as with
  | nil => cases failed
  | cons a rest ih =>
    rw [List.mapM_cons, bind_eq_error] at failed
    rcases failed with first | ⟨b, -, others⟩
    · exact ⟨a, List.mem_cons_self, first⟩
    · rcases bind_eq_error.mp others with others | ⟨bs, -, made⟩
      · obtain ⟨a, mem, failed⟩ := ih others
        exact ⟨a, List.mem_cons_of_mem _ mem, failed⟩
      · cases made

theorem exists_mapM_eq_ok {f : α → Except ε β} {as : List α}
    (each : ∀ a ∈ as, ∃ b, f a = .ok b) : ∃ bs, as.mapM f = .ok bs := by
  induction as with
  | nil => exact ⟨[], rfl⟩
  | cons a rest ih =>
    obtain ⟨b, first⟩ := each a List.mem_cons_self
    obtain ⟨bs, others⟩ := ih fun a mem => each a (List.mem_cons_of_mem _ mem)
    exact ⟨b :: bs, mapM_eq_ok.mpr (.cons first (mapM_eq_ok.mp others))⟩

end LineGrammar
