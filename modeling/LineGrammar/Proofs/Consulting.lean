import LineGrammar.Consulting
import Mathlib

/-! What work that consults components from outside ends in, and the documents that it hands out.
Neither depends on what was handed out before, so the parts of the work are taken one by one. -/

namespace LineGrammar.Consulting

variable {ε δ α β : Type}

/-- The work ends in the result and hands out the documents, whatever was handed out before. -/
def Yields (work : Consulting ε α) (result : Except ε α) (asked : List Document) : Prop :=
  ∀ before, work.run.run before = (result, before ++ asked)

theorem yields_pure (a : α) : (pure a : Consulting ε α).Yields (.ok a) [] := by
  intro before
  rw [List.append_nil]
  rfl

theorem yields_ofExcept (result : Except ε α) : (ofExcept result).Yields result [] := by
  intro before
  rw [List.append_nil]
  rfl

theorem yields_consult (document : Document) (answer : Except ε α) :
    (consult document answer).Yields answer [document] := fun _ => rfl

variable {work : Consulting ε α} {next : α → Consulting ε β} {asked more : List Document}

theorem Yields.outcome {result : Except ε α} (yields : work.Yields result asked) :
    work.outcome = (result, asked) := yields []

theorem Yields.bind {a : α} {result : Except ε β} (first : work.Yields (.ok a) asked)
    (second : (next a).Yields result more) : (work >>= next).Yields result (asked ++ more) := by
  intro before
  rw [ExceptT.run_bind, StateT.run_bind, first before, ← List.append_assoc]
  exact second (before ++ asked)

theorem Yields.bind_error {error : ε} (first : work.Yields (.error error) asked) :
    (work >>= next).Yields (.error error) asked := by
  intro before
  rw [ExceptT.run_bind, StateT.run_bind, first before]
  rfl

theorem Yields.map {result : Except ε α} (f : α → β) (yields : work.Yields result asked) :
    Yields (do
      let a ← work
      return f a) (result.map f) asked := by
  cases result with
  | error error => exact yields.bind_error
  | ok a =>
    rw [← List.append_nil asked]
    exact yields.bind (yields_pure (f a))

theorem Yields.mapError {result : Except ε α} (f : ε → δ) (yields : work.Yields result asked) :
    (Consulting.mapError f work).Yields (result.mapError f) asked := by
  intro before
  exact congrArg (fun ended => (ended.1.mapError f, ended.2)) (yields before)

variable {works : α → Consulting ε β} {handed : α → List Document} {list : List α}

theorem exists_yields_mapM {holds : α → β → Prop}
    (each : ∀ a ∈ list, ∃ b, (works a).Yields (.ok b) (handed a) ∧ holds a b) :
    ∃ found, (list.mapM works).Yields (.ok found) (list.flatMap handed) ∧
      List.Forall₂ holds list found := by
  induction list with
  | nil =>
    rw [List.mapM_nil]
    exact ⟨[], yields_pure [], .nil⟩
  | cons a rest ih =>
    obtain ⟨b, first, holds'⟩ := each a List.mem_cons_self
    obtain ⟨found, others, all⟩ := ih fun a mem => each a (List.mem_cons_of_mem _ mem)
    rw [List.mapM_cons]
    exact ⟨b :: found, first.bind (others.map (b :: ·)), .cons holds' all⟩

theorem yields_mapM {results : α → β}
    (each : ∀ a ∈ list, (works a).Yields (.ok (results a)) (handed a)) :
    (list.mapM works).Yields (.ok (list.map results)) (list.flatMap handed) := by
  have each' : ∀ a ∈ list, ∃ b, (works a).Yields (.ok b) (handed a) ∧ results a = b :=
    fun a mem => ⟨_, each a mem, rfl⟩
  obtain ⟨found, yields, same⟩ := exists_yields_mapM each'
  have listed : List.Forall₂ (· = ·) (list.map results) found :=
    List.forall₂_map_left_iff.mpr same
  rw [List.forall₂_eq_eq_eq] at listed
  rwa [listed]

theorem yields_mapM_error {before : List α} {a : α} {error : ε}
    (each : ∀ a ∈ before, ∃ b, (works a).Yields (.ok b) (handed a))
    (failed : (works a).Yields (.error error) (handed a)) (after : List α) :
    ((before ++ a :: after).mapM works).Yields (.error error)
      ((before ++ [a]).flatMap handed) := by
  have passed : ∀ a ∈ before, ∃ b, (works a).Yields (.ok b) (handed a) ∧ True :=
    fun a mem => (each a mem).imp fun _ yields => ⟨yields, trivial⟩
  obtain ⟨found, earlier, -⟩ := exists_yields_mapM passed
  have stopped : ((a :: after).mapM works).Yields (.error error) (handed a) := by
    rw [List.mapM_cons]
    exact failed.bind_error
  rw [List.mapM_append, List.flatMap_append, List.flatMap_singleton]
  exact earlier.bind stopped.bind_error

end LineGrammar.Consulting
