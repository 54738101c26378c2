import LineGrammar.Registry
import Mathlib

/-! Look-up by name: what is found is an entry, and the order of entries that have different names
does not matter to it. -/

namespace LineGrammar

namespace Registry

variable {α β : Type}

theorem mem_of_find? {registry : Registry α} {name : String} {value : α}
    (found : registry.find? name = some value) : ∃ entry ∈ registry, entry.2 = value := by
  induction registry with
  | nil => simp [find?] at found
  | cons entry rest ih =>
    obtain ⟨key, first⟩ := entry
    rw [find?] at found
    split at found
    · exact ⟨_, List.mem_cons_self, Option.some.inj found⟩
    · obtain ⟨entry, mem, same⟩ := ih found
      exact ⟨entry, List.mem_cons_of_mem _ mem, same⟩

theorem eq_of_search {search : Registry α → β} {name : String} {missing : β} {found : α → β}
    (nil : search [] = missing)
    (cons : ∀ key value rest, search ((key, value) :: rest) =
      if key = name then found value else search rest) (registry : Registry α) :
    search registry = (registry.find? name).elim missing found := by
  induction registry with
  | nil => exact nil
  | cons entry rest ih =>
    obtain ⟨key, value⟩ := entry
    rw [cons, find?]
    split
    · rfl
    · exact ih

theorem find?_map (f : α → β) (registry : Registry α) (name : String) :
    find? (registry.map fun entry => (entry.1, f entry.2)) name = (registry.find? name).map f := by
  induction registry with
  | nil => rfl
  | cons entry rest ih =>
    obtain ⟨key, value⟩ := entry
    by_cases same : key = name
    · simp [find?, same]
    · simpa [find?, same] using ih

theorem find?_eq_head? (registry : Registry α) (name : String) :
    registry.find? name = ((registry.filter (·.1 = name)).head?).map (·.2) := by
  induction registry with
  | nil => rfl
  | cons entry rest ih =>
    obtain ⟨key, value⟩ := entry
    by_cases same : key = name
    · simp [find?, same]
    · simpa [find?, same] using ih

theorem find?_mergeSort (registry : Registry α) (name : String) :
    find? (registry.mergeSort fun a b => decide (a.1 ≤ b.1)) name = registry.find? name := by
  have named : (registry.filter (·.1 = name)).Pairwise fun a b => decide (a.1 ≤ b.1) = true := by
    refine List.pairwise_of_forall_mem_list fun a left b right => ?_
    have left' : a.1 = name := by simpa using (List.mem_filter.mp left).2
    have right' : b.1 = name := by simpa using (List.mem_filter.mp right).2
    simp [left', right']
  have kept := List.sublist_mergeSort (fun a b c => by simpa using String.le_trans)
    (fun a b => by simpa using String.le_total a.1 b.1) named List.filter_sublist
  have filtered := kept.filter (·.1 = name)
  have size := ((List.mergeSort_perm registry fun a b => decide (a.1 ≤ b.1)).filter
    (·.1 = name)).length_eq
  rw [List.filter_filter] at filtered
  have same := filtered.eq_of_length (by simpa using size.symm)
  rw [find?_eq_head?, find?_eq_head?, ← same]
  simp

end Registry

end LineGrammar
