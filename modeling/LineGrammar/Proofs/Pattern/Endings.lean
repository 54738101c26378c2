import LineGrammar.Proofs.Pattern.Frame
import LineGrammar.Proofs.Pattern.Numbering

/-! Groups at the end of a pattern. When a pattern ends with a group, every way through the pattern
closes the group last of all: its latest capture stops where the way ends. -/

namespace LineGrammar.Pattern

variable {input : Array Char}

inductive EndsIn (group : Nat) : Pattern → Prop
  | here (body : Pattern) : EndsIn group (.capture group body)
  | inside {other : Nat} {body : Pattern} (ends : EndsIn group body) (apart : other ≠ group) :
    EndsIn group (.capture other body)
  | second (first : Pattern) {second : Pattern} (ends : EndsIn group second) :
    EndsIn group (.sequence first second)

theorem EndsIn.shift {group : Nat} {pattern : Pattern} (ends : pattern.EndsIn group)
    (count : Nat) : (pattern.shift count).EndsIn (group + count) := by
  induction ends with
  | here body => exact .here _
  | inside ends apart ih => exact .inside ih (by omega)
  | second first ends ih => exact .second _ ih

theorem EndsIn.ofTerms_append {group : Nat} {terms : List Pattern}
    (ends : (ofTerms terms).EndsIn group) (before : List Pattern) :
    (ofTerms (before ++ terms)).EndsIn group := by
  have some : terms ≠ [] := by
    rintro rfl
    cases ends
  induction before with
  | nil => exact ends
  | cons term rest ih =>
    obtain ⟨next, more, eq⟩ :=
      List.exists_cons_of_ne_nil (List.append_ne_nil_of_right_ne_nil rest some)
    have split : ofTerms (term :: (rest ++ terms)) =
        .sequence term (ofTerms (rest ++ terms)) := by
      rw [eq]
      rfl
    rw [List.cons_append, split]
    exact .second term ih

theorem EndsIn.closes {group : Nat} {pattern : Pattern} (ends : pattern.EndsIn group)
    {point reached : Point} (mem : reached ∈ pattern.ways input .forward point) :
    ∃ capture, reached.captures.find? (·.group = group) = some capture ∧
      capture.stop = reached.position := by
  induction ends generalizing point reached with
  | here body =>
    obtain ⟨inner, mem', rfl⟩ := List.mem_map.mp mem
    have spans := (ways_reaches input body .forward point inner.position).mp ⟨inner, mem', rfl⟩
    exact ⟨_, List.find?_cons_of_pos (by simp), Nat.max_eq_right spans.le⟩
  | inside ends apart ih =>
    obtain ⟨inner, mem', rfl⟩ := List.mem_map.mp mem
    obtain ⟨capture, found, stops⟩ := ih mem'
    refine ⟨capture, ?_, stops⟩
    rw [List.find?_cons_of_neg (by simpa using apart)]
    exact found
  | second first ends ih =>
    obtain ⟨middle, -, mem'⟩ := List.mem_flatMap.mp mem
    exact ih mem'

end LineGrammar.Pattern
