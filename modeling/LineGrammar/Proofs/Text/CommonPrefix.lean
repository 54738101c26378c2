import LineGrammar.Text.Bytes
import Mathlib

/-! The longest beginning that two texts have in common. -/

namespace LineGrammar.Text

def commonPrefix : List Char → List Char → List Char
  | c :: text, d :: other => if c = d then c :: commonPrefix text other else []
  | _, _ => []

variable {c : Char} {text other common : List Char}

@[simp] theorem commonPrefix_nil (other : List Char) : commonPrefix [] other = [] := by
  rw [commonPrefix.eq_def]

theorem commonPrefix_cons_same (c : Char) (text other : List Char) :
    commonPrefix (c :: text) (c :: other) = c :: commonPrefix text other := by
  rw [commonPrefix, if_pos rfl]

theorem commonPrefix_prefix_left (text other : List Char) : commonPrefix text other <+: text := by
  fun_induction commonPrefix text other with
  | case1 text c other ih => exact (List.prefix_cons_inj c).mpr ih
  | case2 | case3 => exact List.nil_prefix

theorem commonPrefix_prefix_right (text other : List Char) : commonPrefix text other <+: other := by
  fun_induction commonPrefix text other with
  | case1 text c other ih => exact (List.prefix_cons_inj c).mpr ih
  | case2 | case3 => exact List.nil_prefix

theorem prefix_commonPrefix (h : common <+: text) (h' : common <+: other) :
    common <+: commonPrefix text other := by
  induction common generalizing text other with
  | nil => exact List.nil_prefix
  | cons c rest ih =>
    obtain ⟨more, rfl⟩ := h
    obtain ⟨more', rfl⟩ := h'
    rw [List.cons_append, List.cons_append, commonPrefix_cons_same, List.prefix_cons_inj]
    exact ih (List.prefix_append _ _) (List.prefix_append _ _)

theorem length_commonPrefix_eq_iff :
    (commonPrefix text other).length = other.length ↔ other <+: text := by
  constructor
  · intro whole
    rw [← (commonPrefix_prefix_right text other).eq_of_length whole]
    exact commonPrefix_prefix_left text other
  · intro begins
    have longer := (prefix_commonPrefix begins (List.prefix_refl other)).length_le
    have := (commonPrefix_prefix_right text other).length_le
    omega

theorem length_commonPrefix_drop (text input : List Char) (i : Nat) (c : Char) :
    (commonPrefix (c :: text) (input.drop i)).length =
      if input[i]? = some c then (commonPrefix text (input.drop (i + 1))).length + 1
      else 0 := by
  cases next : input[i]? with
  | none =>
    have nothing : input.drop i = [] :=
      List.drop_eq_nil_of_le (List.getElem?_eq_none_iff.mp next)
    simp [nothing, commonPrefix]
  | some d =>
    obtain ⟨within, rfl⟩ := List.getElem?_eq_some_iff.mp next
    rw [List.drop_eq_getElem_cons within, commonPrefix]
    by_cases same : c = input[i]
    · simp [same]
    · simp [same, Ne.symm same]

end LineGrammar.Text
