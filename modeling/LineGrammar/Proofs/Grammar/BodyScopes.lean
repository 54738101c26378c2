import LineGrammar.Proofs.Grammar.BodyUses
import LineGrammar.Proofs.Pattern.Nesting

/-! How the variables of a body lie in each other. Bodies put together keep their variables as they
lie, so the list that tells how many variables lie in each is put together like the bodies. -/

namespace LineGrammar.Body

open Pattern

def scopes (body : Body) : List Nat := body.pattern.scopes

variable {input : Array Char} {body first second : Body} {bodies : List Body} {i j : Nat}

theorem scopes_append : (first.append second).scopes = first.scopes ++ second.scopes := by
  have later := scopes_shift first.names.length second.pattern
  rw [Body.pattern, shift_ofTerms, scopes_ofTerms] at later
  rw [scopes, scopes, scopes, Body.pattern, Body.append, scopes_ofTerms, List.flatMap_append, later,
    ← scopes_ofTerms]
  rfl

theorem scopes_concat : (concat bodies).scopes = bodies.flatMap scopes := by
  induction bodies with
  | nil => rfl
  | cons body rest ih => rw [concat, scopes_append, ih, List.flatMap_cons]

theorem names_concat : (concat bodies).names = bodies.flatMap names := by
  induction bodies with
  | nil => rfl
  | cons body rest ih =>
    rw [List.flatMap_cons, ← ih]
    rfl

theorem scopes_choice : (choice bodies).scopes = bodies.flatMap scopes := by
  have branched : (branches bodies).flatMap Pattern.scopes = bodies.flatMap scopes := by
    induction bodies with
    | nil => rfl
    | cons body rest ih =>
      simp only [branches, List.flatMap_cons, List.flatMap_map, Pattern.scopes_shift, ih]
      rfl
  exact (scopes_ofBranches _).trans branched

theorem scopes_capture (name : String) :
    (body.capture name).scopes = body.scopes.length :: body.scopes := by
  show (body.pattern.shift 1).scopes.length :: (body.pattern.shift 1).scopes = _
  rw [scopes_shift]
  rfl

theorem scopes_eq_nil (none : body.pattern.groups = []) : body.scopes = [] := by
  rw [← List.length_eq_zero_iff, scopes, length_scopes, none]
  rfl

structure Orderly (body : Body) : Prop where
  numbered : body.Numbered
  quiet : body.pattern.Quiet

theorem hereditary_orderly : Hereditary Orderly where
  empty := ⟨hereditary_numbered.empty, hereditary_quiet.empty⟩
  append hfirst hsecond := ⟨hereditary_numbered.append hfirst.numbered hsecond.numbered,
    hereditary_quiet.append hfirst.quiet hsecond.quiet⟩
  choice each := ⟨hereditary_numbered.choice fun body mem => (each body mem).numbered,
    hereditary_quiet.choice fun body mem => (each body mem).quiet⟩
  capture name _ h := ⟨hereditary_numbered.capture name h.numbered,
    hereditary_quiet.capture name h.quiet⟩
  repeated spells ordered h := ⟨hereditary_numbered.repeated spells ordered h.numbered,
    hereditary_quiet.repeated spells ordered h.quiet⟩

theorem Orderly.look (orderly : body.Orderly) : (body.look .forward true).Orderly :=
  ⟨orderly.numbered.look .forward true, .inl rfl⟩

theorem orderly_of_groups_eq_nil (none : body.pattern.groups = []) (unnamed : body.names = []) :
    body.Orderly := by
  refine ⟨?_, quiet_of_groups_eq_nil none⟩
  rw [Numbered, none, unnamed]
  rfl

theorem Orderly.find?_enclosing (orderly : body.Orderly) {captures : List Capture}
    (mem : ⟨j, captures⟩ ∈ body.pattern.ways input .forward ⟨i, []⟩) {outer inner scope : Nat}
    (within : body.scopes[outer]? = some scope) (behind : outer < inner)
    (inside : inner ≤ outer + scope) {capture : Capture}
    (found : captures.find? (·.group = inner + 1) = some capture) :
    ∃ around, captures.find? (·.group = outer + 1) = some around ∧
      around.start ≤ capture.start ∧ capture.stop ≤ around.stop := by
  have numbered : body.pattern.groups = List.range' 1 body.pattern.groups.length := by
    rw [orderly.numbered, List.length_range']
  have nodup : body.pattern.groups.Nodup := by
    rw [numbered]
    exact List.nodup_range'
  have encloses := encloses_of_scopes numbered within behind inside
  rw [Nat.add_comm 1, Nat.add_comm 1] at encloses
  exact orderly.quiet.find?_enclosing nodup mem found encloses

end LineGrammar.Body
