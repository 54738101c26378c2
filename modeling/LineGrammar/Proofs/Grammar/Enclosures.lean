import LineGrammar.Proofs.Grammar.Body
import LineGrammar.Proofs.Pattern.Groups

/-! What the groups of a body enclose. A group stands for a variable, and what it encloses is what
some text is read as on its own, with its groups numbered from the one around it on. Bodies that are
put together keep that. -/

namespace LineGrammar

namespace Pattern

def enclosures : Pattern → List (Nat × Pattern)
  | .empty => []
  | .one _ => []
  | .boundary _ _ => []
  | .sequence first second => first.enclosures ++ second.enclosures
  | .choice first second => first.enclosures ++ second.enclosures
  | .capture group body => (group, body) :: body.enclosures
  | .repeated body _ => body.enclosures
  | .look _ _ body => body.enclosures

theorem map_fst_enclosures (pattern : Pattern) :
    pattern.enclosures.map Prod.fst = pattern.groups := by
  induction pattern <;> simp_all [enclosures, groups]

theorem enclosures_shift (count : Nat) (pattern : Pattern) :
    (pattern.shift count).enclosures =
      pattern.enclosures.map fun entry => (entry.1 + count, entry.2.shift count) := by
  induction pattern <;> simp_all [enclosures, shift]

theorem enclosures_ofTerms (terms : List Pattern) :
    (ofTerms terms).enclosures = terms.flatMap enclosures := by
  induction terms with
  | nil => rfl
  | cons term rest ih =>
    cases rest with
    | nil => simp [ofTerms]
    | cons next rest => simpa [ofTerms, enclosures] using ih

theorem enclosures_ofBranches (branches : List Pattern) :
    (ofBranches branches).enclosures = branches.flatMap enclosures := by
  induction branches with
  | nil => rfl
  | cons branch rest ih =>
    cases rest with
    | nil => simp [ofBranches]
    | cons next rest => simpa [ofBranches, enclosures] using ih

end Pattern

namespace Body

open Pattern

variable {about : String → List Char → Prop} {body first second : Body} {bodies : List Body}

/-- A group of the variable encloses what a text of that variable is read as on its own. -/
def Fills (about : String → List Char → Prop) (name : String) (entry : Nat × Pattern) : Prop :=
  ∃ inside pattern, about name inside ∧ Pattern.read (String.ofList inside) = .ok pattern ∧
    entry.2 = pattern.shift entry.1

def Encloses (about : String → List Char → Prop) (body : Body) : Prop :=
  List.Forall₂ (Fills about) body.names body.pattern.enclosures

theorem Encloses.imp {told : String → List Char → Prop} (encloses : body.Encloses about)
    (weaken : ∀ name inside, about name inside → told name inside) : body.Encloses told := by
  refine List.Forall₂.imp (fun name entry fills => ?_) encloses
  obtain ⟨inside, pattern, holds, read, same⟩ := fills
  exact ⟨inside, pattern, weaken name inside holds, read, same⟩

theorem fills_shift {names : List String} {entries : List (Nat × Pattern)}
    (each : List.Forall₂ (Fills about) names entries) (count : Nat) :
    List.Forall₂ (Fills about) names
      (entries.map fun entry => (entry.1 + count, entry.2.shift count)) := by
  rw [List.forall₂_map_right_iff]
  refine each.imp fun name entry fills => ?_
  obtain ⟨inside, pattern, told, read, same⟩ := fills
  exact ⟨inside, pattern, told, read, by rw [same, shift_shift]⟩

theorem Encloses.shift (encloses : body.Encloses about) (count : Nat) :
    List.Forall₂ (Fills about) body.names (body.pattern.shift count).enclosures := by
  rw [enclosures_shift]
  exact fills_shift encloses count

theorem encloses_of_groups_eq_nil (none : body.pattern.groups = []) (unnamed : body.names = []) :
    body.Encloses about := by
  have nothing : body.pattern.enclosures = [] := by
    rw [← List.map_eq_nil_iff, map_fst_enclosures, none]
  rw [Encloses, unnamed, nothing]
  exact .nil

theorem enclosures_append : (first.append second).pattern.enclosures =
    first.pattern.enclosures ++ (second.pattern.shift first.names.length).enclosures := by
  simp [Body.pattern, Body.append, shift_ofTerms, enclosures_ofTerms]

theorem Encloses.append (hfirst : first.Encloses about) (hsecond : second.Encloses about) :
    (first.append second).Encloses about := by
  rw [Encloses, enclosures_append]
  exact List.rel_append hfirst (hsecond.shift first.names.length)

theorem Encloses.choice (each : ∀ body ∈ bodies, body.Encloses about) :
    (choice bodies).Encloses about := by
  have branched : List.Forall₂ (Fills about) (bodies.flatMap names)
      ((branches bodies).flatMap enclosures) := by
    induction bodies with
    | nil => exact .nil
    | cons body rest ih =>
      obtain ⟨first, others⟩ := List.forall_mem_cons.mp each
      have later := fills_shift (ih others) body.names.length
      rw [List.map_flatMap] at later
      simp only [branches, List.flatMap_cons, List.flatMap_map, enclosures_shift]
      exact List.rel_append first later
  have gathered := enclosures_ofBranches (branches bodies)
  rw [← gathered] at branched
  exact branched

theorem Encloses.capture {name : String} (encloses : body.Encloses about)
    (told : about name body.source)
    (read : Pattern.read (String.ofList body.source) = .ok body.pattern) :
    (body.capture name).Encloses about :=
  .cons ⟨body.source, body.pattern, told, read, rfl⟩ (encloses.shift 1)

end Body

end LineGrammar
