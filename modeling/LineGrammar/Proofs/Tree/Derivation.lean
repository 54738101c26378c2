import LineGrammar.Proofs.Tree.Language

/-! Derivations of a text from a tree, with the variables they use. The relation of a tree holds
exactly where there is a derivation; a derivation also says which variable stands where. -/

namespace LineGrammar.Tree

/-- One use of a variable in a derivation. It is `current` when it lies in the last iteration of
every repetition around it. -/
structure Use where
  name : String
  start : Nat
  stop : Nat
  current : Bool
  deriving DecidableEq, Repr

def Use.overtaken (use : Use) : Use := { use with current := false }

/-- `count` iterations in a row; the uses of all but the last are overtaken. -/
def Iterates (derives : Nat → Nat → List Use → Prop) : Nat → Nat → Nat → List Use → Prop
  | 0, i, j, uses => i = j ∧ uses = []
  | count + 1, i, j, uses => ∃ k first later,
    derives i k first ∧ Iterates derives count k j later ∧
      uses = (if count = 0 then first else first.map Use.overtaken) ++ later

mutual

/-- A derivation of the text between `i` and `j` that uses the variables in the list, outer ones
before those inside them. Inside lookaheads nothing is used. -/
def Derives (input : Array Char) : Tree → Nat → Nat → List Use → Prop
  | .choice branches => DerivesAny input branches
  | .sequence parts => DerivesAll input parts
  | .leaf text => fun i j uses => uses = [] ∧ Leaf.Relates input text i j
  | .look negated body => fun i j uses =>
    uses = [] ∧ i = j ∧ (negated = true ↔ ¬∃ k, body.Relates input i k)
  | .variable name body => fun i j uses =>
    ∃ inner, body.Derives input i j inner ∧ uses = ⟨name, i, j, true⟩ :: inner
  | .repeated body repetition => fun i j uses =>
    ∃ count, repetition.Allows count ∧ Iterates (body.Derives input) count i j uses

def DerivesAny (input : Array Char) : List Tree → Nat → Nat → List Use → Prop
  | [] => fun _ _ _ => False
  | tree :: rest => fun i j uses =>
    tree.Derives input i j uses ∨ DerivesAny input rest i j uses

def DerivesAll (input : Array Char) : List Tree → Nat → Nat → List Use → Prop
  | [] => fun i j uses => i = j ∧ uses = []
  | tree :: rest => fun i j uses => ∃ k first later,
    tree.Derives input i k first ∧ DerivesAll input rest k j later ∧ uses = first ++ later

end

variable {input : Array Char} {tree : Tree} {i j : Nat} {uses : List Use} {use : Use}

theorem derivesAny_iff {trees : List Tree} :
    DerivesAny input trees i j uses ↔ ∃ tree ∈ trees, tree.Derives input i j uses := by
  induction trees with
  | nil => simp [DerivesAny]
  | cons tree rest ih => simp [DerivesAny, ih]

section

variable {derives : Nat → Nat → List Use → Prop} {count : Nat}

theorem Iterates.steps (iterates : Iterates derives count i j uses) :
    Steps (fun i j => ∃ uses, derives i j uses) count i j := by
  induction count generalizing i uses with
  | zero => exact iterates.1
  | succ count ih =>
    obtain ⟨k, first, later, iteration, rest, -⟩ := iterates
    exact ⟨k, ⟨first, iteration⟩, ih rest⟩

theorem Iterates.exists_iteration (iterates : Iterates derives count i j uses)
    (mem : use ∈ uses) :
    ∃ before after k l inner, before + 1 + after = count ∧
      Steps (fun i j => ∃ uses, derives i j uses) before i k ∧ derives k l inner ∧
      Steps (fun i j => ∃ uses, derives i j uses) after l j ∧
      ∃ seen ∈ inner, seen.name = use.name ∧ seen.start = use.start ∧ seen.stop = use.stop := by
  induction count generalizing i uses with
  | zero =>
    obtain ⟨-, rfl⟩ := iterates
    simp at mem
  | succ count ih =>
    obtain ⟨k, first, later, iteration, rest, rfl⟩ := iterates
    rcases List.mem_append.mp mem with mem | mem
    · refine ⟨0, count, i, k, first, by omega, rfl, iteration, rest.steps, ?_⟩
      split at mem
      · exact ⟨use, mem, rfl, rfl, rfl⟩
      · obtain ⟨seen, mem', rfl⟩ := List.mem_map.mp mem
        exact ⟨seen, mem', rfl, rfl, rfl⟩
    · obtain ⟨before, after, k', l, inner, total, earlier, derived, others, found⟩ := ih rest mem
      exact ⟨before + 1, after, k', l, inner, by omega, ⟨k, ⟨first, iteration⟩, earlier⟩, derived,
        others, found⟩

end

theorem Derives.relates (derives : tree.Derives input i j uses) : tree.Relates input i j := by
  induction tree generalizing i j uses with
  | choice branches ih =>
    obtain ⟨branch, mem, derives⟩ := derivesAny_iff.mp derives
    exact relatesAny_iff.mpr ⟨branch, mem, ih branch mem derives⟩
  | sequence parts ih =>
    rw [Derives] at derives
    rw [Relates]
    induction parts generalizing i uses with
    | nil => exact derives.1
    | cons part rest ih' =>
      obtain ⟨k, first, later, before, after, -⟩ := derives
      exact ⟨k, ih part List.mem_cons_self before,
        ih' (fun tree mem => ih tree (List.mem_cons_of_mem _ mem)) after⟩
  | leaf text => exact derives.2
  | look negated body ih => exact derives.2
  | named name body ih =>
    obtain ⟨inner, derives, -⟩ := derives
    exact ih derives
  | repeated body repetition ih =>
    obtain ⟨count, allowed, iterates⟩ := derives
    refine ⟨count, allowed, iterates.steps.mono ?_⟩
    rintro i j ⟨uses, derives⟩
    exact ih derives

theorem DerivesAll.relates {parts : List Tree} (derives : DerivesAll input parts i j uses) :
    RelatesAll input parts i j := by
  have sequence : (Tree.sequence parts).Derives input i j uses := derives
  exact sequence.relates

theorem DerivesAll.exists_part {parts : List Tree} (derives : DerivesAll input parts i j uses)
    (mem : use ∈ uses) :
    ∃ before part after k l inner, parts = before ++ part :: after ∧
      RelatesAll input before i k ∧ part.Derives input k l inner ∧ use ∈ inner ∧
      RelatesAll input after l j := by
  induction parts generalizing i uses with
  | nil =>
    obtain ⟨-, rfl⟩ := derives
    simp at mem
  | cons part rest ih =>
    obtain ⟨k, first, later, derived, others, rfl⟩ := derives
    rcases List.mem_append.mp mem with mem | mem
    · exact ⟨[], part, rest, i, k, first, rfl, rfl, derived, mem, others.relates⟩
    · obtain ⟨before, found, after, k', l, inner, rfl, earlier, inside⟩ := ih others mem
      exact ⟨part :: before, found, after, k', l, inner, rfl, ⟨k, derived.relates, earlier⟩, inside⟩

theorem iterates_of_steps {derives : Nat → Nat → List Use → Prop} {count : Nat}
    (steps : Steps (fun i j => ∃ uses, derives i j uses) count i j) :
    ∃ uses, Iterates derives count i j uses := by
  induction count generalizing i with
  | zero => exact ⟨[], steps, rfl⟩
  | succ count ih =>
    obtain ⟨k, ⟨first, iteration⟩, rest⟩ := steps
    obtain ⟨later, iterates⟩ := ih rest
    exact ⟨_, k, first, later, iteration, iterates, rfl⟩

theorem Relates.exists_derivation (related : tree.Relates input i j) :
    ∃ uses, tree.Derives input i j uses := by
  induction tree generalizing i j with
  | choice branches ih =>
    obtain ⟨branch, mem, related⟩ := relatesAny_iff.mp related
    obtain ⟨uses, derives⟩ := ih branch mem related
    exact ⟨uses, derivesAny_iff.mpr ⟨branch, mem, derives⟩⟩
  | sequence parts ih =>
    rw [Relates] at related
    simp only [Derives]
    induction parts generalizing i with
    | nil => exact ⟨[], related, rfl⟩
    | cons part rest ih' =>
      obtain ⟨k, first, later⟩ := related
      obtain ⟨before, derives⟩ := ih part List.mem_cons_self first
      obtain ⟨after, derives'⟩ :=
        ih' (fun tree mem => ih tree (List.mem_cons_of_mem _ mem)) later
      exact ⟨_, k, before, after, derives, derives', rfl⟩
  | leaf text => exact ⟨[], rfl, related⟩
  | look negated body ih => exact ⟨[], rfl, related⟩
  | named name body ih =>
    obtain ⟨inner, derives⟩ := ih related
    exact ⟨_, inner, derives, rfl⟩
  | repeated body repetition ih =>
    obtain ⟨count, allowed, steps⟩ := related
    obtain ⟨uses, iterates⟩ := iterates_of_steps (steps.mono fun i j related => ih related)
    exact ⟨uses, count, allowed, iterates⟩

theorem Derives.hasVariable (derives : tree.Derives input i j uses) (mem : use ∈ uses) :
    tree.hasVariable = true := by
  induction tree generalizing i j uses use with
  | choice branches ih =>
    obtain ⟨branch, among, derives⟩ := derivesAny_iff.mp derives
    rw [Tree.hasVariable, anyVariable_eq, List.any_eq_true]
    exact ⟨branch, among, ih branch among derives mem⟩
  | sequence parts ih =>
    obtain ⟨before, part, after, _, _, inner, rfl, -, derives, mem', -⟩ := derives.exists_part mem
    have among : part ∈ before ++ part :: after :=
      List.mem_append_right _ List.mem_cons_self
    rw [Tree.hasVariable, anyVariable_eq, List.any_eq_true]
    exact ⟨part, among, ih part among derives mem'⟩
  | leaf text =>
    obtain ⟨rfl, -⟩ := derives
    simp at mem
  | look negated body ih =>
    obtain ⟨rfl, -⟩ := derives
    simp at mem
  | named name body ih => rfl
  | repeated body repetition ih =>
    obtain ⟨count, -, iterates⟩ := derives
    obtain ⟨_, _, _, _, inner, -, -, derives, -, seen, mem', -⟩ := iterates.exists_iteration mem
    exact ih derives mem'

end LineGrammar.Tree
