import LineGrammar.Proofs.Tree.Slices

/-! The language of a blind tree as a set of words. A word of a sequence is made of words of its
parts and a word of a repetition of words of its body, so a word that has been begun can be
completed part by part. -/

namespace LineGrammar.Tree

def Accepts (tree : Tree) (word : List Char) : Prop :=
  tree.Relates word.toArray 0 word.length

def AcceptsAll : List Tree → List Char → Prop
  | [], word => word = []
  | tree :: rest, word => ∃ first later, word = first ++ later ∧ tree.Accepts first ∧
    AcceptsAll rest later

def AcceptsTimes (tree : Tree) : Nat → List Char → Prop
  | 0, word => word = []
  | count + 1, word => ∃ first later, word = first ++ later ∧ tree.Accepts first ∧
    AcceptsTimes tree count later

variable {tree : Tree} {input : Array Char} {word : List Char} {i j k : Nat}

def slice (input : Array Char) (i j : Nat) : List Char := (input.toList.take j).drop i

@[simp] theorem slice_self (input : Array Char) (i : Nat) : slice input i i = [] := by
  simp [slice]

theorem Blind.accepts_slice (blind : tree.Blind) (related : tree.Relates input i j)
    (inside : i ≤ input.size) : tree.Accepts (slice input i j) := by
  obtain ⟨length, rfl⟩ := Nat.exists_eq_add_of_le (related.le blind.wellFormed)
  have stop := related.le_size blind.wellFormed inside
  have size : (slice input i (i + length)).length = length := by
    simp [slice]
    omega
  have same (k : Nat) (less : k < length) :
      input[i + k]? = (slice input i (i + length)).toArray[0 + k]? := by
    simp [slice, List.getElem?_drop, List.getElem?_take]
    omega
  have moved := blind.carries i 0 length same related
  rw [Accepts, size]
  simpa using moved

theorem Blind.relates_within (blind : tree.Blind) (accepts : tree.Accepts word)
    (before after : List Char) :
    tree.Relates (before ++ (word ++ after)).toArray before.length
      (before.length + word.length) := by
  have same (k : Nat) (less : k < word.length) :
      word.toArray[0 + k]? = (before ++ (word ++ after)).toArray[before.length + k]? := by
    have behind : (before ++ (word ++ after))[before.length + k]? = (word ++ after)[k]? := by
      rw [List.getElem?_append_right (Nat.le_add_right _ _), Nat.add_sub_cancel_left]
    simp [behind, List.getElem?_append_left less]
  refine blind.carries 0 before.length word.length same ?_
  rwa [Nat.zero_add]

theorem accepts_choice {branches : List Tree} {branch : Tree} (mem : branch ∈ branches)
    (accepts : branch.Accepts word) : (choice branches).Accepts word :=
  relatesAny_iff.mpr ⟨branch, mem, accepts⟩

theorem relatesAll_within {parts : List Tree} (blind : ∀ part ∈ parts, part.Blind)
    (accepts : AcceptsAll parts word) (before : List Char) :
    RelatesAll (before ++ word).toArray parts before.length (before.length + word.length) := by
  induction parts generalizing word before with
  | nil =>
    obtain rfl : word = [] := accepts
    rfl
  | cons part rest ih =>
    obtain ⟨first, later, rfl, accepts, accepts'⟩ := accepts
    have others := ih (fun part mem => blind part (List.mem_cons_of_mem _ mem)) accepts'
      (before ++ first)
    refine ⟨before.length + first.length,
      (blind part List.mem_cons_self).relates_within accepts before later, ?_⟩
    simpa [Nat.add_assoc] using others

theorem accepts_sequence {parts : List Tree} (blind : ∀ part ∈ parts, part.Blind)
    (accepts : AcceptsAll parts word) : (sequence parts).Accepts word := by
  have related := relatesAll_within blind accepts []
  simpa [Accepts, Relates] using related

theorem steps_within {count : Nat} (blind : tree.Blind) (accepts : AcceptsTimes tree count word)
    (before : List Char) :
    Steps (tree.Relates (before ++ word).toArray) count before.length
      (before.length + word.length) := by
  induction count generalizing word before with
  | zero =>
    obtain rfl : word = [] := accepts
    rfl
  | succ count ih =>
    obtain ⟨first, later, rfl, accepts, accepts'⟩ := accepts
    have others := ih accepts' (before ++ first)
    refine ⟨before.length + first.length, blind.relates_within accepts before later, ?_⟩
    simpa [Nat.add_assoc] using others

theorem accepts_repeated {repetition : Repetition} (count : Nat) (blind : tree.Blind)
    (allowed : repetition.Allows count) (accepts : AcceptsTimes tree count word) :
    (Tree.repeated tree repetition).Accepts word := by
  have related := steps_within blind accepts []
  exact ⟨count, allowed, by simpa using related⟩

end LineGrammar.Tree
