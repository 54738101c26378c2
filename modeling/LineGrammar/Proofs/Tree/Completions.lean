import LineGrammar.Proofs.Tree.Beginnings
import LineGrammar.Proofs.Tree.Uses
import LineGrammar.Proofs.Tree.Words

/-! Every beginning can be completed. What a beginning body of a blind tree takes is the start of a
sentence: complete parts stay as they are, the part that was cut off is completed, and the parts
and iterations still missing are added. The derivation of the sentence uses every variable that the
beginning shows, where it shows it; a variable that was cut off may go on behind the cut. -/

namespace LineGrammar

namespace BodyPart

variable {input : Array Char} {parts : List BodyPart} {body : Body} {i j : Nat}
  {uses : List Tree.Use}

def Partly (input : Array Char) : List BodyPart → Nat → Nat → List Tree.Use → Prop
  | [], i, j, uses => i = j ∧ uses = []
  | part :: rest, i, j, uses =>
    (∃ body ∈ part.beginnings, body.Shows input i j uses) ∨
      ∃ k before after, part.whole.Shows input i k before ∧ Partly input rest k j after ∧
        uses = before ++ after

theorem partly_of_stopsInVariable (numbered : ∀ part ∈ parts, part.All Body.Numbered)
    {head : Body} (before : head.Numbered) {h : Nat} (mem : body ∈ stopsInVariable head parts)
    (shows : body.Shows input h j uses) :
    ∃ i first later, head.Shows input h i first ∧ Partly input parts i j later ∧
      uses = first ++ later := by
  induction parts generalizing head uses with
  | nil => simp [stopsInVariable] at mem
  | cons part rest ih =>
    have here := numbered part List.mem_cons_self
    rw [stopsInVariable, List.mem_append] at mem
    rcases mem with mem | mem
    · split at mem
      · obtain ⟨last, mem', rfl⟩ := List.mem_map.mp mem
        obtain ⟨i, first, later, earlier, behind, rfl⟩ :=
          before.shows_append (here.beginnings last mem') shows
        exact ⟨i, first, later, earlier, .inl ⟨last, mem', behind⟩, rfl⟩
      · simp at mem
    · obtain ⟨k, both, later, earlier, behind, rfl⟩ :=
        ih (fun part mem => numbered part (List.mem_cons_of_mem _ mem)) (before.append here.whole)
          mem shows
      obtain ⟨i, first, middle, start, whole, rfl⟩ := before.shows_append here.whole earlier
      exact ⟨i, first, middle ++ later, start, .inr ⟨k, middle, later, whole, behind, rfl⟩,
        List.append_assoc ..⟩

theorem shows_merged {bodies : List Body} (some : bodies ≠ [])
    (numbered : ∀ body ∈ bodies, body.Numbered) (shows : (merged bodies).Shows input i j uses) :
    ∃ body ∈ bodies, body.Shows input i j uses := by
  unfold merged at shows
  split at shows
  · exact ⟨_, List.mem_cons_self, shows⟩
  · exact Body.Numbered.shows_choice numbered some shows

theorem partly_of_stopsOutside (some : ∀ part ∈ parts, part.beginnings ≠ [])
    (numbered : ∀ part ∈ parts, part.All Body.Numbered)
    (shows : (stopsOutside parts).Shows input i j uses) : Partly input parts i j uses := by
  induction parts generalizing i uses with
  | nil => exact Body.shows_empty shows
  | cons part rest ih =>
    have here := numbered part List.mem_cons_self
    have others : ∀ part ∈ rest, part.All Body.Numbered := fun part mem =>
      numbered part (List.mem_cons_of_mem _ mem)
    have cutOff : ∀ body ∈ [merged part.beginnings], body.Numbered := by
      simpa using all_merged Body.hereditary_numbered.toJoins here.beginnings
    have rest' := all_stopsOutside Body.hereditary_numbered.toJoins others
    have each : ∀ body ∈ part.whole.append (stopsOutside rest) ::
        (if part.hasVariable then [] else [.choice [merged part.beginnings]]), body.Numbered := by
      refine List.forall_mem_cons.mpr ⟨here.whole.append rest', ?_⟩
      split
      · simp
      · simpa using Body.numbered_choice cutOff
    obtain ⟨body, mem, shows⟩ := Body.Numbered.shows_choice each (List.cons_ne_nil _ _) shows
    rcases List.mem_cons.mp mem with rfl | mem
    · obtain ⟨k, before, after, whole, later, rfl⟩ := here.whole.shows_append rest' shows
      exact .inr ⟨k, before, after, whole,
        ih (fun part mem => some part (List.mem_cons_of_mem _ mem)) others later, rfl⟩
    · split at mem
      · simp at mem
      · obtain rfl := List.mem_singleton.mp mem
        obtain ⟨_, mem', shows⟩ := Body.Numbered.shows_choice cutOff (List.cons_ne_nil _ _) shows
        obtain rfl := List.mem_singleton.mp mem'
        exact .inl (shows_merged (some part List.mem_cons_self) here.beginnings shows)

theorem partly_of_sequenceBeginnings (some : ∀ part ∈ parts, part.beginnings ≠ [])
    (numbered : ∀ part ∈ parts, part.All Body.Numbered) (mem : body ∈ sequenceBeginnings parts)
    (shows : body.Shows input i j uses) : Partly input parts i j uses := by
  unfold sequenceBeginnings at mem
  split at mem
  · next none =>
    obtain rfl : parts = [] := by simpa using none
    obtain rfl := List.mem_singleton.mp mem
    exact Body.shows_empty shows
  · rcases List.mem_append.mp mem with mem | mem
    · obtain ⟨k, first, later, stays, behind, rfl⟩ :=
        partly_of_stopsInVariable numbered Body.numbered_empty mem shows
      obtain ⟨rfl, rfl⟩ := Body.shows_empty stays
      exact behind
    · split at mem
      · obtain rfl := List.mem_singleton.mp mem
        exact partly_of_stopsOutside some numbered shows
      · simp at mem

theorem exists_of_choiceBeginnings (numbered : ∀ part ∈ parts, part.All Body.Numbered)
    (mem : body ∈ choiceBeginnings parts) (shows : body.Shows input i j uses) :
    ∃ part ∈ parts, ∃ body ∈ part.beginnings, body.Shows input i j uses := by
  unfold choiceBeginnings at mem
  rcases List.mem_append.mp mem with mem | mem
  · obtain ⟨part, mem', inside⟩ := List.mem_flatMap.mp mem
    split at inside
    · exact ⟨part, mem', body, inside, shows⟩
    · simp at inside
  · split at mem
    · simp at mem
    · next some =>
      obtain rfl := List.mem_singleton.mp mem
      have each : ∀ body ∈ parts.flatMap (fun branch =>
          if branch.hasVariable then [] else branch.beginnings), body.Numbered := by
        intro body mem
        obtain ⟨part, mem', inside⟩ := List.mem_flatMap.mp mem
        split at inside
        · simp at inside
        · exact (numbered part mem').beginnings body inside
      obtain ⟨inner, mem', shows⟩ :=
        Body.Numbered.shows_choice each (by simpa using some) shows
      obtain ⟨part, mem'', inside⟩ := List.mem_flatMap.mp mem'
      split at inside
      · simp at inside
      · exact ⟨part, mem'', inner, inside, shows⟩

theorem partly_le (partly : Partly input parts i j uses) : i ≤ j := by
  induction parts generalizing i uses with
  | nil => exact Nat.le_of_eq partly.1
  | cons part rest ih =>
    rcases partly with ⟨body, -, shows⟩ | ⟨k, _, _, whole, later, -⟩
    · exact Pattern.Spans.le shows.spans
    · exact Nat.le_trans (Pattern.Spans.le whole.spans) (ih later)

theorem partly_le_size (partly : Partly input parts i j uses) (inside : i ≤ input.size) :
    j ≤ input.size := by
  induction parts generalizing i uses with
  | nil => exact partly.1 ▸ inside
  | cons part rest ih =>
    rcases partly with ⟨body, -, shows⟩ | ⟨k, _, _, whole, later, -⟩
    · exact Pattern.Spans.le_size shows.spans inside
    · exact ih later (Pattern.Spans.le_size whole.spans inside)

end BodyPart

namespace Tree

variable {tree : Tree} {repetition : Repetition} {input other : Array Char} {i j k : Nat}
  {first later seen uses : List Use}

theorem numbered_bodyParts {parts : List Tree} (wellFormed : ∀ part ∈ parts, part.WellFormed) :
    ∀ part ∈ bodyParts parts, part.All Body.Numbered := by
  rw [bodyParts_eq, List.forall_mem_map]
  exact fun part mem => numbered_bodyPart (wellFormed part mem)

/-- A blind tree whose leaves all take some character. -/
structure Completable (root : Tree) : Prop where
  blind : root.Blind
  taken : ∀ text, leaf text ∈ root.subtrees → ∃ c, Leaf.Relates #[c] text 0 1

theorem Completable.subtree {inner : Tree} (completable : tree.Completable)
    (mem : inner ∈ tree.subtrees) : inner.Completable :=
  ⟨completable.blind.subtree mem, fun text h => completable.taken text (mem_subtrees_trans h mem)⟩

theorem acceptsTimes_exists (some : ∃ word, tree.Accepts word) (count : Nat) :
    ∃ word, AcceptsTimes tree count word := by
  induction count with
  | zero => exact ⟨[], rfl⟩
  | succ count ih =>
    obtain ⟨first, accepts⟩ := some
    obtain ⟨later, accepts'⟩ := ih
    exact ⟨first ++ later, first, later, rfl, accepts, accepts'⟩

theorem acceptsAll_exists {parts : List Tree} (some : ∀ part ∈ parts, ∃ word, part.Accepts word) :
    ∃ word, AcceptsAll parts word := by
  induction parts with
  | nil => exact ⟨[], rfl⟩
  | cons part rest ih =>
    obtain ⟨first, accepts⟩ := some part List.mem_cons_self
    obtain ⟨later, accepts'⟩ := ih fun part mem => some part (List.mem_cons_of_mem _ mem)
    exact ⟨first ++ later, first, later, rfl, accepts, accepts'⟩

theorem Completable.exists_sentence (completable : tree.Completable) :
    ∃ word, tree.Accepts word := by
  induction tree with
  | choice branches ih =>
    cases branches with
    | nil => exact absurd (self_mem_subtrees _) completable.blind.wellFormed.branches
    | cons branch rest =>
      obtain ⟨word, accepts⟩ := ih branch List.mem_cons_self
        (completable.subtree (branch_mem_subtrees List.mem_cons_self))
      exact ⟨word, accepts_choice List.mem_cons_self accepts⟩
  | sequence parts ih =>
    have below : ∀ part ∈ parts, part.Completable := fun part mem =>
      completable.subtree (part_mem_subtrees mem)
    obtain ⟨word, accepts⟩ := acceptsAll_exists fun part mem => ih part mem (below part mem)
    exact ⟨word, accepts_sequence (fun part mem => (below part mem).blind) accepts⟩
  | leaf text =>
    obtain ⟨c, taken⟩ := completable.taken text (self_mem_subtrees _)
    exact ⟨[c], taken⟩
  | look negated body ih =>
    exact absurd (self_mem_subtrees _) (completable.blind.lookFree negated body)
  | named name body ih => exact ih (completable.subtree variable_body_mem_subtrees)
  | repeated body repetition ih =>
    have inner := completable.subtree repeated_body_mem_subtrees
    have bounds := completable.blind.wellFormed.bounds body repetition (self_mem_subtrees _)
    obtain ⟨word, accepts⟩ := acceptsTimes_exists (ih inner) repetition.min
    exact ⟨word, accepts_repeated _ inner.blind ⟨Nat.le_refl _, bounds.ordered⟩ accepts⟩

def Same (input other : Array Char) (i j : Nat) : Prop :=
  ∀ k, i ≤ k → k < j → input[k]? = other[k]?

theorem Same.mono {i' j' : Nat} (same : Same input other i j) (le : i ≤ i') (le' : j' ≤ j) :
    Same input other i' j' :=
  fun k lower upper => same k (by omega) (by omega)

def Moves (input other : Array Char) (derives derives' : Nat → Nat → List Use → Prop) : Prop :=
  ∀ i j uses, Same input other i j → derives i j uses → derives' i j uses

theorem moves_all {parts : List Tree} (wellFormed : ∀ part ∈ parts, part.WellFormed)
    (each : ∀ part ∈ parts, Moves input other (part.Derives input) (part.Derives other)) :
    Moves input other (DerivesAll input parts) (DerivesAll other parts) := by
  induction parts with
  | nil => exact fun i j uses _ derives => derives
  | cons part rest ih =>
    rintro i j uses same ⟨k, first, later, here, behind, rfl⟩
    have others : ∀ tree ∈ rest, tree.WellFormed := fun tree mem =>
      wellFormed tree (List.mem_cons_of_mem _ mem)
    have le := here.relates.le (wellFormed part List.mem_cons_self)
    have le' := behind.relates.le others
    exact ⟨k, first, later,
      each part List.mem_cons_self i k first (same.mono (Nat.le_refl i) le') here,
      ih others (fun tree mem => each tree (List.mem_cons_of_mem _ mem)) k j later
        (same.mono le (Nat.le_refl j)) behind, rfl⟩

theorem Moves.iterates {derives derives' : Nat → Nat → List Use → Prop}
    (moves : Moves input other derives derives') (le : ∀ i j uses, derives i j uses → i ≤ j)
    (count : Nat) : Moves input other (Iterates derives count) (Iterates derives' count) := by
  induction count with
  | zero => exact fun i j uses _ iterates => iterates
  | succ count ih =>
    rintro i j uses same ⟨k, first, later, here, behind, rfl⟩
    have before := le i k first here
    have after := behind.steps.le (fun i j ⟨uses, derives⟩ => le i j uses derives)
    exact ⟨k, first, later, moves i k first (same.mono (Nat.le_refl i) after) here,
      ih k j later (same.mono before (Nat.le_refl j)) behind, rfl⟩

theorem Blind.moves (blind : tree.Blind) :
    Moves input other (tree.Derives input) (tree.Derives other) := by
  induction tree with
  | choice branches ih =>
    intro i j uses same derives
    obtain ⟨branch, mem, derives⟩ := derivesAny_iff.mp derives
    exact derivesAny_iff.mpr ⟨branch, mem,
      ih branch mem (blind.subtree (branch_mem_subtrees mem)) i j uses same derives⟩
  | sequence parts ih =>
    exact moves_all (fun part mem => (blind.subtree (part_mem_subtrees mem)).wellFormed)
      fun part mem => ih part mem (blind.subtree (part_mem_subtrees mem))
  | leaf text =>
    rintro i j uses same ⟨rfl, related⟩
    have whole : (leaf text).Relates input i j := related
    obtain ⟨length, rfl⟩ := Nat.exists_eq_add_of_le (whole.le blind.wellFormed)
    exact ⟨rfl, blind.carries i i length (fun k less => same (i + k) (by omega) (by omega)) whole⟩
  | look negated body ih => exact absurd (self_mem_subtrees _) (blind.lookFree negated body)
  | named name body ih =>
    rintro i j uses same ⟨inner, derives, rfl⟩
    exact ⟨inner, ih (blind.subtree variable_body_mem_subtrees) i j inner same derives, rfl⟩
  | repeated body repetition ih =>
    have inner := blind.subtree repeated_body_mem_subtrees
    rintro i j uses same ⟨count, allowed, iterates⟩
    exact ⟨count, allowed, (ih inner).iterates
      (fun i j uses derives => derives.relates.le inner.wellFormed) count i j uses same iterates⟩

/-- Where a use stands, whether it is current or not. -/
def Use.place (use : Use) : String × Nat × Nat := (use.name, use.start, use.stop)

theorem Iterates.append {derives : Nat → Nat → List Use → Prop} {count more : Nat}
    (before : Iterates derives count i k first) (after : Iterates derives more k j later) :
    ∃ uses, Iterates derives (count + more) i j uses ∧
      uses.map Use.place = first.map Use.place ++ later.map Use.place := by
  induction count generalizing i first with
  | zero =>
    obtain ⟨rfl, rfl⟩ := before
    exact ⟨later, by rwa [Nat.zero_add], rfl⟩
  | succ count ih =>
    obtain ⟨l, here, rest, iteration, behind, rfl⟩ := before
    obtain ⟨uses, iterates, same⟩ := ih behind
    have places (uses : List Use) (last : Prop) [Decidable last] :
        (if last then uses else uses.map Use.overtaken).map Use.place = uses.map Use.place := by
      split
      · rfl
      · rw [List.map_map]
        rfl
    rw [Nat.add_right_comm]
    refine ⟨_, ⟨l, here, uses, iteration, iterates, rfl⟩, ?_⟩
    rw [List.map_append, List.map_append, places, places, same, List.append_assoc]

/-- The uses have a counterpart of each use seen up to `j`. It stops at the same place, unless it is
cut off at `j` and goes on. -/
def Completed (j : Nat) (seen uses : List Use) : Prop :=
  ∀ use ∈ seen, ∃ stop, (stop = use.stop ∨ use.stop = j ∧ j ≤ stop) ∧
    (use.name, use.start, stop) ∈ uses.map Use.place

theorem completed_nil (j : Nat) (uses : List Use) : Completed j [] uses := by simp [Completed]

theorem Completed.mono {more : List Use} (completed : Completed j seen uses)
    (places : uses.map Use.place ⊆ more.map Use.place) : Completed j seen more := by
  intro use mem
  obtain ⟨stop, stops, among⟩ := completed use mem
  exact ⟨stop, stops, places among⟩

theorem completed_filter (j : Nat) (uses : List Use) :
    Completed j (uses.filter (·.current)) uses := fun use mem =>
  ⟨use.stop, .inl rfl, List.mem_map_of_mem (List.mem_of_mem_filter mem)⟩

theorem Completed.append {seen' : List Use} (before : Completed j seen uses)
    (after : Completed j seen' uses) : Completed j (seen ++ seen') uses := fun use mem =>
  (List.mem_append.mp mem).elim (before use) (after use)

def Continues (tree : Tree) (input : Array Char) (i j : Nat) (seen : List Use) : Prop :=
  ∃ more uses, tree.Derives (input.toList.take j ++ more).toArray i (j + more.length) uses ∧
    Completed j seen uses

theorem same_take {length : Nat} (inside : length ≤ input.size) (more : List Char) :
    Same input (input.toList.take length ++ more).toArray i length := by
  intro k _ upper
  have less : k < (input.toList.take length).length := by
    rw [List.length_take, Array.length_toList]
    omega
  simp [List.getElem?_append_left less, upper]

theorem same_append (text more : List Char) :
    Same text.toArray (text ++ more).toArray i text.length := by
  intro k _ upper
  simp [List.getElem?_append_left upper]

theorem length_take_append (stop : j ≤ input.size) (more : List Char) :
    (input.toList.take j ++ more).length = j + more.length := by
  simp [Nat.min_eq_left stop]

theorem Blind.derives_behind {more : List Char} (blind : tree.Blind) (stop : j ≤ input.size)
    (derives : tree.Derives (input.toList.take j ++ more).toArray i (j + more.length) uses)
    (word : List Char) :
    tree.Derives (input.toList.take j ++ (more ++ word)).toArray i (j + more.length) uses := by
  have reached := length_take_append stop more
  have same := same_append (i := i) (input.toList.take j ++ more) word
  rw [reached, List.append_assoc] at same
  exact blind.moves i (j + more.length) uses same derives

theorem exists_derivesAll_behind {parts : List Tree} (blind : ∀ part ∈ parts, part.Blind)
    {word : List Char} (accepts : AcceptsAll parts word) (text : List Char) :
    ∃ uses, DerivesAll (text ++ word).toArray parts text.length (text.length + word.length)
      uses := by
  have related : (sequence parts).Relates (text ++ word).toArray text.length
      (text.length + word.length) := relatesAll_within blind accepts text
  exact related.exists_derivation

theorem exists_iterates_behind {count : Nat} {word : List Char} (blind : tree.Blind)
    (accepts : AcceptsTimes tree count word) (text : List Char) :
    ∃ uses, Iterates (tree.Derives (text ++ word).toArray) count text.length
      (text.length + word.length) uses :=
  iterates_of_steps ((steps_within blind accepts text).mono fun _ _ related =>
    related.exists_derivation)

theorem continues_of_partly {parts : List Tree} (completable : ∀ part ∈ parts, part.Completable)
    (ih : ∀ part ∈ parts, ∀ body ∈ part.beginningBodies, ∀ i j seen, body.Shows input i j seen →
      i ≤ input.size → part.Continues input i j seen)
    (partly : BodyPart.Partly input (bodyParts parts) i j seen) (inside : i ≤ input.size) :
    (sequence parts).Continues input i j seen := by
  induction parts generalizing i seen with
  | nil =>
    obtain ⟨rfl, rfl⟩ : i = j ∧ seen = [] := partly
    exact ⟨[], [], ⟨rfl, rfl⟩, completed_nil _ _⟩
  | cons part rest ih' =>
    have below := completable part List.mem_cons_self
    have others : ∀ tree ∈ rest, tree.Completable := fun tree mem =>
      completable tree (List.mem_cons_of_mem _ mem)
    rcases partly with ⟨body, mem, shows⟩ | ⟨k, before, after, whole, later, rfl⟩
    · have stop : j ≤ input.size := Pattern.Spans.le_size shows.spans inside
      obtain ⟨more, uses, derives, completed⟩ :=
        ih part List.mem_cons_self body mem i j seen shows inside
      obtain ⟨word, accepts⟩ := acceptsAll_exists fun tree mem => (others tree mem).exists_sentence
      obtain ⟨behind, derives'⟩ :=
        exists_derivesAll_behind (fun tree mem => (others tree mem).blind) accepts
          (input.toList.take j ++ more)
      rw [length_take_append stop, List.append_assoc] at derives'
      refine ⟨more ++ word, uses ++ behind, ⟨j + more.length, uses, behind,
        below.blind.derives_behind stop derives word, ?_, rfl⟩, completed.mono (by simp)⟩
      rw [List.length_append, ← Nat.add_assoc]
      exact derives'
    · have le := Pattern.Spans.le whole.spans
      have le' := BodyPart.partly_le later
      have stop := Pattern.Spans.le_size whole.spans inside
      obtain ⟨all, derives, rfl⟩ := exists_derivation_of_shows below.blind.wellFormed
        (fun negated body mem => absurd mem (below.blind.lookFree negated body)) whole
      obtain ⟨more, uses, derives', completed⟩ :=
        ih' others (fun tree mem => ih tree (List.mem_cons_of_mem _ mem)) later stop
      have moved := below.blind.moves i k all
        ((same_take (BodyPart.partly_le_size later stop) more).mono (Nat.le_refl i)
          (BodyPart.partly_le later)) derives
      exact ⟨more, all ++ uses, ⟨k, all, uses, moved, derives', rfl⟩,
        ((completed_filter j all).mono (by simp)).append (completed.mono (by simp))⟩

theorem exists_of_beginnings_repeated (wellFormed : (Tree.repeated tree repetition).WellFormed)
    (lookFree : tree.LookFree) {body : Body}
    (mem : body ∈ (Tree.repeated tree repetition).beginningBodies)
    (shows : body.Shows input i j seen) :
    (repetition.max = some 0 ∧ i = j ∧ seen = []) ∨
      ∃ count k all final, ∃ last ∈ tree.beginningBodies,
        (∀ most ∈ repetition.max, count + 1 ≤ most) ∧
          Iterates (tree.Derives input) count i k all ∧ last.Shows input k j final ∧
            seen = all.filter (·.current) ++ final := by
  obtain ⟨min, max, greedy⟩ := repetition
  have inner := wellFormed.subtree repeated_body_mem_subtrees
  have numbered := numbered_bodyPart inner
  have cutOff (some : max ≠ some 0) (mem : body ∈ tree.beginningBodies.map fun last =>
        (tree.wholeBody.repeated (Repetition.beforeLast ⟨min, max, greedy⟩).toList
          (Repetition.complete ⟨min, max, greedy⟩)).append last) :
      ∃ count k all final, ∃ last ∈ tree.beginningBodies, (∀ most ∈ max, count + 1 ≤ most) ∧
        Iterates (tree.Derives input) count i k all ∧ last.Shows input k j final ∧
          seen = all.filter (·.current) ++ final := by
    obtain ⟨last, mem', rfl⟩ := List.mem_map.mp mem
    have complete : (tree.wholeBody.repeated (Repetition.beforeLast ⟨min, max, greedy⟩).toList
        (Repetition.complete ⟨min, max, greedy⟩)).Numbered := numbered.whole
    obtain ⟨k, first, final, before, after, rfl⟩ :=
      complete.shows_append (numbered.beginnings last mem') shows
    obtain ⟨count, allowed, all, iterates, rfl⟩ := exists_iterates_of_shows inner
      (fun i j uses shows => exists_derivation_of_shows inner
        (fun negated body mem => absurd mem (lookFree negated body)) shows) before
    refine ⟨count, k, all, final, last, mem', fun most bound => ?_, ?_, after, rfl⟩
    · have positive : most ≠ 0 := by
        rintro rfl
        exact some bound
      have := allowed (most - 1) (by simp [Repetition.complete, Option.mem_def.mp bound])
      simp only [Repetition.complete] at this
      omega
    · simpa [Repetition.complete] using iterates
  rcases Repetition.max_cases max with rfl | rfl | rfl | ⟨most, rfl⟩
  · exact .inr (cutOff (by simp) mem)
  · obtain rfl := List.mem_singleton.mp mem
    exact .inl ⟨rfl, Body.shows_empty shows⟩
  · exact .inr ⟨0, i, [], seen, body, mem, by simp, ⟨rfl, rfl⟩, shows, rfl⟩
  · exact .inr (cutOff (by simp) mem)

theorem Completable.continues_repeated {count : Nat} {all final : List Use}
    (completable : (Tree.repeated tree repetition).Completable)
    (room : ∀ most ∈ repetition.max, count + 1 ≤ most)
    (iterates : Iterates (tree.Derives input) count i k all)
    (last : tree.Continues input k j final) (le : k ≤ j) (stop : j ≤ input.size) :
    (Tree.repeated tree repetition).Continues input i j (all.filter (·.current) ++ final) := by
  have below := completable.subtree repeated_body_mem_subtrees
  have bounds := completable.blind.wellFormed.bounds tree repetition (self_mem_subtrees _)
  have forward : ∀ i j uses, tree.Derives input i j uses → i ≤ j := fun i j uses derives =>
    derives.relates.le below.blind.wellFormed
  -- Behind the completed iteration come as many others as the lower bound still asks for.
  obtain ⟨more, uses, derives, completed⟩ := last
  obtain ⟨word, accepts⟩ := acceptsTimes_exists below.exists_sentence
    (repetition.min - (count + 1))
  obtain ⟨missing, others⟩ := exists_iterates_behind below.blind accepts
    (input.toList.take j ++ more)
  have one : Iterates (tree.Derives (input.toList.take j ++ (more ++ word)).toArray) 1 k
      (j + more.length) (uses ++ []) :=
    ⟨_, uses, [], below.blind.derives_behind stop derives word, ⟨rfl, rfl⟩, rfl⟩
  have complete := below.blind.moves.iterates forward count i k all
    ((same_take stop (more ++ word)).mono (Nat.le_refl i) le) iterates
  rw [length_take_append stop, List.append_assoc] at others
  obtain ⟨both, iterates', places⟩ := complete.append one
  obtain ⟨total, iterates'', places'⟩ := iterates'.append others
  refine ⟨more ++ word, total, ⟨count + 1 + (repetition.min - (count + 1)),
    ⟨by omega, fun most mem => ?_⟩, ?_⟩, ?_⟩
  · have := room most mem
    have := bounds.ordered most mem
    omega
  · rw [List.length_append, ← Nat.add_assoc]
    exact iterates''
  · rw [List.append_nil] at places
    exact ((completed_filter j all).mono (by simp [places', places])).append
      (completed.mono (by simp [places', places]))

theorem Completable.continues_leaf {text : String} (completable : (leaf text).Completable)
    (shows : ((Body.ofLeaf text).repeated ['?'] ⟨0, some 1, true⟩).Shows input i j seen)
    (inside : i ≤ input.size) : (leaf text).Continues input i j seen := by
  have unnamed : ((Body.ofLeaf text).repeated ['?'] ⟨0, some 1, true⟩).names = [] :=
    Body.names_ofLeaf text
  obtain rfl := Body.shows_no_names unnamed shows
  obtain ⟨count, allowed, steps⟩ := Body.spans_repeated.mp shows.spans
  have atMost : count ≤ 1 := allowed 1 rfl
  obtain rfl | rfl : count = 0 ∨ count = 1 := by omega
  · obtain rfl : i = j := steps
    obtain ⟨word, accepts⟩ := completable.exists_sentence
    have related := completable.blind.relates_within accepts (input.toList.take i) []
    rw [List.append_nil, List.length_take, Array.length_toList, Nat.min_eq_left inside] at related
    exact ⟨word, [], ⟨rfl, related⟩, completed_nil _ _⟩
  · have related := Leaf.relates_iff_spans.mpr (Steps.one.mp steps)
    have stop := Pattern.Spans.le_size shows.spans inside
    have moved := completable.blind.moves i j [] (same_take stop []) ⟨rfl, related⟩
    exact ⟨[], [], moved, completed_nil _ _⟩

theorem Completable.continues (completable : tree.Completable) {body : Body}
    (mem : body ∈ tree.beginningBodies) (shows : body.Shows input i j seen)
    (inside : i ≤ input.size) : tree.Continues input i j seen := by
  induction tree generalizing body i j seen with
  | choice branches ih =>
    have below : ∀ branch ∈ branches, branch.Completable := fun branch mem =>
      completable.subtree (branch_mem_subtrees mem)
    obtain ⟨part, mem', inner, mem'', shows⟩ := BodyPart.exists_of_choiceBeginnings
      (numbered_bodyParts fun branch mem => (below branch mem).blind.wellFormed) mem shows
    rw [bodyParts_eq, List.mem_map] at mem'
    obtain ⟨branch, among, rfl⟩ := mem'
    obtain ⟨more, uses, derives, completed⟩ :=
      ih branch among (below branch among) mem'' shows inside
    exact ⟨more, uses, derivesAny_iff.mpr ⟨branch, among, derives⟩, completed⟩
  | sequence parts ih =>
    have below : ∀ part ∈ parts, part.Completable := fun part mem =>
      completable.subtree (part_mem_subtrees mem)
    have some : ∀ part ∈ bodyParts parts, part.beginnings ≠ [] := by
      rw [bodyParts_eq, List.forall_mem_map]
      intro part mem
      obtain ⟨body, mem, -⟩ := (below part mem).blind.cuttable.beginsAt_end #[]
      exact List.ne_nil_of_mem mem
    have partly := BodyPart.partly_of_sequenceBeginnings some
      (numbered_bodyParts fun part mem => (below part mem).blind.wellFormed) mem shows
    exact continues_of_partly below (fun part mem body mem' i j seen shows inside =>
      ih part mem (below part mem) mem' shows inside) partly inside
  | leaf text =>
    obtain rfl := List.mem_singleton.mp mem
    exact completable.continues_leaf shows inside
  | look negated inner ih =>
    exact absurd (self_mem_subtrees _) (completable.blind.lookFree negated inner)
  | named name inner ih =>
    obtain ⟨beginning, mem', rfl⟩ := List.mem_map.mp mem
    obtain ⟨final, inside', rfl⟩ := Body.shows_capture shows
    obtain ⟨more, uses, derives, completed⟩ :=
      ih (completable.subtree variable_body_mem_subtrees) mem' inside' inside
    refine ⟨more, _, ⟨uses, derives, rfl⟩, ?_⟩
    -- The variable itself is seen up to `j` and goes on with what its body is completed by.
    have here : Completed j [⟨name, i, j, true⟩] (⟨name, i, j + more.length, true⟩ :: uses) := by
      intro use mem
      obtain rfl := List.mem_singleton.mp mem
      exact ⟨j + more.length, .inr ⟨rfl, Nat.le_add_right j _⟩, List.mem_cons_self⟩
    exact here.append (completed.mono (by simp))
  | repeated inner repetition ih =>
    have below := completable.subtree repeated_body_mem_subtrees
    rcases exists_of_beginnings_repeated completable.blind.wellFormed below.blind.lookFree mem shows
      with ⟨none, rfl, rfl⟩ | ⟨count, k, all, final, last, mem', room, iterates, shows', rfl⟩
    · have bounds := completable.blind.wellFormed.bounds inner repetition (self_mem_subtrees _)
      have allowed : repetition.Allows 0 := ⟨bounds.ordered 0 none, fun _ _ => Nat.zero_le _⟩
      exact ⟨[], [], ⟨0, allowed, rfl, rfl⟩, completed_nil _ _⟩
    · have inside' : k ≤ input.size := iterates.steps.preserves (· ≤ input.size)
        (fun i j ⟨uses, derives⟩ => derives.relates.le_size below.blind.wellFormed) inside
      exact completable.continues_repeated room iterates (ih below mem' shows' inside')
        (Pattern.Spans.le shows'.spans) (Pattern.Spans.le_size shows.spans inside)

def Completes (tree : Tree) (input : Array Char) (i j : Nat) : Prop :=
  ∃ more, tree.Accepts (slice input i j ++ more)

theorem Completable.completes (completable : tree.Completable) {body : Body}
    (mem : body ∈ tree.beginningBodies) (spans : body.Spans input i j) (inside : i ≤ input.size) :
    tree.Completes input i j := by
  obtain ⟨seen, shows⟩ := spans.exists_shows
  obtain ⟨more, uses, derives, -⟩ := completable.continues mem shows inside
  have le := Pattern.Spans.le spans
  have stop := Pattern.Spans.le_size spans inside
  have reached : (input.toList.take j).length = j := by simp [Nat.min_eq_left stop]
  have within : i ≤ (input.toList.take j ++ more).toArray.size := by simp; omega
  have accepts := completable.blind.accepts_slice derives.relates within
  have sliced : slice (input.toList.take j ++ more).toArray i (j + more.length) =
      slice input i j ++ more := by
    have all : j + more.length = (input.toList.take j ++ more).length := by
      rw [List.length_append, reached]
    rw [slice, all, List.take_length, List.drop_append_of_le_length (by omega), slice]
  exact ⟨more, sliced ▸ accepts⟩

end Tree

end LineGrammar
