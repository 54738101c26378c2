import LineGrammar.Proofs.Pattern.Endings
import LineGrammar.Proofs.Tree.Beginnings
import LineGrammar.Proofs.Tree.Uses

/-! Every cut inside a variable is covered by a beginning that ends with a group of that variable.
Where a derivation uses the variable across the cut, the parts and iterations before that use are
matched in full; stopping inside the part with the variable has a body of its own, so the group is
closed last of all whatever way the body goes. -/

namespace LineGrammar

namespace Body

variable {body : Body} {name : String}

def EndsIn (name : String) (body : Body) : Prop :=
  ∃ index, body.names[index]? = some name ∧ body.pattern.EndsIn (index + 1)

theorem endsIn_capture (name : String) (body : Body) : (body.capture name).EndsIn name :=
  ⟨0, rfl, .here _⟩

theorem EndsIn.capture (ends : body.EndsIn name) (other : String) :
    (body.capture other).EndsIn name := by
  obtain ⟨index, named, ends⟩ := ends
  exact ⟨index + 1, named, .inside (ends.shift 1) (by omega)⟩

theorem EndsIn.append (ends : body.EndsIn name) (before : Body) :
    (before.append body).EndsIn name := by
  obtain ⟨index, named, ends⟩ := ends
  refine ⟨before.names.length + index, ?_, ?_⟩
  · rw [Body.append, List.getElem?_append_right (by omega), Nat.add_sub_cancel_left]
    exact named
  · have shifted := ends.shift before.names.length
    rw [Body.pattern, Pattern.shift_ofTerms, Nat.add_right_comm, Nat.add_comm index] at shifted
    exact shifted.ofTerms_append before.terms

end Body

namespace BodyPart

variable {input : Array Char} {parts : List BodyPart} {name : String} {i j : Nat}

def StopsIn (name : String) (input : Array Char) : List BodyPart → Nat → Nat → Prop
  | [], _, _ => False
  | part :: rest, i, j =>
    (part.hasVariable = true ∧
      ∃ body ∈ part.beginnings, body.EndsIn name ∧ body.Spans input i j) ∨
      ∃ k, part.whole.Spans input i k ∧ StopsIn name input rest k j

theorem exists_stopsInVariable (stops : StopsIn name input parts i j) (head : Body) {h : Nat}
    (before : head.Spans input h i) :
    ∃ body ∈ stopsInVariable head parts, body.EndsIn name ∧ body.Spans input h j := by
  induction parts generalizing head i with
  | nil => exact stops.elim
  | cons part rest ih =>
    rw [stopsInVariable]
    rcases stops with ⟨inside, body, mem, ends, spans⟩ | ⟨k, whole, later⟩
    · rw [if_pos inside]
      exact ⟨_, List.mem_append_left _ (List.mem_map_of_mem mem), ends.append head,
        Body.spans_append.mpr ⟨i, before, spans⟩⟩
    · obtain ⟨body, mem, found⟩ :=
        ih later (head.append part.whole) (Body.spans_append.mpr ⟨i, before, whole⟩)
      exact ⟨body, List.mem_append_right _ mem, found⟩

theorem stopsInVariable_subset {body : Body} (some : parts ≠ [])
    (mem : body ∈ stopsInVariable .empty parts) : body ∈ sequenceBeginnings parts := by
  rw [sequenceBeginnings, if_neg (by simpa using some)]
  exact List.mem_append_left _ mem

theorem apart_subset {part : BodyPart} {body : Body} (mem : part ∈ parts)
    (inside : part.hasVariable = true) (mem' : body ∈ part.beginnings) :
    body ∈ choiceBeginnings parts := by
  refine List.mem_append_left _ (List.mem_flatMap.mpr ⟨part, mem, ?_⟩)
  rwa [if_pos inside]

end BodyPart

namespace Tree

variable {part full : Array Char} {tree : Tree} {name : String} {i j : Nat} {uses : List Use}
  {use : Use}

def EndsAt (text : Array Char) (tree : Tree) (name : String) (i : Nat) : Prop :=
  ∃ body ∈ tree.beginningBodies, body.EndsIn name ∧ body.Spans text i text.size

theorem endsAt_choice {branches : List Tree} {branch : Tree} (mem : branch ∈ branches)
    (inside : branch.hasVariable = true) (ends : branch.EndsAt part name i) :
    (choice branches).EndsAt part name i := by
  obtain ⟨body, mem', found⟩ := ends
  have among : branch.bodyPart ∈ bodyParts branches := by
    rw [bodyParts_eq]
    exact List.mem_map_of_mem mem
  exact ⟨body, BodyPart.apart_subset among inside mem', found⟩

theorem endsAt_sequence {before after : List Tree} {k : Nat}
    (complete : (Body.concat (wholeBodies before)).Spans part i k)
    (inside : tree.hasVariable = true) (ends : tree.EndsAt part name k) :
    (sequence (before ++ tree :: after)).EndsAt part name i := by
  have stops : BodyPart.StopsIn name part (bodyParts (before ++ tree :: after)) i part.size := by
    induction before generalizing i with
    | nil =>
      obtain rfl : i = k := complete
      exact .inl ⟨inside, ends⟩
    | cons first rest ih =>
      obtain ⟨l, whole, later⟩ := Body.spans_concat_cons.mp complete
      exact .inr ⟨l, whole, ih later⟩
  obtain ⟨body, mem, found⟩ := BodyPart.exists_stopsInVariable stops .empty rfl
  have some : bodyParts (before ++ tree :: after) ≠ [] := by simp [bodyParts_eq]
  exact ⟨body, BodyPart.stopsInVariable_subset some mem, found⟩

theorem endsAt_variable (ends : tree.EndsAt part name i) (other : String) :
    (Tree.variable other tree).EndsAt part name i := by
  obtain ⟨body, mem, ends, spans⟩ := ends
  exact ⟨_, List.mem_map_of_mem mem, ends.capture other, Body.spans_capture.mpr spans⟩

theorem endsAt_variable_self (begins : tree.BeginsAt part i) :
    (Tree.variable name tree).EndsAt part name i := by
  obtain ⟨body, mem, spans⟩ := begins
  exact ⟨_, List.mem_map_of_mem mem, Body.endsIn_capture name body, Body.spans_capture.mpr spans⟩

theorem endsAt_repeated {repetition : Repetition} {before k : Nat}
    (allowed : ∀ most ∈ repetition.max, before + 1 ≤ most)
    (steps : Steps (tree.wholeBody.Spans part) before i k) (ends : tree.EndsAt part name k) :
    (Tree.repeated tree repetition).EndsAt part name i := by
  obtain ⟨last, mem, ends, spans⟩ := ends
  obtain ⟨body, mem', spans', behind⟩ := exists_beginning_repeated allowed steps mem spans
  refine ⟨body, mem', ?_, spans'⟩
  rcases behind with rfl | ⟨complete, rfl⟩
  · exact ends
  · exact ends.append complete

theorem spans_wholeBodies_of_cut {parts : List Tree}
    (each : ∀ tree ∈ parts, tree.Cuttable ∧ tree.LeavesTake) (cut : Cut part full)
    (related : RelatesAll full parts i j) (inside : j ≤ part.size) :
    (Body.concat (wholeBodies parts)).Spans part i j := by
  have wellFormed : ∀ tree ∈ parts, tree.WellFormed := fun tree mem => (each tree mem).1.wellFormed
  refine (spans_wholeBodies fun tree mem i j => spans_wholeBody (wellFormed tree mem)).mpr ?_
  refine relatesAll_of_each wellFormed (fun tree mem k l related le => ?_) related
  obtain ⟨cuttable, take⟩ := each tree mem
  exact cuttable.truncate cut related (by omega) (.inr take)

theorem Cuttable.endsAt (cuttable : tree.Cuttable) (take : tree.LeavesTake)
    (cut : Cut part full) (derives : tree.Derives full i j uses) (mem : use ∈ uses)
    (lower : use.start ≤ part.size) (upper : part.size ≤ use.stop) :
    tree.EndsAt part use.name i := by
  induction tree generalizing i j uses use with
  | choice branches ih =>
    obtain ⟨branch, among, derives⟩ := derivesAny_iff.mp derives
    have below := branch_mem_subtrees among
    exact endsAt_choice among (derives.hasVariable mem) (ih branch among (cuttable.subtree below)
      (take.subtree below) derives mem lower upper)
  | sequence parts ih =>
    obtain ⟨before, tree, after, k, l, inner, rfl, earlier, derives, mem', -⟩ :=
      derives.exists_part mem
    have below : ∀ other ∈ before ++ tree :: after, other.Cuttable ∧ other.LeavesTake :=
      fun other among => ⟨cuttable.subtree (part_mem_subtrees among),
        take.subtree (part_mem_subtrees among)⟩
    have among : tree ∈ before ++ tree :: after := List.mem_append_right _ List.mem_cons_self
    have start := (derives.within (below tree among).1.wellFormed mem').1
    have complete := spans_wholeBodies_of_cut
      (fun other mem => below other (List.mem_append_left _ mem)) cut earlier (by omega)
    exact endsAt_sequence complete (derives.hasVariable mem')
      (ih tree among (below tree among).1 (below tree among).2 derives mem' lower upper)
  | leaf text =>
    obtain ⟨rfl, -⟩ := derives
    simp at mem
  | look negated body ih =>
    obtain ⟨rfl, -⟩ := derives
    simp at mem
  | named name body ih =>
    obtain ⟨inner, derives, rfl⟩ := derives
    rcases List.mem_cons.mp mem with rfl | mem
    · exact endsAt_variable_self ((cuttable.subtree variable_body_mem_subtrees).beginsAt cut
        derives.relates lower upper)
    · exact endsAt_variable (ih (cuttable.subtree variable_body_mem_subtrees)
        (take.subtree variable_body_mem_subtrees) derives mem lower upper) name
  | repeated body repetition ih =>
    have inner := cuttable.subtree repeated_body_mem_subtrees
    have take' := take.subtree repeated_body_mem_subtrees
    obtain ⟨count, ⟨-, most⟩, iterates⟩ := derives
    obtain ⟨before, after, k, l, _, total, earlier, derives, -, seen, mem', sameName, sameStart,
      sameStop⟩ := iterates.exists_iteration mem
    have complete : Steps (body.wholeBody.Spans part) before i k := by
      have start := (derives.within inner.wellFormed mem').1
      have forward : ∀ i j, (∃ uses, body.Derives full i j uses) → i ≤ j := by
        rintro i j ⟨uses, derives⟩
        exact derives.relates.le inner.wellFormed
      refine earlier.mono_le forward ?_
      rintro k' l' ⟨uses, derives⟩ le
      exact (spans_wholeBody inner.wellFormed).mpr
        (inner.truncate cut derives.relates (by omega) (.inr take'))
    refine endsAt_repeated (fun bound mem => ?_) complete ?_
    · have := most bound mem
      omega
    · rw [← sameName]
      exact ih inner take' derives mem' (by omega) (by omega)

end Tree

end LineGrammar
