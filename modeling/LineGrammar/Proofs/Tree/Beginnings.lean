import LineGrammar.Proofs.Tree.Truncation

/-! Every cut of a sentence is covered by a beginning. Whatever a tree relates across a cut, one of
its beginning bodies connects the same start to the cut in the text that ends there: the parts
before the cut are matched in full, and a beginning of the part at the cut ends the match. -/

namespace LineGrammar

namespace BodyPart

variable {input : Array Char} {parts : List BodyPart} {bodies : List Body} {body : Body}
  {i j : Nat}

theorem spans_merged (some : bodies ≠ []) :
    (merged bodies).Spans input i j ↔ ∃ body ∈ bodies, body.Spans input i j := by
  unfold merged
  split
  · simp
  · exact Body.spans_choice some

def Stops (input : Array Char) : List BodyPart → Nat → Nat → Prop
  | [], _, _ => False
  | part :: rest, i, j =>
    (∃ body ∈ part.beginnings, body.Spans input i j) ∨
      ∃ k, part.whole.Spans input i k ∧ Stops input rest k j

theorem stops_cases (stops : Stops input parts i j) :
    (∀ (head : Body) (h : Nat), head.Spans input h i →
        ∃ body ∈ stopsInVariable head parts, body.Spans input h j) ∨
      ((stopsOutside parts).Spans input i j ∧ parts.any (!·.hasVariable) = true) := by
  induction parts generalizing i with
  | nil => exact stops.elim
  | cons part rest ih =>
    rcases stops with ⟨body, mem, spans⟩ | ⟨k, first, later⟩
    · by_cases inside : part.hasVariable = true
      · refine .inl fun head h before => ⟨head.append body, ?_, Body.spans_append.mpr
          ⟨i, before, spans⟩⟩
        rw [stopsInVariable, if_pos inside]
        exact List.mem_append_left _ (List.mem_map_of_mem mem)
      · have last : (Body.choice [merged part.beginnings]).Spans input i j := by
          rw [Body.spans_choice (List.cons_ne_nil _ _)]
          exact ⟨_, List.mem_cons_self, (spans_merged (List.ne_nil_of_mem mem)).mpr
            ⟨body, mem, spans⟩⟩
        refine .inr ⟨?_, by simp [inside]⟩
        rw [stopsOutside, if_neg inside, Body.spans_choice (List.cons_ne_nil _ _)]
        exact ⟨_, List.mem_cons_of_mem _ List.mem_cons_self, last⟩
    · rcases ih later with inVariable | ⟨outside, apart⟩
      · refine .inl fun head h before => ?_
        obtain ⟨body, mem, spans⟩ := inVariable (head.append part.whole) h
          (Body.spans_append.mpr ⟨i, before, first⟩)
        rw [stopsInVariable]
        exact ⟨body, List.mem_append_right _ mem, spans⟩
      · refine .inr ⟨?_, by rw [List.any_cons, apart, Bool.or_true]⟩
        rw [stopsOutside, Body.spans_choice (List.cons_ne_nil _ _)]
        exact ⟨_, List.mem_cons_self, Body.spans_append.mpr ⟨k, first, outside⟩⟩

theorem exists_sequenceBeginnings (stops : Stops input parts i j) :
    ∃ body ∈ sequenceBeginnings parts, body.Spans input i j := by
  have some : parts.isEmpty = false := by
    cases parts with
    | nil => exact stops.elim
    | cons part rest => rfl
  rw [sequenceBeginnings, some]
  rcases stops_cases stops with inVariable | ⟨outside, apart⟩
  · obtain ⟨body, mem, spans⟩ := inVariable .empty i rfl
    exact ⟨body, List.mem_append_left _ mem, spans⟩
  · rw [apart]
    exact ⟨_, List.mem_append_right _ List.mem_cons_self, outside⟩

theorem exists_choiceBeginnings {part : BodyPart} (mem : part ∈ parts)
    (mem' : body ∈ part.beginnings) (spans : body.Spans input i j) :
    ∃ body ∈ choiceBeginnings parts, body.Spans input i j := by
  unfold choiceBeginnings
  by_cases inside : part.hasVariable = true
  · refine ⟨body, List.mem_append_left _ (List.mem_flatMap.mpr ⟨part, mem, ?_⟩), spans⟩
    rwa [if_pos inside]
  · have plain : body ∈ parts.flatMap fun branch =>
        if branch.hasVariable then [] else branch.beginnings := by
      refine List.mem_flatMap.mpr ⟨part, mem, ?_⟩
      rwa [if_neg inside]
    have some := List.ne_nil_of_mem plain
    refine ⟨.choice _, List.mem_append_right _ ?_, (Body.spans_choice some).mpr
      ⟨body, plain, spans⟩⟩
    rw [if_neg (by simpa using some)]
    exact List.mem_cons_self

end BodyPart

namespace Tree

variable {part full : Array Char} {tree : Tree} {i j : Nat}

def BeginsAt (text : Array Char) (tree : Tree) (i : Nat) : Prop :=
  ∃ body ∈ tree.beginningBodies, body.Spans text i text.size

theorem Cuttable.spans_look_end {negated : Bool} {body : Tree}
    (cuttable : (look negated body).Cuttable) :
    (body.wholeBody.look .forward negated).Spans part part.size part.size := by
  obtain rfl := cuttable.negative negated body (self_mem_subtrees _)
  refine Body.spans_look.mpr ⟨rfl, fun _ => ?_, fun _ => rfl⟩
  rintro ⟨k, spans⟩
  have blind := cuttable.lookBody
  have related := (spans_wholeBody blind.wellFormed).mp spans
  have le := related.le blind.wellFormed
  have le' := related.le_size blind.wellFormed (Nat.le_refl _)
  obtain rfl : k = part.size := by omega
  exact cuttable.looks.notEmpty true body (self_mem_subtrees _)
    (blind.carries part.size 0 0 (by simp) related)

theorem beginsAt_choice {branches : List Tree} {branch : Tree} (mem : branch ∈ branches)
    (begins : branch.BeginsAt part i) : (choice branches).BeginsAt part i := by
  obtain ⟨body, mem', spans⟩ := begins
  have among : branch.bodyPart ∈ bodyParts branches := by
    rw [bodyParts_eq]
    exact List.mem_map_of_mem mem
  exact BodyPart.exists_choiceBeginnings among mem' spans

theorem beginsAt_sequence {parts : List Tree}
    (stops : BodyPart.Stops part (bodyParts parts) i part.size) :
    (sequence parts).BeginsAt part i :=
  BodyPart.exists_sequenceBeginnings stops

theorem beginsAt_variable {name : String} (begins : tree.BeginsAt part i) :
    (Tree.variable name tree).BeginsAt part i := by
  obtain ⟨body, mem, spans⟩ := begins
  exact ⟨_, List.mem_map_of_mem mem, Body.spans_capture.mpr spans⟩

theorem exists_beginning_repeated {repetition : Repetition} {before k : Nat} {last : Body}
    (allowed : ∀ most ∈ repetition.max, before + 1 ≤ most)
    (steps : Steps (tree.wholeBody.Spans part) before i k) (mem : last ∈ tree.beginningBodies)
    (spans : last.Spans part k j) :
    ∃ body ∈ (Tree.repeated tree repetition).beginningBodies, body.Spans part i j ∧
      (body = last ∨ ∃ complete : Body, body = complete.append last) := by
  have cutOff (general : (Tree.repeated tree repetition).beginningBodies =
      tree.beginningBodies.map fun inner => (tree.wholeBody.repeated
        repetition.beforeLast.toList repetition.complete).append inner) :
      ∃ body ∈ (Tree.repeated tree repetition).beginningBodies, body.Spans part i j ∧
        (body = last ∨ ∃ complete : Body, body = complete.append last) := by
    have complete : (tree.wholeBody.repeated repetition.beforeLast.toList
        repetition.complete).Spans part i k := by
      refine Body.spans_repeated.mpr ⟨before, fun most mem => ?_, ?_⟩
      · obtain ⟨most, mem', rfl⟩ := Option.map_eq_some_iff.mp mem
        have := allowed most mem'
        simp only [Repetition.complete]
        omega
      · simpa [Repetition.complete] using steps
    rw [general]
    exact ⟨_, List.mem_map_of_mem mem, Body.spans_append.mpr ⟨k, complete, spans⟩, .inr ⟨_, rfl⟩⟩
  obtain ⟨min, max, greedy⟩ := repetition
  rcases Repetition.max_cases max with rfl | rfl | rfl | ⟨most, rfl⟩
  · exact cutOff rfl
  · exact absurd (allowed 0 rfl) (by omega)
  · obtain rfl : before = 0 := by
      have := allowed 1 rfl
      omega
    obtain rfl : i = k := steps
    exact ⟨last, mem, spans, .inl rfl⟩
  · exact cutOff rfl

theorem beginsAt_repeated {repetition : Repetition} (before : Nat) {k : Nat}
    (allowed : ∀ most ∈ repetition.max, before + 1 ≤ most)
    (steps : Steps (tree.wholeBody.Spans part) before i k) (begins : tree.BeginsAt part k) :
    (Tree.repeated tree repetition).BeginsAt part i := by
  obtain ⟨last, mem, spans⟩ := begins
  obtain ⟨body, mem', spans', -⟩ := exists_beginning_repeated allowed steps mem spans
  exact ⟨body, mem', spans'⟩

theorem Cuttable.beginsAt_end (cuttable : tree.Cuttable) (part : Array Char) :
    tree.BeginsAt part part.size := by
  induction tree with
  | choice branches ih =>
    cases branches with
    | nil => exact absurd (self_mem_subtrees _) cuttable.wellFormed.branches
    | cons branch rest =>
      exact beginsAt_choice List.mem_cons_self
        (ih branch List.mem_cons_self (cuttable.subtree (branch_mem_subtrees List.mem_cons_self)))
  | sequence parts ih =>
    cases parts with
    | nil => exact ⟨.empty, List.mem_cons_self, rfl⟩
    | cons first rest =>
      exact beginsAt_sequence (.inl (ih first List.mem_cons_self
        (cuttable.subtree (part_mem_subtrees List.mem_cons_self))))
  | leaf text =>
    exact ⟨_, List.mem_cons_self,
      Body.spans_repeated.mpr ⟨0, by simp [Repetition.AllowsFurther], rfl⟩⟩
  | look negated body ih => exact ⟨_, List.mem_cons_self, cuttable.spans_look_end⟩
  | named name body ih =>
    exact beginsAt_variable (ih (cuttable.subtree variable_body_mem_subtrees))
  | repeated body repetition ih =>
    have inner := ih (cuttable.subtree repeated_body_mem_subtrees)
    by_cases none : repetition.max = some 0
    · obtain ⟨min, max, greedy⟩ := repetition
      obtain rfl : max = some 0 := none
      exact ⟨.empty, List.mem_cons_self, rfl⟩
    · refine beginsAt_repeated 0 (fun most mem => ?_) rfl inner
      have : most ≠ 0 := by
        rintro rfl
        exact none mem
      omega

theorem Blind.exists_beginning (blind : tree.Blind) (input : Array Char) :
    ∃ body ∈ tree.beginningBodies, body.Spans input 0 0 := by
  obtain ⟨body, mem, spans⟩ := blind.cuttable.beginsAt_end #[]
  exact ⟨body, mem, blind.portable_bodyPart.beginnings body mem #[] input 0 0 0 (by simp) spans⟩

theorem stops_of_relatesAll {parts : List Tree} (some : parts ≠ [])
    (cuttable : ∀ tree ∈ parts, tree.Cuttable) (cut : Cut part full)
    (ih : ∀ tree ∈ parts, ∀ i j, tree.Relates full i j → i ≤ part.size → part.size ≤ j →
      tree.BeginsAt part i)
    (related : RelatesAll full parts i j) (lower : i ≤ part.size) (upper : part.size ≤ j) :
    BodyPart.Stops part (bodyParts parts) i part.size := by
  induction parts generalizing i with
  | nil => exact absurd rfl some
  | cons tree rest ih' =>
    obtain ⟨k, first, later⟩ := related
    by_cases reaches : part.size ≤ k
    · exact .inl (ih tree List.mem_cons_self i k first lower reaches)
    · have more : rest ≠ [] := by
        rintro rfl
        have : k = j := later
        omega
      have complete := (cuttable tree List.mem_cons_self).truncate cut first (by omega)
        (.inl (by omega))
      refine .inr ⟨k, (spans_wholeBody (cuttable tree List.mem_cons_self).wellFormed).mpr complete,
        ih' more (fun tree mem => cuttable tree (List.mem_cons_of_mem _ mem))
          (fun tree mem => ih tree (List.mem_cons_of_mem _ mem)) later (by omega)⟩

theorem Cuttable.beginsAt (cuttable : tree.Cuttable) (cut : Cut part full)
    (related : tree.Relates full i j) (lower : i ≤ part.size) (upper : part.size ≤ j) :
    tree.BeginsAt part i := by
  induction tree generalizing i j with
  | choice branches ih =>
    rw [Relates, relatesAny_iff] at related
    obtain ⟨branch, mem, related⟩ := related
    exact beginsAt_choice mem
      (ih branch mem (cuttable.subtree (branch_mem_subtrees mem)) related lower upper)
  | sequence parts ih =>
    have below : ∀ tree ∈ parts, tree.Cuttable := fun tree mem =>
      cuttable.subtree (part_mem_subtrees mem)
    by_cases some : parts = []
    · subst some
      have stays : i = j := related
      obtain rfl : i = part.size := by omega
      exact ⟨.empty, List.mem_cons_self, rfl⟩
    · exact beginsAt_sequence (stops_of_relatesAll some below cut
        (fun tree mem i j related lower upper => ih tree mem (below tree mem) related lower upper)
        related lower upper)
  | leaf text =>
    by_cases atEnd : i = part.size
    · exact atEnd ▸ cuttable.beginsAt_end part
    · have moves : i ≠ j := by omega
      obtain ⟨inside, whole⟩ :=
        relates_leaf_of_moves cuttable.wellFormed cut related moves (by omega)
      obtain rfl : j = part.size := by omega
      refine ⟨_, List.mem_cons_self, Body.spans_repeated.mpr ⟨1, by simp [Repetition.AllowsFurther],
        Steps.one.mpr (Leaf.relates_iff_spans.mp whole)⟩⟩
  | look negated body ih =>
    obtain rfl : i = j := related.1
    obtain rfl : i = part.size := by omega
    exact cuttable.beginsAt_end part
  | named name body ih =>
    exact beginsAt_variable
      (ih (cuttable.subtree variable_body_mem_subtrees) related lower upper)
  | repeated body repetition ih =>
    have inner := cuttable.subtree repeated_body_mem_subtrees
    obtain ⟨count, ⟨-, most⟩, steps⟩ := related
    cases count with
    | zero =>
      obtain rfl : i = j := steps
      obtain rfl : i = part.size := by omega
      exact cuttable.beginsAt_end part
    | succ count =>
      -- Only the iteration that reaches the cut is cut off; those before it end before the cut.
      obtain ⟨before, le, k, l, earlier, reached, last, upper⟩ := steps.reach lower upper
      have complete : Steps (body.wholeBody.Spans part) before i k :=
        earlier.mono fun i j step => (spans_wholeBody inner.wellFormed).mpr
          (inner.truncate cut step.1 (Nat.le_of_lt step.2) (.inl step.2))
      refine beginsAt_repeated before (fun bound mem => ?_) complete (ih inner last reached upper)
      have := most bound mem
      omega

end Tree

end LineGrammar
