import LineGrammar.Proofs.Pattern.Groups

/-! Groups inside of groups. A way reaches the end of a group through its inside, and a repetition
forgets what its groups captured all at once; so where a group captured something, the groups around
it did so too, and around it. How many groups lie in each of them is told by a list, whatever number
the first of them has. -/

namespace LineGrammar.Pattern

variable {input : Array Char} {pattern first second body : Pattern} {captures : List Capture}
  {i j outer inner : Nat}

/-- How many groups lie in each group, in the order of their parentheses. -/
def scopes : Pattern → List Nat
  | .empty => []
  | .one _ => []
  | .boundary _ _ => []
  | .sequence first second => first.scopes ++ second.scopes
  | .choice first second => first.scopes ++ second.scopes
  | .capture _ body => body.scopes.length :: body.scopes
  | .repeated body _ => body.scopes
  | .look _ _ body => body.scopes

@[simp] theorem scopes_shift (count : Nat) (pattern : Pattern) :
    (pattern.shift count).scopes = pattern.scopes := by
  induction pattern <;> simp_all [shift, scopes]

theorem length_scopes (pattern : Pattern) : pattern.scopes.length = pattern.groups.length := by
  induction pattern <;> simp_all [scopes, groups]

theorem scopes_ofTerms (terms : List Pattern) : (ofTerms terms).scopes = terms.flatMap scopes := by
  induction terms with
  | nil => rfl
  | cons term rest ih =>
    cases rest with
    | nil => simp [ofTerms]
    | cons next rest => simpa [ofTerms, scopes] using ih

theorem scopes_ofBranches (branches : List Pattern) :
    (ofBranches branches).scopes = branches.flatMap scopes := by
  induction branches with
  | nil => rfl
  | cons branch rest ih =>
    cases rest with
    | nil => simp [ofBranches]
    | cons next rest => simpa [ofBranches, scopes] using ih

/-- The group `inner` lies in the group `outer`. -/
def Encloses (outer inner : Nat) : Pattern → Prop
  | .empty => False
  | .one _ => False
  | .boundary _ _ => False
  | .sequence first second => first.Encloses outer inner ∨ second.Encloses outer inner
  | .choice first second => first.Encloses outer inner ∨ second.Encloses outer inner
  | .capture group body => (group = outer ∧ inner ∈ body.groups) ∨ body.Encloses outer inner
  | .repeated body _ => body.Encloses outer inner
  | .look _ _ body => body.Encloses outer inner

theorem Encloses.mem_groups (encloses : pattern.Encloses outer inner) :
    inner ∈ pattern.groups := by
  induction pattern <;> simp_all [Encloses, groups] <;> grind

theorem range'_of_append {start : Nat} {before after : List Nat}
    (numbered : before ++ after = List.range' start (before ++ after).length) :
    before = List.range' start before.length ∧
      after = List.range' (start + before.length) after.length := by
  rw [List.length_append, ← List.range'_append_1] at numbered
  exact List.append_inj numbered (by simp)

theorem encloses_of_scopes {start place other scope : Nat}
    (numbered : pattern.groups = List.range' start pattern.groups.length)
    (within : pattern.scopes[place]? = some scope) (behind : place < other)
    (inside : other ≤ place + scope) : pattern.Encloses (start + place) (start + other) := by
  induction pattern generalizing start place other with
  | empty | one set | boundary side lines => simp [scopes] at within
  | sequence first second hfirst hsecond | choice first second hfirst hsecond =>
    obtain ⟨numbered, numbered'⟩ := range'_of_append numbered
    rw [scopes, List.getElem?_append] at within
    split at within
    · exact .inl (hfirst numbered within behind inside)
    · next less =>
      have later : second.Encloses (start + first.groups.length + (place - first.scopes.length))
          (start + first.groups.length + (other - first.scopes.length)) :=
        hsecond numbered' within (by omega) (by omega)
      rw [← length_scopes, Nat.add_assoc, Nat.add_assoc, Nat.add_sub_cancel' (by omega),
        Nat.add_sub_cancel' (by omega)] at later
      exact .inr later
  | capture group body ih =>
    rw [groups, List.length_cons, List.range'_succ, List.cons.injEq] at numbered
    obtain ⟨rfl, numbered⟩ := numbered
    rw [scopes] at within
    cases place with
    | zero =>
      obtain rfl : body.scopes.length = scope := by simpa using within
      rw [length_scopes] at inside
      refine .inl ⟨rfl, ?_⟩
      rw [numbered, List.mem_range'_1]
      omega
    | succ place =>
      have later : body.Encloses (group + 1 + place) (group + 1 + (other - 1)) :=
        ih numbered (by simpa using within) (by omega) (by omega)
      rw [Nat.add_right_comm, Nat.add_assoc group 1, Nat.add_sub_cancel' (by omega)] at later
      exact .inr later
  | repeated body repetition ih | look side negated body ih =>
    exact ih numbered within behind inside

theorem captures_sequence
    (mem : ⟨j, captures⟩ ∈ (sequence first second).ways input .forward ⟨i, []⟩) :
    ∃ k before after, ⟨k, before⟩ ∈ first.ways input .forward ⟨i, []⟩ ∧
      ⟨j, after⟩ ∈ second.ways input .forward ⟨k, []⟩ ∧ captures = after ++ before := by
  obtain ⟨⟨k, before⟩, earlier, later⟩ := List.mem_flatMap.mp mem
  have alone : (second.shift 0).ways input .forward ⟨k, before⟩ =
      (second.ways input .forward ⟨k, []⟩).map (·.within 0 before) := ways_shift_from 0 k before
  rw [shift_zero] at alone
  rw [alone] at later
  obtain ⟨⟨k', after⟩, own, same⟩ := List.mem_map.mp later
  obtain ⟨rfl, rfl⟩ := Point.mk.inj same
  have unmoved : after.map (Capture.shift 0) = after := List.map_id _
  exact ⟨k, before, after, earlier, own, by rw [unmoved]⟩

theorem captures_capture {group : Nat}
    (mem : ⟨j, captures⟩ ∈ (capture group body).ways input .forward ⟨i, []⟩) :
    ∃ inside, ⟨j, inside⟩ ∈ body.ways input .forward ⟨i, []⟩ ∧
      captures = ⟨group, i, j⟩ :: inside := by
  obtain ⟨⟨k, inside⟩, mem', same⟩ := List.mem_map.mp mem
  obtain ⟨rfl, rfl⟩ := Point.mk.inj same
  have le : i ≤ k :=
    Spans.le ((ways_reaches input body .forward ⟨i, []⟩ k).mp ⟨_, mem', rfl⟩)
  exact ⟨inside, mem', by simp [Nat.min_eq_left le, Nat.max_eq_right le]⟩

theorem captures_repeated {repetition : Repetition}
    (mem : ⟨j, captures⟩ ∈ (repeated body repetition).ways input .forward ⟨i, []⟩) :
    captures = [] ∨ ∃ k, ⟨j, captures⟩ ∈ body.ways input .forward ⟨k, []⟩ := by
  rcases Ways.mem_repeated (ways_reaches input body .forward) mem with
    ⟨-, same⟩ | ⟨_, _, k, -, -, -, last⟩
  · exact .inl (Point.mk.inj same).2
  · exact .inr ⟨k, last⟩

theorem captures_eq_nil (none : pattern.groups = [])
    (mem : ⟨j, captures⟩ ∈ pattern.ways input .forward ⟨i, []⟩) : captures = [] :=
  List.eq_nil_iff_forall_not_mem.mpr fun _ captured => by
    have inside := mem_groups_of_captured mem captured
    simp [none] at inside

theorem captures_look {side : Direction} {negated : Bool} (quiet : (look side negated body).Quiet)
    (mem : ⟨j, captures⟩ ∈ (look side negated body).ways input .forward ⟨i, []⟩) :
    captures = [] := by
  rcases quiet with rfl | none
  · exact (Point.mk.inj (Ways.eq_of_mem_look mem)).2
  · have ungrouped : (look side negated body).groups = [] := none
    exact captures_eq_nil ungrouped mem

theorem Quiet.nodup_captured (quiet : pattern.Quiet) (nodup : pattern.groups.Nodup)
    (mem : ⟨j, captures⟩ ∈ pattern.ways input .forward ⟨i, []⟩) :
    (captures.map (·.group)).Nodup := by
  have within {pattern : Pattern} {i j : Nat} {captures : List Capture}
      (mem : ⟨j, captures⟩ ∈ pattern.ways input .forward ⟨i, []⟩) :
      ∀ group ∈ captures.map (·.group), group ∈ pattern.groups := by
    rw [List.forall_mem_map]
    exact fun capture captured => mem_groups_of_captured mem captured
  induction pattern generalizing i j captures with
  | empty | one set | boundary side lines => simp [captures_eq_nil rfl mem]
  | sequence first second hfirst hsecond =>
    obtain ⟨k, before, after, earlier, later, rfl⟩ := captures_sequence mem
    rw [groups, List.nodup_append'] at nodup
    rw [List.map_append, List.nodup_append']
    refine ⟨hsecond quiet.2 nodup.2.1 later, hfirst quiet.1 nodup.1 earlier, ?_⟩
    exact fun group captured captured' =>
      nodup.2.2 (within earlier group captured') (within later group captured)
  | choice first second hfirst hsecond =>
    rw [groups, List.nodup_append'] at nodup
    rcases List.mem_append.mp mem with mem | mem
    · exact hfirst quiet.1 nodup.1 mem
    · exact hsecond quiet.2 nodup.2.1 mem
  | capture group body ih =>
    obtain ⟨inside, mem', rfl⟩ := captures_capture mem
    rw [groups, List.nodup_cons] at nodup
    rw [List.map_cons, List.nodup_cons]
    exact ⟨fun captured => nodup.1 (within mem' group captured), ih quiet nodup.2 mem'⟩
  | repeated body repetition ih =>
    rcases captures_repeated mem with rfl | ⟨k, last⟩
    · simp
    · exact ih quiet nodup last
  | look side negated body ih => simp [captures_look quiet mem]

theorem Quiet.exists_enclosing (quiet : pattern.Quiet) (nodup : pattern.groups.Nodup)
    (mem : ⟨j, captures⟩ ∈ pattern.ways input .forward ⟨i, []⟩) {capture : Capture}
    (captured : capture ∈ captures) (encloses : pattern.Encloses outer capture.group) :
    ∃ around ∈ captures, around.group = outer ∧ around.start ≤ capture.start ∧
      capture.stop ≤ around.stop := by
  induction pattern generalizing i j captures with
  | empty | one set | boundary side lines => exact encloses.elim
  | sequence first second hfirst hsecond =>
    obtain ⟨k, before, after, earlier, later, rfl⟩ := captures_sequence mem
    rw [groups, List.nodup_append'] at nodup
    -- The capture is on the side that its group is written on.
    rcases encloses with encloses | encloses
    · have captured' : capture ∈ before := (List.mem_append.mp captured).resolve_left
        fun captured => nodup.2.2 encloses.mem_groups (mem_groups_of_captured later captured)
      obtain ⟨around, mem', found⟩ := hfirst quiet.1 nodup.1 earlier captured' encloses
      exact ⟨around, List.mem_append_right _ mem', found⟩
    · have captured' : capture ∈ after := (List.mem_append.mp captured).resolve_right
        fun captured => nodup.2.2 (mem_groups_of_captured earlier captured) encloses.mem_groups
      obtain ⟨around, mem', found⟩ := hsecond quiet.2 nodup.2.1 later captured' encloses
      exact ⟨around, List.mem_append_left _ mem', found⟩
  | choice first second hfirst hsecond =>
    rw [groups, List.nodup_append'] at nodup
    rcases List.mem_append.mp mem with mem | mem
    · refine hfirst quiet.1 nodup.1 mem captured (encloses.resolve_right fun encloses => ?_)
      exact nodup.2.2 (mem_groups_of_captured mem captured) encloses.mem_groups
    · refine hsecond quiet.2 nodup.2.1 mem captured (encloses.resolve_left fun encloses => ?_)
      exact nodup.2.2 encloses.mem_groups (mem_groups_of_captured mem captured)
  | capture group body ih =>
    obtain ⟨inside, mem', rfl⟩ := captures_capture mem
    rw [groups, List.nodup_cons] at nodup
    have inner : capture.group ∈ body.groups :=
      encloses.elim And.right Encloses.mem_groups
    have captured' : capture ∈ inside := (List.mem_cons.mp captured).resolve_left
      fun same => nodup.1 (by rwa [same] at inner)
    rcases encloses with ⟨rfl, -⟩ | encloses
    · have between := @Quiet.between _ body _ _ _ quiet mem' captured'
      obtain ⟨start, -, stop⟩ := between.resolve_left (by simp)
      exact ⟨_, List.mem_cons_self, rfl, start, stop⟩
    · obtain ⟨around, mem'', found⟩ := ih quiet nodup.2 mem' captured' encloses
      exact ⟨around, List.mem_cons_of_mem _ mem'', found⟩
  | repeated body repetition ih =>
    rcases captures_repeated mem with rfl | ⟨k, last⟩
    · simp at captured
    · exact ih quiet nodup last captured encloses
  | look side negated body ih => simp [captures_look quiet mem] at captured

theorem find?_group {capture : Capture} (nodup : (captures.map (·.group)).Nodup)
    (captured : capture ∈ captures) : captures.find? (·.group = capture.group) = some capture := by
  induction captures with
  | nil => simp at captured
  | cons first rest ih =>
    rw [List.map_cons, List.nodup_cons] at nodup
    rcases List.mem_cons.mp captured with rfl | later
    · simp
    · have other : first.group ≠ capture.group := fun same =>
        nodup.1 (same ▸ List.mem_map_of_mem later)
      rw [List.find?_cons_of_neg (by simpa using other), ih nodup.2 later]

theorem Quiet.find?_enclosing (quiet : pattern.Quiet) (nodup : pattern.groups.Nodup)
    (mem : ⟨j, captures⟩ ∈ pattern.ways input .forward ⟨i, []⟩) {capture : Capture}
    (found : captures.find? (·.group = inner) = some capture)
    (encloses : pattern.Encloses outer inner) :
    ∃ around, captures.find? (·.group = outer) = some around ∧ around.start ≤ capture.start ∧
      capture.stop ≤ around.stop := by
  obtain rfl : capture.group = inner := by simpa using List.find?_some found
  obtain ⟨around, mem', rfl, start, stop⟩ :=
    quiet.exists_enclosing nodup mem (List.mem_of_find?_eq_some found) encloses
  exact ⟨around, find?_group (quiet.nodup_captured nodup mem) mem', start, stop⟩

end LineGrammar.Pattern
