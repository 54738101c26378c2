import LineGrammar.Proofs.Grammar.BodySpans
import LineGrammar.Proofs.Pattern.Groups
import LineGrammar.Proofs.Tree.Bodies
import LineGrammar.Proofs.Tree.Derivation

/-! What the ways of a body show of its variables. The groups of a body are numbered in the order
of its variables, so the captures at the end of a way tell which variables it passed and where;
bodies put together show what their parts show, one after another. -/

namespace LineGrammar

/-- What captures show of variables whose groups are numbered from `first` on. -/
def shown (first : Nat) (names : List String) (captures : List Capture) : List Tree.Use :=
  (names.zipIdx first).filterMap fun (name, group) =>
    (captures.find? (·.group = group)).map fun capture =>
      ⟨name, capture.start, capture.stop, true⟩

section

variable {first count : Nat} {names : List String} {captures earlier later : List Capture}

@[simp] theorem shown_nil (first : Nat) (names : List String) : shown first names [] = [] := by
  simp [shown]

@[simp] theorem shown_no_names (first : Nat) (captures : List Capture) :
    shown first [] captures = [] := rfl

theorem shown_cons (first : Nat) (name : String) (names : List String) (captures : List Capture) :
    shown first (name :: names) captures =
      ((captures.find? (·.group = first)).map fun capture =>
        ⟨name, capture.start, capture.stop, true⟩).toList ++ shown (first + 1) names captures := by
  cases found : captures.find? (·.group = first) <;> simp [shown, found]

theorem shown_append (first : Nat) (names others : List String) (captures : List Capture) :
    shown first (names ++ others) captures =
      shown first names captures ++ shown (first + names.length) others captures := by
  rw [shown, List.zipIdx_append, List.filterMap_append]
  rfl

theorem shown_congr (same : ∀ group, first ≤ group → group < first + names.length →
      captures.find? (·.group = group) = later.find? (·.group = group)) :
    shown first names captures = shown first names later := by
  refine List.filterMap_congr fun entry mem => ?_
  obtain ⟨lower, upper, -⟩ := List.mem_zipIdx mem
  simp only [same entry.2 lower upper]

theorem shown_later (apart : ∀ capture ∈ later,
      capture.group < first ∨ first + names.length ≤ capture.group) :
    shown first names (later ++ captures) = shown first names captures := by
  refine shown_congr fun group lower upper => ?_
  have missing : later.find? (·.group = group) = none := by
    rw [List.find?_eq_none]
    intro capture mem same
    have := apart capture mem
    have : capture.group = group := by simpa using same
    omega
  rw [List.find?_append, missing, Option.none_or]

theorem shown_shift (before : ∀ capture ∈ earlier, capture.group < first + count) :
    shown (first + count) names (captures.map (Capture.shift count) ++ earlier) =
      shown first names captures := by
  induction names generalizing first with
  | nil => rfl
  | cons name rest ih =>
    have others := ih fun capture mem => by
      have := before capture mem
      show capture.group < first + 1 + count
      omega
    have missing : earlier.find? (·.group = first + count) = none := by
      rw [List.find?_eq_none]
      intro capture mem same
      have := before capture mem
      have : capture.group = first + count := by simpa using same
      omega
    have shifted : (captures.map (Capture.shift count)).find? (·.group = first + count) =
        (captures.find? (·.group = first)).map (Capture.shift count) := by
      rw [List.find?_map]
      simp [Capture.shift]
    rw [shown_cons, shown_cons, Nat.add_right_comm, others, List.find?_append, shifted, missing,
      Option.or_none, Option.map_map]
    rfl

end

namespace Body

open Pattern

def Numbered (body : Body) : Prop := body.pattern.groups = List.range' 1 body.names.length

variable {input : Array Char} {body first second : Body} {bodies : List Body} {i j : Nat}
  {uses : List Tree.Use}

theorem numbered_empty : empty.Numbered := rfl

theorem map_add_range' (count size : Nat) :
    (List.range' 1 size).map (· + count) = List.range' (1 + count) size := by
  simp only [Nat.add_comm _ count]
  exact List.map_add_range' ..

theorem Numbered.map_shift (numbered : body.Numbered) (count : Nat) :
    (body.pattern.shift count).groups = List.range' (1 + count) body.names.length := by
  rw [groups_shift, numbered, map_add_range']

theorem Numbered.append (hfirst : first.Numbered) (hsecond : second.Numbered) :
    (first.append second).Numbered := by
  have later := hsecond.map_shift first.names.length
  rw [Body.pattern, shift_ofTerms, groups_ofTerms] at later
  rw [Numbered, Body.pattern, groups_ofTerms] at hfirst
  rw [Numbered, Body.pattern, groups_ofTerms, Body.append, List.flatMap_append, hfirst, later,
    List.length_append, List.range'_append_1]

theorem groups_branches (each : ∀ body ∈ bodies, body.Numbered) :
    (branches bodies).flatMap groups = List.range' 1 (bodies.flatMap names).length := by
  induction bodies with
  | nil => rfl
  | cons body rest ih =>
    have others := ih fun body mem => each body (List.mem_cons_of_mem _ mem)
    have shifted : ((branches rest).map (shift body.names.length)).flatMap groups =
        List.range' (1 + body.names.length) (rest.flatMap names).length := by
      simp only [List.flatMap_map, groups_shift]
      rw [← List.map_flatMap, others, map_add_range']
    rw [branches, List.flatMap_cons, shifted, each body List.mem_cons_self, List.flatMap_cons,
      List.length_append, List.range'_append_1]

theorem numbered_choice (each : ∀ body ∈ bodies, body.Numbered) : (choice bodies).Numbered :=
  (groups_ofBranches _).trans (groups_branches each)

theorem Numbered.capture (name : String) (numbered : body.Numbered) :
    (body.capture name).Numbered := by
  have inside := numbered.map_shift 1
  rw [Numbered, Body.pattern, Body.capture, ofTerms, groups, inside]
  rfl

theorem Numbered.look (side : Direction) (negated : Bool) (numbered : body.Numbered) :
    (body.look side negated).Numbered := numbered

theorem hereditary_numbered : Hereditary Numbered where
  empty := numbered_empty
  append := .append
  choice := numbered_choice
  capture name _ numbered := numbered.capture name
  repeated _ _ numbered := numbered

theorem Numbered.group_mem (numbered : body.Numbered) {reached : Point}
    (mem : reached ∈ body.pattern.ways input .forward ⟨i, []⟩) {capture : Capture}
    (captured : capture ∈ reached.captures) :
    1 ≤ capture.group ∧ capture.group < 1 + body.names.length := by
  have inside := Pattern.mem_groups_of_captured mem captured
  rwa [numbered, List.mem_range'_1] at inside

/-- Some way of the body from `i` to `j` shows the uses. -/
def Shows (input : Array Char) (body : Body) (i j : Nat) (uses : List Tree.Use) : Prop :=
  ∃ captures, ⟨j, captures⟩ ∈ body.pattern.ways input .forward ⟨i, []⟩ ∧
    uses = shown 1 body.names captures

theorem Shows.spans (shows : body.Shows input i j uses) : body.Spans input i j := by
  obtain ⟨captures, mem, -⟩ := shows
  exact (ways_reaches input body.pattern .forward ⟨i, []⟩ j).mp ⟨_, mem, rfl⟩

theorem Spans.exists_shows (spans : body.Spans input i j) : ∃ uses, body.Shows input i j uses := by
  obtain ⟨⟨_, captures⟩, mem, rfl⟩ :=
    (ways_reaches input body.pattern .forward ⟨i, []⟩ j).mpr spans
  exact ⟨_, captures, mem, rfl⟩

theorem shows_empty (shows : empty.Shows input i j uses) : i = j ∧ uses = [] := by
  obtain ⟨captures, mem, rfl⟩ := shows
  obtain ⟨rfl, -⟩ := Point.mk.inj (List.mem_singleton.mp mem)
  exact ⟨rfl, rfl⟩

theorem shows_no_names (none : body.names = []) (shows : body.Shows input i j uses) :
    uses = [] := by
  obtain ⟨captures, -, rfl⟩ := shows
  rw [none, shown_no_names]

theorem Numbered.shows_append (hfirst : first.Numbered) (hsecond : second.Numbered)
    (shows : (first.append second).Shows input i j uses) :
    ∃ k before after, first.Shows input i k before ∧ second.Shows input k j after ∧
      uses = before ++ after := by
  obtain ⟨captures, mem, rfl⟩ := shows
  rw [Body.pattern, Body.append, ways_ofTerms_append, ← shift_ofTerms] at mem
  obtain ⟨⟨k, earlier⟩, before, after⟩ := List.mem_flatMap.mp mem
  rw [ways_shift_from] at after
  obtain ⟨⟨l, later⟩, own, reached⟩ := List.mem_map.mp after
  obtain ⟨rfl, rfl⟩ : l = j ∧ later.map (Capture.shift first.names.length) ++ earlier = captures :=
    Point.mk.inj reached
  refine ⟨k, _, _, ⟨earlier, before, rfl⟩, ⟨later, own, rfl⟩, ?_⟩
  have ahead : ∀ capture ∈ later.map (Capture.shift first.names.length),
      capture.group < 1 ∨ 1 + first.names.length ≤ capture.group := by
    simp only [List.mem_map]
    rintro _ ⟨capture, captured, rfl⟩
    have := (hsecond.group_mem own captured).1
    exact .inr (by simp only [Capture.shift]; omega)
  have behind : ∀ capture ∈ earlier, capture.group < 1 + first.names.length :=
    fun capture captured => (hfirst.group_mem before captured).2
  rw [Body.append, shown_append, shown_later ahead, shown_shift behind]

theorem Numbered.shows_concat_cons (numbered : body.Numbered)
    (others : ∀ body ∈ bodies, body.Numbered)
    (shows : (concat (body :: bodies)).Shows input i j uses) :
    ∃ k before after, body.Shows input i k before ∧ (concat bodies).Shows input k j after ∧
      uses = before ++ after :=
  numbered.shows_append (hereditary_numbered.concat others) shows

theorem exists_of_branches (each : ∀ body ∈ bodies, body.Numbered) {branch : Pattern}
    (mem : branch ∈ branches bodies) {captures : List Capture}
    (mem' : ⟨j, captures⟩ ∈ branch.ways input .forward ⟨i, []⟩) :
    ∃ body ∈ bodies, body.Shows input i j (shown 1 (bodies.flatMap names) captures) := by
  induction bodies generalizing branch captures with
  | nil => simp [branches] at mem
  | cons body rest ih =>
    rw [List.flatMap_cons, shown_append]
    rcases List.mem_cons.mp mem with rfl | mem
    · refine ⟨body, List.mem_cons_self, captures, mem', ?_⟩
      have none : shown (1 + body.names.length) (rest.flatMap names) (captures ++ []) = [] := by
        rw [shown_later, shown_nil]
        exact fun capture captured =>
          .inl ((each body List.mem_cons_self).group_mem mem' captured).2
      rw [List.append_nil] at none
      rw [none, List.append_nil]
    · obtain ⟨branch, among, rfl⟩ := List.mem_map.mp mem
      rw [ways_shift_from] at mem'
      obtain ⟨⟨l, inner⟩, inside, reached⟩ := List.mem_map.mp mem'
      obtain ⟨rfl, rfl⟩ : l = j ∧ inner.map (Capture.shift body.names.length) ++ [] = captures :=
        Point.mk.inj reached
      obtain ⟨found, mem, shows⟩ :=
        ih (fun body mem => each body (List.mem_cons_of_mem _ mem)) among inside
      refine ⟨found, List.mem_cons_of_mem _ mem, ?_⟩
      have others : ∀ body ∈ rest, body.Numbered := fun body mem =>
        each body (List.mem_cons_of_mem _ mem)
      have ahead : ∀ capture ∈ inner.map (Capture.shift body.names.length),
          capture.group < 1 ∨ 1 + body.names.length ≤ capture.group := by
        simp only [List.mem_map]
        rintro _ ⟨capture, captured, rfl⟩
        have own := Pattern.mem_groups_of_captured inside captured
        have numbered : capture.group ∈ (branches rest).flatMap groups :=
          List.mem_flatMap.mpr ⟨branch, among, own⟩
        rw [groups_branches others, List.mem_range'_1] at numbered
        exact .inr (by simp only [Capture.shift]; omega)
      rw [shown_later ahead, shown_nil, List.nil_append, shown_shift (by simp)]
      exact shows

theorem Numbered.shows_choice (each : ∀ body ∈ bodies, body.Numbered) (some : bodies ≠ [])
    (shows : (choice bodies).Shows input i j uses) :
    ∃ body ∈ bodies, body.Shows input i j uses := by
  obtain ⟨captures, mem, rfl⟩ := shows
  have branched : branches bodies ≠ [] := by
    cases bodies with
    | nil => exact absurd rfl some
    | cons body rest => simp [branches]
  change _ ∈ (ofBranches (branches bodies)).ways input .forward ⟨i, []⟩ at mem
  rw [ways_ofBranches branched] at mem
  obtain ⟨branch, among, inside⟩ := List.mem_flatMap.mp mem
  exact exists_of_branches each among inside

theorem shows_capture {name : String} (shows : (body.capture name).Shows input i j uses) :
    ∃ inner, body.Shows input i j inner ∧ uses = ⟨name, i, j, true⟩ :: inner := by
  obtain ⟨captures, mem, rfl⟩ := shows
  obtain ⟨⟨k, outer⟩, closed, reached⟩ := List.mem_map.mp mem
  rw [ways_shift_from] at closed
  obtain ⟨⟨l, inner⟩, inside, shifted⟩ := List.mem_map.mp closed
  obtain ⟨rfl, rfl⟩ : l = k ∧ inner.map (Capture.shift 1) ++ [] = outer := Point.mk.inj shifted
  obtain ⟨rfl, rfl⟩ : l = j ∧ ⟨1, min i l, max i l⟩ :: (inner.map (Capture.shift 1) ++ []) =
    captures := Point.mk.inj reached
  refine ⟨_, ⟨inner, inside, rfl⟩, ?_⟩
  have le : i ≤ l :=
    Pattern.Spans.le ((ways_reaches input body.pattern .forward ⟨i, []⟩ l).mp ⟨_, inside, rfl⟩)
  have others : shown (1 + 1) body.names ([⟨1, min i l, max i l⟩] ++
      (inner.map (Capture.shift 1) ++ [])) = shown 1 body.names inner := by
    rw [shown_later (by simp), shown_shift (by simp)]
  rw [List.singleton_append] at others
  rw [Body.capture, shown_cons, others, List.find?_cons_of_pos (by simp)]
  simp [Nat.min_eq_left le, Nat.max_eq_right le]

theorem shows_repeated {sign : List Char} {repetition : Repetition}
    (shows : (body.repeated sign repetition).Shows input i j uses) :
    (repetition.min = 0 ∧ i = j ∧ uses = []) ∨
      ∃ further before k, repetition.AllowsFurther further ∧
        before + 1 = repetition.min + further ∧ Steps (body.Spans input) before i k ∧
          body.Shows input k j uses := by
  obtain ⟨captures, mem, rfl⟩ := shows
  rcases Ways.mem_repeated (ways_reaches input body.pattern .forward) mem with
    ⟨none, reached⟩ | ⟨further, before, k, allowed, total, steps, last⟩
  · obtain ⟨rfl, rfl⟩ := Point.mk.inj reached
    exact .inl ⟨none, rfl, shown_nil _ _⟩
  · exact .inr ⟨further, before, k, allowed, total, steps, captures, last, rfl⟩

theorem shows_look (shows : (body.look .forward true).Shows input i j uses) : uses = [] := by
  obtain ⟨captures, mem, rfl⟩ := shows
  obtain ⟨-, rfl⟩ := Point.mk.inj (Ways.eq_of_mem_look mem)
  exact shown_nil _ _

theorem quiet_append (hfirst : first.pattern.Quiet) (hsecond : second.pattern.Quiet) :
    (first.append second).pattern.Quiet := by
  have shifted := hsecond.shift first.names.length
  rw [Body.pattern, shift_ofTerms] at shifted
  exact hfirst.ofTerms_append shifted

theorem quiet_branches (each : ∀ body ∈ bodies, body.pattern.Quiet) :
    ∀ branch ∈ branches bodies, branch.Quiet := by
  induction bodies with
  | nil => simp [branches]
  | cons body rest ih =>
    have others := ih fun body mem => each body (List.mem_cons_of_mem _ mem)
    refine List.forall_mem_cons.mpr ⟨each body List.mem_cons_self, ?_⟩
    rw [List.forall_mem_map]
    exact fun branch mem => (others branch mem).shift _

theorem hereditary_quiet : Hereditary fun body => body.pattern.Quiet where
  empty := trivial
  append := quiet_append
  choice each := quiet_ofBranches (quiet_branches each)
  capture _ _ quiet := quiet.shift 1
  repeated _ _ quiet := quiet

theorem Shows.within (quiet : body.pattern.Quiet) (shows : body.Shows input i j uses) :
    ∀ use ∈ uses, i ≤ use.start ∧ use.start ≤ use.stop ∧ use.stop ≤ j := by
  obtain ⟨captures, mem, rfl⟩ := shows
  intro use seen
  obtain ⟨⟨name, group⟩, -, found⟩ := List.mem_filterMap.mp seen
  obtain ⟨capture, first, rfl⟩ := Option.map_eq_some_iff.mp found
  exact (quiet.between mem (List.mem_of_find?_eq_some first)).resolve_left (by simp)

end Body

end LineGrammar
