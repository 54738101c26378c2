import LineGrammar.Proofs.Pattern.Frame
import LineGrammar.Proofs.Pattern.Numbering

/-! The groups of a pattern and what its ways capture. A way adds captures of the pattern's own
groups and keeps what was captured before; a repetition adds those of its last iteration alone.
Where the groups are numbered from and what was captured earlier makes no other difference. -/

namespace LineGrammar

def Capture.shift (count : Nat) (capture : Capture) : Capture :=
  { capture with group := capture.group + count }

def Point.within (count : Nat) (earlier : List Capture) (point : Point) : Point :=
  { point with captures := point.captures.map (Capture.shift count) ++ earlier }

namespace Ways

/-- Groups opened before and captures made before are carried along and change nothing else. -/
def Shifts (count : Nat) (ways ways' : Ways) : Prop :=
  ∀ earlier point, ways' (point.within count earlier) =
    (ways point).map (·.within count earlier)

variable {count : Nat} {ways ways' first first' second second' : Ways}

theorem Shifts.sequence (hfirst : Shifts count first first')
    (hsecond : Shifts count second second') :
    Shifts count (first.sequence second) (first'.sequence second') := by
  intro earlier point
  simp only [Ways.sequence, hfirst earlier point, List.flatMap_map, List.map_flatMap,
    hsecond earlier _]

theorem Shifts.choice (hfirst : Shifts count first first')
    (hsecond : Shifts count second second') :
    Shifts count (first.choice second) (first'.choice second') := by
  intro earlier point
  simp only [Ways.choice, hfirst earlier point, hsecond earlier point, List.map_append]

theorem Shifts.capture (group : Nat) (hbody : Shifts count ways ways') :
    Shifts count (ways.capture group) (ways'.capture (group + count)) := by
  intro earlier point
  simp only [Ways.capture, hbody earlier point, List.map_map]
  rfl

theorem Shifts.look (negated : Bool) (hbody : Shifts count ways ways') :
    Shifts count (ways.look negated) (ways'.look negated) := by
  intro earlier point
  simp only [Ways.look, hbody earlier point, List.head?_map]
  cases (ways point).head? <;> cases negated <;> rfl

theorem Shifts.exactly (hbody : Shifts count ways ways') (outer earlier : List Capture)
    (times : Nat) (point : Point) :
    ways'.exactly (outer.map (Capture.shift count) ++ earlier) times (point.within count earlier) =
      (ways.exactly outer times point).map (·.within count earlier) := by
  induction times generalizing point with
  | zero => rfl
  | succ times ih =>
    have started := hbody earlier { point with captures := outer }
    refine (congrArg (List.flatMap _) started).trans ?_
    rw [List.flatMap_map]
    simp only [Ways.exactly, List.map_flatMap, ih]

theorem Shifts.upTo (hbody : Shifts count ways ways') (outer earlier : List Capture)
    (greedy : Bool) (times : Nat) (point : Point) :
    ways'.upTo (outer.map (Capture.shift count) ++ earlier) greedy times
        (point.within count earlier) =
      (ways.upTo outer greedy times point).map (·.within count earlier) := by
  induction times generalizing point with
  | zero => rfl
  | succ times ih =>
    have started := hbody earlier { point with captures := outer }
    have again : (ways' { point.within count earlier with
          captures := outer.map (Capture.shift count) ++ earlier }).flatMap (fun reached =>
            if reached.position = (point.within count earlier).position then []
            else ways'.upTo (outer.map (Capture.shift count) ++ earlier) greedy times reached) =
        ((ways { point with captures := outer }).flatMap fun reached =>
          if reached.position = point.position then []
          else ways.upTo outer greedy times reached).map (·.within count earlier) := by
      refine (congrArg (List.flatMap _) started).trans ?_
      rw [List.flatMap_map, List.map_flatMap]
      congr 1
      funext reached
      rw [ih, apply_ite (List.map _), List.map_nil]
      rfl
    simp only [Ways.upTo, again]
    cases greedy <;> simp

theorem Shifts.repeated (input : Array Char) (direction : Direction) (repetition : Repetition)
    (hbody : Shifts count ways ways') :
    Shifts count (ways.repeated input direction repetition)
      (ways'.repeated input direction repetition) := by
  intro earlier point
  have required := hbody.exactly point.captures earlier repetition.min point
  refine (congrArg (List.flatMap _) required).trans ?_
  rw [List.flatMap_map]
  simp only [Ways.repeated, List.map_flatMap, ← hbody.upTo]
  rfl

variable {relation : Nat → Nat → Prop} {outer : List Capture} {point reached : Point}

theorem captures_of_mem_one {input : Array Char} {set : CodeSet} {direction : Direction}
    (mem : reached ∈ one input set direction point) : reached.captures = point.captures := by
  unfold one at mem
  split at mem
  · simp at mem
  · split at mem
    · obtain rfl := List.mem_singleton.mp mem
      rfl
    · simp at mem

theorem eq_of_mem_boundary {input : Array Char} {side : Direction} {lines : Bool}
    (mem : reached ∈ boundary input side lines point) : reached = point := by
  unfold boundary at mem
  split at mem
  · exact List.mem_singleton.mp mem
  · split at mem
    · exact List.mem_singleton.mp mem
    · simp at mem

theorem eq_of_mem_look (mem : reached ∈ ways.look true point) : reached = point := by
  rw [look] at mem
  split at mem
  · exact List.mem_singleton.mp mem
  · simp at mem

theorem exists_of_mem_look (mem : reached ∈ ways.look false point) :
    ∃ found ∈ ways point, reached = { point with captures := found.captures } := by
  rw [look] at mem
  split at mem
  · simp at mem
  · next found first => exact ⟨found, List.mem_of_mem_head? first, List.mem_singleton.mp mem⟩

theorem mem_exactly (reaches : ways.Reaches relation) {times : Nat}
    (mem : reached ∈ ways.exactly outer (times + 1) point) :
    ∃ k, Steps relation times point.position k ∧ reached ∈ ways ⟨k, outer⟩ := by
  induction times generalizing point with
  | zero =>
    obtain ⟨last, mem', stays⟩ := List.mem_flatMap.mp mem
    obtain rfl := List.mem_singleton.mp stays
    exact ⟨point.position, rfl, mem'⟩
  | succ times ih =>
    obtain ⟨middle, first, later⟩ := List.mem_flatMap.mp mem
    obtain ⟨k, steps, last⟩ := ih later
    have step := (reaches _ _).mp ⟨middle, first, rfl⟩
    exact ⟨k, ⟨middle.position, step, steps⟩, last⟩

theorem mem_upTo (reaches : ways.Reaches relation) {greedy : Bool} {times : Nat}
    (mem : reached ∈ ways.upTo outer greedy times point) :
    reached = point ∨
      ∃ before < times, ∃ k,
        Steps relation before point.position k ∧ reached ∈ ways ⟨k, outer⟩ := by
  induction times generalizing point with
  | zero => exact .inl (List.mem_singleton.mp mem)
  | succ times ih =>
    have cases : reached = point ∨ reached ∈ (ways { point with captures := outer }).flatMap
        fun middle => if middle.position = point.position then []
          else ways.upTo outer greedy times middle := by
      cases greedy with
      | true => simpa [Ways.upTo, or_comm] using mem
      | false => simpa [Ways.upTo] using mem
    rcases cases with stays | again
    · exact .inl stays
    · obtain ⟨middle, first, later⟩ := List.mem_flatMap.mp again
      split at later
      · simp at later
      · rcases ih later with rfl | ⟨before, less, k, steps, last⟩
        · exact .inr ⟨0, by omega, point.position, rfl, first⟩
        · have step := (reaches _ _).mp ⟨middle, first, rfl⟩
          exact .inr ⟨before + 1, by omega, k, ⟨middle.position, step, steps⟩, last⟩

theorem mem_repeated (reaches : ways.Reaches relation) {input : Array Char}
    {direction : Direction} {repetition : Repetition}
    (mem : reached ∈ ways.repeated input direction repetition point) :
    (repetition.min = 0 ∧ reached = point) ∨
      ∃ further before k, repetition.AllowsFurther further ∧
        before + 1 = repetition.min + further ∧ Steps relation before point.position k ∧
          reached ∈ ways ⟨k, point.captures⟩ := by
  obtain ⟨middle, required, optional⟩ := List.mem_flatMap.mp mem
  have steps := (reaches.exactly point.captures repetition.min point _).mp ⟨middle, required, rfl⟩
  rcases mem_upTo reaches optional with rfl | ⟨before, less, k, later, last⟩
  · cases least : repetition.min with
    | zero =>
      rw [least] at required
      exact .inl ⟨rfl, List.mem_singleton.mp required⟩
    | succ times =>
      rw [least] at required
      obtain ⟨k, earlier, last⟩ := mem_exactly reaches required
      exact .inr ⟨0, times, k, fun most _ => Nat.zero_le _, rfl, earlier, last⟩
  · refine .inr ⟨before + 1, repetition.min + before, k, fun most bound => ?_, by omega,
      steps.trans later, last⟩
    simp only [further, Option.mem_def.mp bound] at less
    omega

end Ways

namespace Pattern

variable {input : Array Char} {pattern body : Pattern} {direction : Direction}
  {point reached : Point} {capture : Capture} {count i j : Nat}

def groups : Pattern → List Nat
  | .empty => []
  | .one _ => []
  | .boundary _ _ => []
  | .sequence first second => first.groups ++ second.groups
  | .choice first second => first.groups ++ second.groups
  | .capture group body => group :: body.groups
  | .repeated body _ => body.groups
  | .look _ _ body => body.groups

@[simp] theorem groups_shift (count : Nat) (pattern : Pattern) :
    (pattern.shift count).groups = pattern.groups.map (· + count) := by
  induction pattern <;> simp_all [shift, groups]

theorem groups_ofTerms (terms : List Pattern) : (ofTerms terms).groups = terms.flatMap groups := by
  induction terms with
  | nil => rfl
  | cons term rest ih =>
    cases rest with
    | nil => simp [ofTerms]
    | cons next rest => simpa [ofTerms, groups] using ih

theorem groups_ofBranches (branches : List Pattern) :
    (ofBranches branches).groups = branches.flatMap groups := by
  induction branches with
  | nil => rfl
  | cons branch rest ih =>
    cases rest with
    | nil => simp [ofBranches]
    | cons next rest => simpa [ofBranches, groups] using ih

theorem ways_shift (input : Array Char) (count : Nat) (pattern : Pattern) (direction : Direction) :
    Ways.Shifts count (pattern.ways input direction)
      ((pattern.shift count).ways input direction) := by
  induction pattern generalizing direction with
  | empty => exact fun _ _ => rfl
  | one set =>
    intro earlier point
    simp only [shift, ways, Ways.one, Point.within]
    cases direction.next? input point.position with
    | none => rfl
    | some next =>
      dsimp only
      split <;> rfl
  | boundary side lines =>
    intro earlier point
    simp only [shift, ways, Ways.boundary, Point.within]
    cases side.next? input point.position with
    | none => rfl
    | some next =>
      dsimp only
      split <;> rfl
  | sequence first second hfirst hsecond =>
    cases direction with
    | forward => exact (hfirst .forward).sequence (hsecond .forward)
    | backward => exact (hsecond .backward).sequence (hfirst .backward)
  | choice first second hfirst hsecond => exact (hfirst direction).choice (hsecond direction)
  | capture group body hbody => exact (hbody direction).capture group
  | repeated body repetition hbody => exact (hbody direction).repeated input direction repetition
  | look side negated body hbody => exact (hbody side).look negated

theorem ways_shift_from (count i : Nat) (earlier : List Capture) :
    (pattern.shift count).ways input direction ⟨i, earlier⟩ =
      (pattern.ways input direction ⟨i, []⟩).map (·.within count earlier) :=
  ways_shift input count pattern direction earlier ⟨i, []⟩

theorem own_of_captured (mem : reached ∈ pattern.ways input direction point)
    (captured : capture ∈ reached.captures) :
    capture ∈ point.captures ∨
      (capture.group ∈ pattern.groups ∧ capture.start ≤ capture.stop) := by
  induction pattern generalizing direction point reached with
  | empty =>
    obtain rfl := List.mem_singleton.mp mem
    exact .inl captured
  | one set => exact .inl (Ways.captures_of_mem_one mem ▸ captured)
  | boundary side lines => exact .inl (Ways.eq_of_mem_boundary mem ▸ captured)
  | sequence first second hfirst hsecond =>
    rw [groups, List.mem_append]
    cases direction with
    | forward =>
      obtain ⟨middle, before, after⟩ := List.mem_flatMap.mp mem
      rcases hsecond after captured with earlier | inside
      · exact (hfirst before earlier).imp_right (And.imp_left .inl)
      · exact .inr (inside.imp_left .inr)
    | backward =>
      obtain ⟨middle, before, after⟩ := List.mem_flatMap.mp mem
      rcases hfirst after captured with earlier | inside
      · exact (hsecond before earlier).imp_right (And.imp_left .inr)
      · exact .inr (inside.imp_left .inl)
  | choice first second hfirst hsecond =>
    rw [groups, List.mem_append]
    rcases List.mem_append.mp mem with mem | mem
    · exact (hfirst mem captured).imp_right (And.imp_left .inl)
    · exact (hsecond mem captured).imp_right (And.imp_left .inr)
  | capture group body hbody =>
    obtain ⟨inner, mem', rfl⟩ := List.mem_map.mp mem
    rcases List.mem_cons.mp captured with rfl | captured
    · exact .inr ⟨List.mem_cons_self, by simp only; omega⟩
    · exact (hbody mem' captured).imp_right (And.imp_left (List.mem_cons_of_mem _))
  | repeated body repetition hbody =>
    rcases Ways.mem_repeated (ways_reaches input body direction) mem with
      ⟨-, rfl⟩ | ⟨_, _, k, -, -, -, last⟩
    · exact .inl captured
    · have inside := hbody last captured
      exact inside
  | look side negated body hbody =>
    cases negated with
    | true => exact .inl (Ways.eq_of_mem_look mem ▸ captured)
    | false =>
      obtain ⟨found, mem', rfl⟩ := Ways.exists_of_mem_look mem
      exact hbody mem' captured

theorem group_mem (mem : reached ∈ pattern.ways input direction point)
    (captured : capture ∈ reached.captures) :
    capture ∈ point.captures ∨ capture.group ∈ pattern.groups :=
  (own_of_captured mem captured).imp_right And.left

theorem ordered_of_captured (mem : reached ∈ pattern.ways input direction ⟨i, []⟩)
    (captured : capture ∈ reached.captures) : capture.start ≤ capture.stop :=
  ((own_of_captured mem captured).resolve_left (by simp)).2

theorem ordered_of_find? {captures : List Capture} (found : pattern.find? input = some captures)
    (captured : capture ∈ captures) : capture.start ≤ capture.stop := by
  obtain ⟨start, -, matched⟩ := List.exists_of_findSome?_eq_some found
  obtain ⟨reached, first, rfl⟩ := Option.map_eq_some_iff.mp matched
  rw [matcher_follows] at first
  obtain ⟨way, mem, same⟩ := List.exists_of_findSome?_eq_some first
  obtain rfl := Option.some.inj same
  exact ordered_of_captured mem captured

theorem mem_groups_of_captured (mem : reached ∈ pattern.ways input direction ⟨i, []⟩)
    (captured : capture ∈ reached.captures) : capture.group ∈ pattern.groups :=
  (group_mem mem captured).resolve_left (by simp)

/-- Lookarounds keep no captures: they are negative, or there is nothing in them to capture. -/
def Quiet : Pattern → Prop
  | .empty => True
  | .one _ => True
  | .boundary _ _ => True
  | .sequence first second => first.Quiet ∧ second.Quiet
  | .choice first second => first.Quiet ∧ second.Quiet
  | .capture _ body => body.Quiet
  | .repeated body _ => body.Quiet
  | .look _ negated body => negated = true ∨ body.groups = []

theorem Quiet.shift (quiet : pattern.Quiet) (count : Nat) : (pattern.shift count).Quiet := by
  induction pattern <;> simp_all [Pattern.shift, Quiet]

theorem quiet_of_groups_eq_nil (none : pattern.groups = []) : pattern.Quiet := by
  induction pattern <;> simp_all [Quiet, groups]

theorem quiet_ofTerms_cons {term : Pattern} {rest : List Pattern} :
    (ofTerms (term :: rest)).Quiet ↔ term.Quiet ∧ (ofTerms rest).Quiet := by
  cases rest with
  | nil => exact (and_iff_left trivial).symm
  | cons next rest => rfl

theorem Quiet.ofTerms_append {terms others : List Pattern} (quiet : (ofTerms terms).Quiet)
    (quiet' : (ofTerms others).Quiet) : (ofTerms (terms ++ others)).Quiet := by
  induction terms with
  | nil => exact quiet'
  | cons term rest ih =>
    rw [List.cons_append, quiet_ofTerms_cons]
    rw [quiet_ofTerms_cons] at quiet
    exact ⟨quiet.1, ih quiet.2⟩

theorem quiet_ofBranches {branches : List Pattern} (each : ∀ branch ∈ branches, branch.Quiet) :
    (ofBranches branches).Quiet := by
  induction branches with
  | nil => trivial
  | cons branch rest ih =>
    cases rest with
    | nil => exact each branch List.mem_cons_self
    | cons next rest =>
      exact ⟨each branch List.mem_cons_self,
        ih fun branch mem => each branch (List.mem_cons_of_mem _ mem)⟩

theorem Quiet.between (quiet : pattern.Quiet) (mem : reached ∈ pattern.ways input .forward point)
    (captured : capture ∈ reached.captures) :
    capture ∈ point.captures ∨ (point.position ≤ capture.start ∧ capture.start ≤ capture.stop ∧
      capture.stop ≤ reached.position) := by
  have ahead {pattern : Pattern} {point reached : Point}
      (mem : reached ∈ pattern.ways input .forward point) : point.position ≤ reached.position :=
    Spans.le ((ways_reaches input pattern .forward point _).mp ⟨reached, mem, rfl⟩)
  induction pattern generalizing point reached with
  | empty | one set | boundary side lines =>
    exact .inl ((group_mem mem captured).resolve_right (by simp [groups]))
  | sequence first second hfirst hsecond =>
    obtain ⟨middle, before, after⟩ := List.mem_flatMap.mp mem
    have := ahead before
    have := ahead after
    rcases hsecond quiet.2 after captured with earlier | inside
    · rcases hfirst quiet.1 before earlier with earliest | inside
      · exact .inl earliest
      · exact .inr (by omega)
    · exact .inr (by omega)
  | choice first second hfirst hsecond =>
    rcases List.mem_append.mp mem with mem | mem
    · exact hfirst quiet.1 mem captured
    · exact hsecond quiet.2 mem captured
  | capture group body hbody =>
    obtain ⟨inner, mem', rfl⟩ := List.mem_map.mp mem
    have le := ahead mem'
    rcases List.mem_cons.mp captured with rfl | captured
    · exact .inr (by simp [le])
    · have inside := hbody quiet mem' captured
      exact inside
  | repeated body repetition hbody =>
    rcases Ways.mem_repeated (ways_reaches input body .forward) mem with
      ⟨-, rfl⟩ | ⟨_, _, k, -, -, steps, last⟩
    · exact .inl captured
    · have le := steps.le fun _ _ => Spans.le
      rcases hbody quiet last captured with earlier | inside
      · exact .inl earlier
      · exact .inr (by simp only at inside; omega)
  | look side negated body hbody =>
    left
    rcases quiet with rfl | none
    · exact Ways.eq_of_mem_look mem ▸ captured
    · exact (group_mem mem captured).resolve_right (by simp [groups, none])

end Pattern

end LineGrammar
