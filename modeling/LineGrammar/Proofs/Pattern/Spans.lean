import LineGrammar.Proofs.Pattern.Ways
import LineGrammar.Proofs.Steps

/-! The positions a pattern connects, said without a search: parts follow one another, branches
are united, a repetition is a number of iterations within its bounds. The search finds a way to
a position exactly when the pattern connects it, although it refuses iterations that stay where
they are: those can always be left out. -/

namespace LineGrammar

def Repetition.AllowsFurther (repetition : Repetition) (further : Nat) : Prop :=
  ∀ most ∈ repetition.max, further ≤ most - repetition.min

/-- The number of iterations is within the bounds. -/
def Repetition.Allows (repetition : Repetition) (count : Nat) : Prop :=
  repetition.min ≤ count ∧ ∀ most ∈ repetition.max, count ≤ most

theorem Repetition.allows_iff {repetition : Repetition}
    (ordered : repetition.isReversed = false) {count : Nat} :
    repetition.Allows count ↔
      ∃ further, repetition.AllowsFurther further ∧ count = repetition.min + further := by
  have bounds : ∀ most ∈ repetition.max, repetition.min ≤ most := by
    intro most mem
    simpa [isReversed, Option.mem_def.mp mem] using ordered
  constructor
  · rintro ⟨least, greatest⟩
    refine ⟨count - repetition.min, ?_, by omega⟩
    intro most mem
    have := greatest most mem
    omega
  · rintro ⟨further, allowed, rfl⟩
    refine ⟨by omega, fun most mem => ?_⟩
    have := allowed most mem
    have := bounds most mem
    omega

namespace Pattern

/-- `pattern.Spans input direction i j`: the pattern leads from `i` to `j`. -/
def Spans (input : Array Char) : Pattern → Direction → Nat → Nat → Prop
  | .empty, _, i, j => i = j
  | .one set, direction, i, j =>
    ∃ c, direction.next? input i = some (c, j) ∧ set.contains c.toNat = true
  | .boundary side lines, _, i, j =>
    i = j ∧ ∀ c k, side.next? input i = some (c, k) →
      lines = true ∧ CodeSet.lineEnds.contains c.toNat = true
  | .sequence first second, .forward, i, j =>
    ∃ k, first.Spans input .forward i k ∧ second.Spans input .forward k j
  | .sequence first second, .backward, i, j =>
    ∃ k, second.Spans input .backward i k ∧ first.Spans input .backward k j
  | .choice first second, direction, i, j =>
    first.Spans input direction i j ∨ second.Spans input direction i j
  | .capture _ body, direction, i, j => body.Spans input direction i j
  | .repeated body repetition, direction, i, j =>
    ∃ further, repetition.AllowsFurther further ∧
      Steps (body.Spans input direction) (repetition.min + further) i j
  | .look side negated body, _, i, j =>
    i = j ∧ (negated = true ↔ ¬∃ k, body.Spans input side i k)

end Pattern

theorem Direction.room_lt {input : Array Char} {direction : Direction} {i j : Nat} {c : Char}
    (next : direction.next? input i = some (c, j)) :
    direction.room input j < direction.room input i := by
  cases direction with
  | forward =>
    obtain ⟨c', present, eq⟩ := Option.map_eq_some_iff.mp next
    obtain ⟨inside, -⟩ := Array.getElem?_eq_some_iff.mp present
    obtain ⟨-, rfl⟩ := Prod.mk.inj eq
    simp only [room]
    omega
  | backward =>
    cases i with
    | zero => simp [next?] at next
    | succ before =>
      obtain ⟨c', -, eq⟩ := Option.map_eq_some_iff.mp next
      obtain ⟨-, rfl⟩ := Prod.mk.inj eq
      exact Nat.lt_succ_self before

namespace Pattern

variable {input : Array Char}

theorem Spans.room {pattern : Pattern} {direction : Direction} {i j : Nat}
    (spans : pattern.Spans input direction i j) :
    i = j ∨ direction.room input j < direction.room input i := by
  induction pattern generalizing direction i j with
  | empty => exact .inl spans
  | one set =>
    obtain ⟨c, next, -⟩ := spans
    exact .inr (Direction.room_lt next)
  | boundary side lines => exact .inl spans.1
  | sequence first second hfirst hsecond =>
    cases direction with
    | forward =>
      obtain ⟨k, before, after⟩ := spans
      rcases hfirst before with rfl | less
      · exact hsecond after
      · rcases hsecond after with rfl | less'
        · exact .inr less
        · exact .inr (Nat.lt_trans less' less)
    | backward =>
      obtain ⟨k, before, after⟩ := spans
      rcases hsecond before with rfl | less
      · exact hfirst after
      · rcases hfirst after with rfl | less'
        · exact .inr less
        · exact .inr (Nat.lt_trans less' less)
  | choice first second hfirst hsecond => exact spans.elim hfirst hsecond
  | capture group body hbody => exact hbody spans
  | repeated body repetition hbody =>
    obtain ⟨further, -, steps⟩ := spans
    obtain ⟨fewer, -, moves⟩ := steps.moving
    have bound := moves.le_measure (direction.room input) fun i j move =>
      (hbody move.1).resolve_left move.2
    cases fewer with
    | zero => exact .inl moves
    | succ fewer => exact .inr (by omega)
  | look side negated body hbody => exact .inl spans.1

theorem Spans.room_lt {pattern : Pattern} {direction : Direction} {i j : Nat}
    (spans : pattern.Spans input direction i j) (moves : i ≠ j) :
    direction.room input j < direction.room input i :=
  spans.room.resolve_left moves

end Pattern

namespace Ways

def Reaches (ways : Ways) (relation : Nat → Nat → Prop) : Prop :=
  ∀ point j, (∃ reached ∈ ways point, reached.position = j) ↔ relation point.position j

section

variable {ways ways' : Ways} {relation relation' : Nat → Nat → Prop}

theorem reaches_empty : empty.Reaches (· = ·) := by
  intro point j
  simp [empty]

theorem Reaches.sequence (hfirst : ways.Reaches relation) (hsecond : ways'.Reaches relation') :
    (ways.sequence ways').Reaches fun i j => ∃ k, relation i k ∧ relation' k j := by
  intro point j
  simp only [Ways.sequence, List.mem_flatMap]
  constructor
  · rintro ⟨reached, ⟨middle, before, after⟩, rfl⟩
    exact ⟨middle.position, (hfirst point _).mp ⟨middle, before, rfl⟩,
      (hsecond middle _).mp ⟨reached, after, rfl⟩⟩
  · rintro ⟨k, before, after⟩
    obtain ⟨middle, mem, rfl⟩ := (hfirst point k).mpr before
    obtain ⟨reached, mem', rfl⟩ := (hsecond middle j).mpr after
    exact ⟨reached, ⟨middle, mem, mem'⟩, rfl⟩

theorem Reaches.choice (hfirst : ways.Reaches relation) (hsecond : ways'.Reaches relation') :
    (ways.choice ways').Reaches fun i j => relation i j ∨ relation' i j := by
  intro point j
  dsimp only
  rw [← hfirst point j, ← hsecond point j]
  simp only [Ways.choice, List.mem_append, or_and_right, exists_or]

theorem Reaches.capture (group : Nat) (hbody : ways.Reaches relation) :
    (ways.capture group).Reaches relation := by
  intro point j
  rw [← hbody point j]
  simp only [Ways.capture, List.mem_map]
  constructor
  · rintro ⟨_, ⟨reached, mem, rfl⟩, eq⟩
    exact ⟨reached, mem, eq⟩
  · rintro ⟨reached, mem, eq⟩
    exact ⟨_, ⟨reached, mem, rfl⟩, eq⟩

theorem Reaches.look (negated : Bool) (hbody : ways.Reaches relation) :
    (ways.look negated).Reaches fun i j => i = j ∧ (negated = true ↔ ¬∃ k, relation i k) := by
  intro point j
  have some_iff : (∃ k, relation point.position k) ↔ ways point ≠ [] := by
    constructor
    · rintro ⟨k, related⟩
      obtain ⟨reached, mem, -⟩ := (hbody point k).mpr related
      exact List.ne_nil_of_mem mem
    · intro found
      obtain ⟨reached, mem⟩ := List.exists_mem_of_ne_nil _ found
      exact ⟨reached.position, (hbody point _).mp ⟨reached, mem, rfl⟩⟩
  dsimp only
  rw [some_iff]
  unfold Ways.look
  cases ways point <;> cases negated <;> simp

theorem Reaches.exactly (outer : List Capture) (hbody : ways.Reaches relation) (count : Nat) :
    (ways.exactly outer count).Reaches (Steps relation count) := by
  induction count with
  | zero => exact reaches_empty
  | succ count ih =>
    intro point j
    exact (hbody.sequence ih) { point with captures := outer } j

theorem Reaches.upTo (outer : List Capture) (greedy : Bool) (hbody : ways.Reaches relation)
    (count : Nat) :
    (ways.upTo outer greedy count).Reaches fun i j =>
      ∃ moves ≤ count, Steps (fun i j => relation i j ∧ i ≠ j) moves i j := by
  induction count with
  | zero =>
    intro point j
    simp [Ways.upTo, empty, Steps]
  | succ count ih =>
    intro point j
    have again : (∃ reached ∈ (ways { point with captures := outer }).flatMap (fun reached =>
          if reached.position = point.position then []
          else ways.upTo outer greedy count reached), reached.position = j) ↔
        ∃ moves ≤ count, Steps (fun i j => relation i j ∧ i ≠ j) (moves + 1) point.position j := by
      simp only [List.mem_flatMap]
      constructor
      · rintro ⟨reached, ⟨middle, before, after⟩, rfl⟩
        split at after
        · simp at after
        · next moved =>
          obtain ⟨moves, le, steps⟩ := (ih middle _).mp ⟨reached, after, rfl⟩
          have first := (hbody { point with captures := outer } _).mp ⟨middle, before, rfl⟩
          exact ⟨moves, le, middle.position, ⟨first, fun eq => moved eq.symm⟩, steps⟩
      · rintro ⟨moves, le, k, ⟨first, moved⟩, steps⟩
        obtain ⟨middle, before, rfl⟩ := (hbody { point with captures := outer } k).mpr first
        obtain ⟨reached, after, rfl⟩ := (ih middle j).mpr ⟨moves, le, steps⟩
        exact ⟨reached, ⟨middle, before, by rwa [if_neg (Ne.symm moved)]⟩, rfl⟩
    have split_zero : (∃ moves ≤ count + 1,
          Steps (fun i j => relation i j ∧ i ≠ j) moves point.position j) ↔
        point.position = j ∨ ∃ moves ≤ count,
          Steps (fun i j => relation i j ∧ i ≠ j) (moves + 1) point.position j := by
      constructor
      · rintro ⟨moves, le, steps⟩
        cases moves with
        | zero => exact .inl steps
        | succ moves => exact .inr ⟨moves, by omega, steps⟩
      · rintro (eq | ⟨moves, le, steps⟩)
        · exact ⟨0, by omega, eq⟩
        · exact ⟨moves + 1, by omega, steps⟩
    dsimp only
    rw [split_zero, ← again]
    simp only [Ways.upTo]
    cases greedy <;> simp [or_and_right, exists_or, or_comm]

theorem Reaches.repeated (input : Array Char) (direction : Direction) (repetition : Repetition)
    (hbody : ways.Reaches relation)
    (uses : ∀ i j, relation i j → i ≠ j → direction.room input j < direction.room input i) :
    (ways.repeated input direction repetition).Reaches fun i j =>
      ∃ further, repetition.AllowsFurther further ∧
        Steps relation (repetition.min + further) i j := by
  intro point j
  -- The required iterations come first; the others move on, so there is room for all of them.
  have steps_iff : ∀ i, (∃ moves ≤ further input direction repetition i,
        Steps (fun i j => relation i j ∧ i ≠ j) moves i j) ↔
      ∃ more, repetition.AllowsFurther more ∧ Steps relation more i j := by
    intro i
    constructor
    · rintro ⟨moves, le, steps⟩
      refine ⟨moves, fun most mem => ?_, steps.mono fun _ _ => And.left⟩
      simp only [further, Option.mem_def.mp mem] at le
      omega
    · rintro ⟨more, allowed, steps⟩
      obtain ⟨moves, le, steps⟩ := steps.moving
      have room := steps.le_measure (direction.room input) fun i j move => uses i j move.1 move.2
      refine ⟨moves, ?_, steps⟩
      unfold further
      split
      · omega
      · next most eq =>
        have := allowed most eq
        omega
  have parts : (∃ reached ∈ ways.repeated input direction repetition point,
        reached.position = j) ↔
      ∃ k, Steps relation repetition.min point.position k ∧
        ∃ moves ≤ further input direction repetition k,
          Steps (fun i j => relation i j ∧ i ≠ j) moves k j := by
    simp only [Ways.repeated, List.mem_flatMap]
    constructor
    · rintro ⟨reached, ⟨middle, before, after⟩, rfl⟩
      exact ⟨middle.position, (hbody.exactly _ _ point _).mp ⟨middle, before, rfl⟩,
        (hbody.upTo _ _ _ middle _).mp ⟨reached, after, rfl⟩⟩
    · rintro ⟨k, before, after⟩
      obtain ⟨middle, mem, rfl⟩ := (hbody.exactly point.captures _ point k).mpr before
      obtain ⟨reached, mem', rfl⟩ :=
        (hbody.upTo point.captures repetition.greedy _ middle j).mpr after
      exact ⟨reached, ⟨middle, mem, mem'⟩, rfl⟩
  simp only [parts, steps_iff, Steps.add]
  constructor
  · rintro ⟨k, before, more, allowed, after⟩
    exact ⟨more, allowed, k, before, after⟩
  · rintro ⟨more, allowed, k, before, after⟩
    exact ⟨k, before, more, allowed, after⟩

end

end Ways

namespace Pattern

/-- The search is complete: it has a way to exactly the positions the pattern connects. -/
theorem ways_reaches (input : Array Char) (pattern : Pattern) (direction : Direction) :
    (pattern.ways input direction).Reaches (pattern.Spans input direction) := by
  induction pattern generalizing direction with
  | empty => exact Ways.reaches_empty
  | one set =>
    intro point j
    simp only [ways, Ways.one, Spans]
    cases direction.next? input point.position with
    | none => simp
    | some next =>
      obtain ⟨c, position⟩ := next
      by_cases inside : set.contains c.toNat = true
      · simp only [inside, if_true, List.mem_singleton, exists_eq_left, Option.some.injEq,
          Prod.mk.injEq]
        constructor
        · intro eq
          exact ⟨c, ⟨rfl, eq⟩, inside⟩
        · rintro ⟨-, ⟨-, eq⟩, -⟩
          exact eq
      · simp [inside]
  | boundary side lines =>
    intro point j
    simp only [ways, Ways.boundary, Spans]
    cases side.next? input point.position with
    | none => simp
    | some next =>
      obtain ⟨c, position⟩ := next
      by_cases ends : lines = true ∧ CodeSet.lineEnds.contains c.toNat = true
      · simp [ends]
      · simp [ends]
  | sequence first second hfirst hsecond =>
    cases direction with
    | forward => exact (hfirst .forward).sequence (hsecond .forward)
    | backward => exact (hsecond .backward).sequence (hfirst .backward)
  | choice first second hfirst hsecond => exact (hfirst direction).choice (hsecond direction)
  | capture group body hbody => exact (hbody direction).capture group
  | repeated body repetition hbody =>
    exact (hbody direction).repeated input direction repetition fun i j spans =>
      Spans.room_lt spans
  | look side negated body hbody => exact (hbody side).look negated

end Pattern

end LineGrammar
