import LineGrammar.Pattern.Matching
import Mathlib

/-! The points a pattern leads to, in the order in which they are tried. A matcher is identified
with such a list: it succeeds with the first point of the list after which the rest succeeds.
Nothing here depends on what follows a part, so later modules reason about lists alone. -/

namespace LineGrammar

abbrev Ways := Point → List Point

namespace Ways

def empty : Ways := fun point => [point]

def one (input : Array Char) (set : CodeSet) (direction : Direction) : Ways := fun point =>
  match direction.next? input point.position with
  | none => []
  | some (c, position) =>
    if set.contains c.toNat then [{ point with position := position }] else []

def boundary (input : Array Char) (side : Direction) (lines : Bool) : Ways := fun point =>
  match side.next? input point.position with
  | none => [point]
  | some (c, _) => if lines && CodeSet.lineEnds.contains c.toNat then [point] else []

def sequence (first second : Ways) : Ways := fun point => (first point).flatMap second

def choice (first second : Ways) : Ways := fun point => first point ++ second point

def capture (group : Nat) (body : Ways) : Ways := fun point =>
  (body point).map fun reached =>
    { reached with
      captures := ⟨group, min point.position reached.position,
        max point.position reached.position⟩ :: reached.captures }

def look (negated : Bool) (body : Ways) : Ways := fun point =>
  match (body point).head? with
  | none => if negated then [point] else []
  | some found => if negated then [] else [{ point with captures := found.captures }]

def exactly (body : Ways) (outer : List Capture) : Nat → Ways
  | 0 => empty
  | count + 1 => fun point =>
    (body { point with captures := outer }).flatMap (exactly body outer count)

def upTo (body : Ways) (outer : List Capture) (greedy : Bool) : Nat → Ways
  | 0 => empty
  | count + 1 => fun point =>
    let again := (body { point with captures := outer }).flatMap fun reached =>
      if reached.position = point.position then [] else upTo body outer greedy count reached
    if greedy then again ++ [point] else point :: again

def further (input : Array Char) (direction : Direction) (repetition : Repetition)
    (position : Nat) : Nat :=
  match repetition.max with
  | none => direction.room input position
  | some most => min (most - repetition.min) (direction.room input position)

def repeated (input : Array Char) (direction : Direction) (repetition : Repetition)
    (body : Ways) : Ways := fun point =>
  (exactly body point.captures repetition.min point).flatMap fun reached =>
    upTo body point.captures repetition.greedy
      (further input direction repetition reached.position) reached

end Ways

namespace Matcher

/-- The matcher tries exactly these points, in this order. -/
def Follows (matcher : Matcher) (ways : Ways) : Prop :=
  ∀ point rest, matcher point rest = (ways point).findSome? rest

private theorem findSome?_flatMap {α β γ : Type} (f : β → Option γ) (g : α → List β)
    (xs : List α) : (xs.flatMap g).findSome? f = xs.findSome? fun x => (g x).findSome? f := by
  induction xs with
  | nil => rfl
  | cons x xs ih =>
    rw [List.flatMap_cons, List.findSome?_append, ih, List.findSome?_cons]
    cases (g x).findSome? f <;> rfl

theorem follows_empty : empty.Follows Ways.empty := by
  intro point rest
  simp [empty, Ways.empty]

theorem follows_one (input : Array Char) (set : CodeSet) (direction : Direction) :
    (one input set direction).Follows (Ways.one input set direction) := by
  intro point rest
  unfold one Ways.one
  cases direction.next? input point.position with
  | none => rfl
  | some next =>
    dsimp only
    split <;> simp

theorem follows_boundary (input : Array Char) (side : Direction) (lines : Bool) :
    (boundary input side lines).Follows (Ways.boundary input side lines) := by
  intro point rest
  unfold boundary Ways.boundary
  cases side.next? input point.position with
  | none => simp
  | some next =>
    dsimp only
    split <;> simp

section

variable {first second body : Matcher} {ways ways' : Ways}

theorem Follows.sequence (hfirst : first.Follows ways) (hsecond : second.Follows ways') :
    (first.sequence second).Follows (ways.sequence ways') := by
  intro point rest
  have step : (fun middle => second middle rest) = fun middle => (ways' middle).findSome? rest :=
    funext fun middle => hsecond middle rest
  rw [Matcher.sequence, Ways.sequence, findSome?_flatMap, hfirst, step]

theorem Follows.choice (hfirst : first.Follows ways) (hsecond : second.Follows ways') :
    (first.choice second).Follows (ways.choice ways') := by
  intro point rest
  rw [Matcher.choice, Ways.choice, List.findSome?_append, hfirst, hsecond]
  cases (ways point).findSome? rest <;> rfl

theorem Follows.capture (group : Nat) (hbody : body.Follows ways) :
    (body.capture group).Follows (ways.capture group) := by
  intro point rest
  rw [Matcher.capture, Ways.capture, List.findSome?_map, hbody]
  rfl

theorem Follows.look (negated : Bool) (hbody : body.Follows ways) :
    (body.look negated).Follows (ways.look negated) := by
  intro point rest
  have found : body point some = (ways point).head? := by
    rw [hbody]
    cases ways point <;> rfl
  rw [Matcher.look, Ways.look, found]
  cases (ways point).head? <;> cases negated <;> simp

theorem Follows.exactly (outer : List Capture) (hbody : body.Follows ways) (count : Nat) :
    (Matcher.exactly body outer count).Follows (ways.exactly outer count) := by
  induction count with
  | zero => exact follows_empty
  | succ count ih =>
    intro point rest
    have step : (fun reached => Matcher.exactly body outer count reached rest) =
        fun reached => (ways.exactly outer count reached).findSome? rest :=
      funext fun reached => ih reached rest
    simp only [Matcher.exactly, Ways.exactly, findSome?_flatMap, hbody _ _, step]

theorem Follows.upTo (outer : List Capture) (greedy : Bool) (hbody : body.Follows ways)
    (count : Nat) :
    (Matcher.upTo body outer greedy count).Follows (ways.upTo outer greedy count) := by
  induction count with
  | zero => exact follows_empty
  | succ count ih =>
    intro point rest
    have step : (fun reached : Point =>
          if reached.position = point.position then none
          else Matcher.upTo body outer greedy count reached rest) =
        fun reached => (if reached.position = point.position then []
          else ways.upTo outer greedy count reached).findSome? rest := by
      funext reached
      split
      · rfl
      · exact ih reached rest
    simp only [Matcher.upTo, Ways.upTo, hbody _ _, step, ← findSome?_flatMap]
    split
    · rw [List.findSome?_append]
      cases List.findSome? rest _ <;> simp
    · rw [List.findSome?_cons]
      cases rest point <;> rfl

theorem Follows.repeated (input : Array Char) (direction : Direction) (repetition : Repetition)
    (hbody : body.Follows ways) :
    (body.repeated input direction repetition).Follows
      (ways.repeated input direction repetition) := by
  intro point rest
  rw [Matcher.repeated, Ways.repeated, findSome?_flatMap,
    hbody.exactly point.captures repetition.min]
  congr 1
  funext reached
  exact hbody.upTo point.captures repetition.greedy _ reached rest

end

end Matcher

namespace Pattern

def ways (input : Array Char) : Pattern → Direction → Ways
  | .empty, _ => Ways.empty
  | .one set, direction => Ways.one input set direction
  | .boundary side lines, _ => Ways.boundary input side lines
  | .sequence first second, .forward =>
    (ways input first .forward).sequence (ways input second .forward)
  | .sequence first second, .backward =>
    (ways input second .backward).sequence (ways input first .backward)
  | .choice first second, direction =>
    (ways input first direction).choice (ways input second direction)
  | .capture group body, direction => (ways input body direction).capture group
  | .repeated body repetition, direction =>
    (ways input body direction).repeated input direction repetition
  | .look side negated body, _ => (ways input body side).look negated

theorem matcher_follows (input : Array Char) (pattern : Pattern) (direction : Direction) :
    (pattern.matcher input direction).Follows (pattern.ways input direction) := by
  induction pattern generalizing direction with
  | empty => exact Matcher.follows_empty
  | one set => exact Matcher.follows_one input set direction
  | boundary side lines => exact Matcher.follows_boundary input side lines
  | sequence first second hfirst hsecond =>
    cases direction with
    | forward => exact (hfirst .forward).sequence (hsecond .forward)
    | backward => exact (hsecond .backward).sequence (hfirst .backward)
  | choice first second hfirst hsecond => exact (hfirst direction).choice (hsecond direction)
  | capture group body hbody => exact (hbody direction).capture group
  | repeated body repetition hbody => exact (hbody direction).repeated input direction repetition
  | look side negated body hbody => exact (hbody side).look negated

end Pattern

end LineGrammar
