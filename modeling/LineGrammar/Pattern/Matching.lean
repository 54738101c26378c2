import LineGrammar.Pattern.Basic

/-! Running a pattern over text. A matcher is given the point it has reached and what has to
follow; it offers its own ways of going on in order of preference and keeps the first after which
the rest succeeds. Captures are kept for the last iteration of a repetition only, because every
iteration starts from the captures made before the repetition. -/

namespace LineGrammar

structure Capture where
  group : Nat
  start : Nat
  stop : Nat
  deriving DecidableEq, Repr

/-- A place between two characters and the groups captured on the way there, the latest first. -/
structure Point where
  position : Nat
  captures : List Capture
  deriving DecidableEq, Repr

def Direction.next? (input : Array Char) (position : Nat) : Direction → Option (Char × Nat)
  | .forward => (input[position]?).map fun c => (c, position + 1)
  | .backward =>
    match position with
    | 0 => none
    | before + 1 => (input[before]?).map fun c => (c, before)

def Direction.room (input : Array Char) (position : Nat) : Direction → Nat
  | .forward => input.size - position
  | .backward => position

abbrev Matcher := Point → (Point → Option Point) → Option Point

namespace Matcher

def empty : Matcher := fun point rest => rest point

def one (input : Array Char) (set : CodeSet) (direction : Direction) : Matcher := fun point rest =>
  match direction.next? input point.position with
  | none => none
  | some (c, position) =>
    if set.contains c.toNat then rest { point with position := position } else none

def boundary (input : Array Char) (side : Direction) (lines : Bool) : Matcher := fun point rest =>
  match side.next? input point.position with
  | none => rest point
  | some (c, _) => if lines && CodeSet.lineEnds.contains c.toNat then rest point else none

def sequence (first second : Matcher) : Matcher := fun point rest =>
  first point fun middle => second middle rest

def choice (first second : Matcher) : Matcher := fun point rest =>
  (first point rest).orElse fun _ => second point rest

def capture (group : Nat) (body : Matcher) : Matcher := fun point rest =>
  body point fun reached =>
    rest { reached with
      captures := ⟨group, min point.position reached.position,
        max point.position reached.position⟩ :: reached.captures }

/-- The body looks from here and gives nothing back but its captures, and those only when it has
to succeed. -/
def look (negated : Bool) (body : Matcher) : Matcher := fun point rest =>
  match body point some with
  | none => if negated then rest point else none
  | some found => if negated then none else rest { point with captures := found.captures }

def exactly (body : Matcher) (outer : List Capture) : Nat → Matcher
  | 0 => empty
  | count + 1 => fun point rest =>
    body { point with captures := outer } fun reached => exactly body outer count reached rest

/-- Up to `count` further iterations. An iteration that ends where it began is refused, so no
more of them are possible than there are characters ahead. -/
def upTo (body : Matcher) (outer : List Capture) (greedy : Bool) : Nat → Matcher
  | 0 => empty
  | count + 1 => fun point rest =>
    let again := fun (_ : Unit) =>
      body { point with captures := outer } fun reached =>
        if reached.position = point.position then none else upTo body outer greedy count reached rest
    if greedy then (again ()).orElse fun _ => rest point else (rest point).orElse again

def repeated (input : Array Char) (direction : Direction) (repetition : Repetition)
    (body : Matcher) : Matcher := fun point rest =>
  exactly body point.captures repetition.min point fun reached =>
    let room := direction.room input reached.position
    let further := match repetition.max with
      | none => room
      | some most => min (most - repetition.min) room
    upTo body point.captures repetition.greedy further reached rest

end Matcher

namespace Pattern

/-- In the backward direction the second part of a sequence is run first. -/
def matcher (input : Array Char) : Pattern → Direction → Matcher
  | .empty, _ => Matcher.empty
  | .one set, direction => Matcher.one input set direction
  | .boundary side lines, _ => Matcher.boundary input side lines
  | .sequence first second, .forward =>
    (matcher input first .forward).sequence (matcher input second .forward)
  | .sequence first second, .backward =>
    (matcher input second .backward).sequence (matcher input first .backward)
  | .choice first second, direction =>
    (matcher input first direction).choice (matcher input second direction)
  | .capture group body, direction => (matcher input body direction).capture group
  | .repeated body repetition, direction =>
    (matcher input body direction).repeated input direction repetition
  | .look side negated body, _ => (matcher input body side).look negated

def findFrom (pattern : Pattern) (input : Array Char) (starts : List Nat) :
    Option (List Capture) :=
  starts.findSome? fun start =>
    (pattern.matcher input .forward ⟨start, []⟩ some).map (·.captures)

def find? (pattern : Pattern) (input : Array Char) : Option (List Capture) :=
  pattern.findFrom input (List.range (input.size + 1))

end Pattern

end LineGrammar
