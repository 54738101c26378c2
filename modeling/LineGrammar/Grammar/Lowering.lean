import LineGrammar.Grammar.Fragment
import LineGrammar.Tree

/-! Lowering a tree to pattern text: one body for the whole language, and bodies that together
match every beginning of one of its sentences. A backtracking pattern follows a single path, so
every way of stopping inside a variable gets a body of its own; the ways of stopping elsewhere
share one. Every capture group that is written gets a fresh identifier, the index of its
variable's name in the list of names that is built along the way. -/

namespace LineGrammar

abbrev Lowering := StateT (Array String) (Except GrammarError)

def Lowering.newGroup (name : String) : Lowering Nat := do
  let names ← get
  set (names.push name)
  return names.size

def Lowering.native (text : String) : Lowering String := fun names =>
  (Leaf.native text).map (·, names)

structure LoweredPart where
  hasVariable : Bool
  whole : Fragment
  beginnings : List Fragment

namespace LoweredPart

/-- Stopping inside a variable: the parts before it in full, then a beginning of its part. -/
def stopsInVariable (head : Fragment) : List LoweredPart → List Fragment
  | [] => []
  | part :: rest =>
    (if part.hasVariable then part.beginnings.map (head ++ ·) else []) ++
      stopsInVariable (head ++ part.whole) rest

def merged : List Fragment → Fragment
  | [body] => body
  | bodies => .choice bodies

/-- Stopping outside of every variable: each part is either matched in full and followed by the
rest, or, if it holds no variable, matched by a beginning that ends the match. -/
def stopsOutside : List LoweredPart → Fragment
  | [] => .empty
  | part :: rest =>
    .raw "(?:" ++ part.whole ++ stopsOutside rest ++
      if part.hasVariable then .raw ")" else .raw "|(?:" ++ merged part.beginnings ++ .raw "))"

def sequenceBeginnings (parts : List LoweredPart) : List Fragment :=
  if parts.isEmpty then [.empty]
  else
    stopsInVariable .empty parts ++
      if parts.any (!·.hasVariable) then [stopsOutside parts] else []

/-- The beginnings of a choice: those of branches with a variable stand alone. -/
def choiceBeginnings (branches : List (Bool × List Fragment)) : List Fragment :=
  let apart := branches.flatMap fun (hasVariable, bodies) => if hasVariable then bodies else []
  let plain := branches.flatMap fun (hasVariable, bodies) => if hasVariable then [] else bodies
  apart ++ if plain.isEmpty then [] else [.choice plain]

end LoweredPart

def Repetition.beforeLast (repetition : Repetition) : String :=
  (match repetition.max with
    | none => "*"
    | some most => "\x7b0," ++ toString (most - 1) ++ "\x7d") ++
  if repetition.greedy then "" else "?"

namespace Tree

mutual

/-- The body that matches the language of the tree. -/
def whole : Tree → Lowering Fragment
  | .choice branches => return .choice (← wholeAll branches)
  | .sequence parts => return .concat (← wholeAll parts)
  | .leaf text => return .raw (← Lowering.native text)
  | .look negated body => do
    if negated then return .negativeLook (← body.whole)
    else throw (.unsupported "(?=" 0)
  | .variable name body => do
    let group ← Lowering.newGroup name
    return .capture group (← body.whole)
  | .repeated body repetition =>
    return .grouped (← body.whole) ++ .raw repetition.quantifier

def wholeAll : List Tree → Lowering (List Fragment)
  | [] => return []
  | tree :: rest => do
    let body ← tree.whole
    return body :: (← wholeAll rest)

end

mutual

/-- Bodies that together match the beginnings of the sentences of the tree. -/
def beginnings : Tree → Lowering (List Fragment)
  | .choice branches => do
    let bodies ← beginningsAll branches
    return LoweredPart.choiceBeginnings ((branches.map hasVariable).zip bodies)
  | .sequence parts => do
    let whole ← wholeAll parts
    let bodies ← beginningsAll parts
    return LoweredPart.sequenceBeginnings
      (((parts.map hasVariable).zip (whole.zip bodies)).map fun (hasVariable, whole, bodies) =>
        ⟨hasVariable, whole, bodies⟩)
  | .leaf text => return [.grouped (.raw (← Lowering.native text)) ++ .raw "?"]
  | .look negated body => return [← (Tree.look negated body).whole]
  | .variable name body => do
    let bodies ← body.beginnings
    bodies.mapM fun inner => return .capture (← Lowering.newGroup name) inner
  | .repeated body repetition =>
    match repetition.max with
    | some 1 => body.beginnings
    | some 0 => return [.empty]
    | _ => do
      let whole ← body.whole
      let bodies ← body.beginnings
      return bodies.map fun inner =>
        .grouped whole ++ .raw repetition.beforeLast ++ inner

def beginningsAll : List Tree → Lowering (List (List Fragment))
  | [] => return []
  | tree :: rest => do
    let bodies ← tree.beginnings
    return bodies :: (← beginningsAll rest)

end

end Tree

structure Lowered where
  whole : Fragment
  beginnings : List Fragment
  groupNames : Array String

def Tree.lower (root : Tree) : Except GrammarError Lowered := do
  let ((whole, beginnings), groupNames) ←
    (do return (← root.whole, ← root.beginnings) : Lowering (Fragment × List Fragment)).run #[]
  return ⟨whole, beginnings, groupNames⟩

end LineGrammar
