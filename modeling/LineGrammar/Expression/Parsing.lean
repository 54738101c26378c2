import LineGrammar.Expression.Token
import LineGrammar.Tree

/-! Reading tokens into a tree. A choice binds weaker than a sequence, and a quantifier repeats
the one part before it. The groups still open are kept on a stack, so tokens are read one at a
time and the first error met is the one reported. -/

namespace LineGrammar

inductive Enclosure
  | plain
  | negativeLook
  | variable (name : String)
  deriving DecidableEq, Repr

def Enclosure.enclose : Enclosure → Tree → Tree
  | .plain, body => body
  | .negativeLook, body => .look true body
  | .variable name, body => .variable name body

inductive Role
  | bar
  | closing
  | quantifier (repetition : Repetition)
  | opening (enclosure : Enclosure)
  | nameless
  | foreign
  | leaf
  deriving DecidableEq, Repr

def Token.groupName? (cs : List Char) : Option String :=
  let name := (cs.drop 4).dropLast
  if cs.getLast? = some '>' ∧ name ≠ [] then some (String.ofList name) else none

def Token.role (token : Token) : Role :=
  let cs := token.text.toList
  if cs = [')'] then .closing
  else if cs = ['|'] then .bar
  else if cs = ['*'] then .quantifier ⟨0, none, true⟩
  else if cs = ['*', '?'] then .quantifier ⟨0, none, false⟩
  else if cs = ['+'] then .quantifier ⟨1, none, true⟩
  else if cs = ['+', '?'] then .quantifier ⟨1, none, false⟩
  else if cs = ['?'] then .quantifier ⟨0, some 1, true⟩
  else if cs = ['?', '?'] then .quantifier ⟨0, some 1, false⟩
  else if cs = ['('] ∨ cs = ['(', '?', ':'] then .opening .plain
  else if cs = ['(', '?', '!'] then .opening .negativeLook
  else if ['(', '?', 'P', '<'].isPrefixOf cs then
    match groupName? cs with
    | some name => .opening (.variable name)
    | none => .nameless
  else if ['(', '?'].isPrefixOf cs then .foreign
  else if cs.head? = some '{' ∧ 1 < cs.length then .foreign
  else .leaf

namespace Parsing

/-- Branches and parts read so far, the latest first. -/
structure Level where
  branches : List Tree
  parts : List Tree

def Level.blank : Level := ⟨[], []⟩

def Level.push (level : Level) (part : Tree) : Level := { level with parts := part :: level.parts }

def Level.nextBranch (level : Level) : Level :=
  ⟨Tree.ofParts level.parts.reverse :: level.branches, []⟩

def Level.body (level : Level) : Tree := Tree.ofBranches level.nextBranch.branches.reverse

/-- A group whose closing token has not come yet, with what was read around it. -/
structure OpenGroup where
  position : Nat
  enclosure : Enclosure
  outside : Level

end Parsing

open Parsing in
structure Parsing where
  groups : List OpenGroup
  level : Level

namespace Parsing

def start : Parsing := ⟨[], .blank⟩

def step (parsing : Parsing) (token : Token) : Except GrammarError Parsing :=
  match token.role with
  | .bar => .ok { parsing with level := parsing.level.nextBranch }
  | .closing =>
    match parsing.groups with
    | [] => .error (.malformed .unmatchedParenthesis token.position)
    | group :: outer =>
      .ok ⟨outer, group.outside.push (group.enclosure.enclose parsing.level.body)⟩
  | .quantifier repetition =>
    match parsing.level.parts with
    | [] => .error (.malformed .nothingToRepeat token.position)
    | part :: before =>
      .ok { parsing with
        level := { parsing.level with parts := .repeated part repetition :: before } }
  | .opening enclosure =>
    .ok ⟨⟨token.position, enclosure, parsing.level⟩ :: parsing.groups, .blank⟩
  | .nameless => .error (.malformed .invalidGroupName token.position)
  | .foreign => .error (.unsupported token.text token.position)
  | .leaf =>
    match Leaf.native token.text with
    | .error error => .error (error.shift token.position)
    | .ok _ => .ok { parsing with level := parsing.level.push (.leaf token.text) }

def run (parsing : Parsing) : List Token → Except GrammarError Parsing
  | [] => .ok parsing
  | token :: rest =>
    match parsing.step token with
    | .error error => .error error
    | .ok next => next.run rest

def finish (parsing : Parsing) : Except GrammarError Tree :=
  match parsing.groups with
  | [] => .ok parsing.level.body
  | group :: _ => .error (.malformed .unclosedGroup group.position)

end Parsing

def Tree.ofTokens (tokens : List Token) : Except GrammarError Tree :=
  (Parsing.start.run tokens).bind Parsing.finish

def Tree.ofExpression (expression : String) : Except GrammarError Tree :=
  (tokenize expression).bind Tree.ofTokens

end LineGrammar
