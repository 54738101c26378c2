import LineGrammar.Expression.Leaf
import LineGrammar.Pattern.Basic

/-! Grammar trees: what an expression is read into, or what is built by hand. -/

namespace LineGrammar

inductive Tree
  | choice (branches : List Tree)
  | sequence (parts : List Tree)
  | leaf (text : String)
  | look (negated : Bool) (body : Tree)
  | variable (name : String) (body : Tree)
  | repeated (body : Tree) (repetition : Repetition)

namespace Tree

def empty : Tree := .sequence []

def ofParts : List Tree → Tree
  | [part] => part
  | parts => .sequence parts

def ofBranches : List Tree → Tree
  | [branch] => branch
  | branches => .choice branches

def literalChar (c : Char) : Tree :=
  .leaf (String.ofList (if Leaf.patternChars.contains c then ['\\', c] else [c]))

/-- A text verbatim, one leaf to a character so that matching can stop in the middle of it. -/
def literal (text : String) : Tree := ofParts (text.toList.map literalChar)

def optional (body : Tree) : Tree := .repeated body ⟨0, some 1, true⟩

def zeroOrMore (body : Tree) : Tree := .repeated body ⟨0, none, true⟩

def oneOrMore (body : Tree) : Tree := .repeated body ⟨1, none, true⟩

def parts : Tree → List Tree
  | .sequence parts => parts
  | tree => [tree]

def branches : Tree → List Tree
  | .choice branches => branches
  | tree => [tree]

def append (first second : Tree) : Tree := .sequence (first.parts ++ second.parts)

def either (first second : Tree) : Tree := .choice (first.branches ++ second.branches)

mutual

def hasVariable : Tree → Bool
  | .choice branches => anyVariable branches
  | .sequence parts => anyVariable parts
  | .leaf _ => false
  | .look _ body => body.hasVariable
  | .variable _ _ => true
  | .repeated body _ => body.hasVariable

def anyVariable : List Tree → Bool
  | [] => false
  | tree :: rest => tree.hasVariable || anyVariable rest

end

mutual

/-- The names of the variables, each as often as it occurs, outer ones first. -/
def variableNames : Tree → List String
  | .choice branches => allVariableNames branches
  | .sequence parts => allVariableNames parts
  | .leaf _ => []
  | .look _ body => body.variableNames
  | .variable name body => name :: body.variableNames
  | .repeated body _ => body.variableNames

def allVariableNames : List Tree → List String
  | [] => []
  | tree :: rest => tree.variableNames ++ allVariableNames rest

end

end Tree

def Repetition.sign (repetition : Repetition) : String :=
  match repetition.min, repetition.max with
  | 0, none => "*"
  | 1, none => "+"
  | 0, some 1 => "?"
  | least, none => "\x7b" ++ toString least ++ ",\x7d"
  | least, some most =>
    if least = most then "\x7b" ++ toString least ++ "\x7d"
    else "\x7b" ++ toString least ++ "," ++ toString most ++ "\x7d"

def Repetition.quantifier (repetition : Repetition) : String :=
  repetition.sign ++ if repetition.greedy then "" else "?"

namespace Tree

mutual

def render : Tree → String
  | .choice branches => "(?:" ++ "|".intercalate (renderAll branches) ++ ")"
  | .sequence parts => String.join (renderAll parts)
  | .leaf text => text
  | .look negated body => (if negated then "(?!" else "(?=") ++ body.render ++ ")"
  | .variable name body => "(?P<" ++ name ++ ">" ++ body.render ++ ")"
  | .repeated body repetition => "(?:" ++ body.render ++ ")" ++ repetition.quantifier

def renderAll : List Tree → List String
  | [] => []
  | tree :: rest => tree.render :: renderAll rest

end

end Tree

end LineGrammar
