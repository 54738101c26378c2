import LineGrammar.Located
import LineGrammar.Pattern.Basic

/-! Why an expression or a tree is not a grammar. Positions are byte offsets in the expression. -/

namespace LineGrammar

inductive Malformed
  | danglingEscape
  | unterminatedClass
  | nothingToRepeat
  | unmatchedParenthesis
  | invalidGroupName
  | unclosedGroup
  deriving DecidableEq, Repr

def Malformed.message : Malformed → String
  | .danglingEscape => "dangling escape"
  | .unterminatedClass => "unterminated character class"
  | .nothingToRepeat => "nothing to repeat"
  | .unmatchedParenthesis => "unmatched parentheses"
  | .invalidGroupName => "invalid group name"
  | .unclosedGroup => "expecting ')'"

inductive GrammarError
  | unsupported (construct : String) (position : Nat)
  | malformed (cause : Malformed) (position : Nat)
  | pattern (fault : Pattern.Fault)
  deriving DecidableEq, Repr

namespace GrammarError

def message : GrammarError → String
  | .unsupported construct position =>
    (Located.mk s!"unsupported construct `{construct}`" position).describe
  | .malformed cause position => (Located.mk cause.message position).describe
  | .pattern fault => s!"invalid regular expression: {fault.message}"

/-- The expression is well formed but uses syntax that grammars do not have. -/
def isUnsupported : GrammarError → Bool
  | .unsupported _ _ => true
  | _ => false

def isMalformed (error : GrammarError) : Bool := !error.isUnsupported

def shift (offset : Nat) : GrammarError → GrammarError
  | .unsupported construct position => .unsupported construct (position + offset)
  | .malformed cause position => .malformed cause (position + offset)
  | .pattern fault => .pattern fault

end GrammarError

end LineGrammar
