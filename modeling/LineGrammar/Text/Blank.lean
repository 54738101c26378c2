/-! White space. `isBlank` is the property that separates words and surrounds expressions;
`isPatternSpace` is the set behind the pattern escapes for space, which has the byte order mark
and lacks the next-line control. -/

namespace LineGrammar.Text

def isSharedSpace (code : Nat) : Bool :=
  (decide (0x9 ≤ code) && decide (code ≤ 0xD)) || code == 0x20 || code == 0xA0 || code == 0x1680 ||
    (decide (0x2000 ≤ code) && decide (code ≤ 0x200A)) || code == 0x2028 || code == 0x2029 ||
    code == 0x202F || code == 0x205F || code == 0x3000

def isBlank (c : Char) : Bool := isSharedSpace c.toNat || c.toNat == 0x85

def isPatternSpace (code : Nat) : Bool := isSharedSpace code || code == 0xFEFF

def trim (text : String) : String :=
  String.ofList (((text.toList.dropWhile isBlank).reverse.dropWhile isBlank).reverse)

end LineGrammar.Text
