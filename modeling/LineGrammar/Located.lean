/-! Messages about one place in a text. -/

namespace LineGrammar

/-- A message and the byte it is about, counted from zero. -/
structure Located where
  message : String
  position : Nat
  deriving DecidableEq, Repr

def Located.describe (located : Located) : String :=
  s!"{located.message} at byte {located.position} (zero-based)"

end LineGrammar
