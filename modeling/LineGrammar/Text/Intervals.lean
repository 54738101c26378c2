/-! Sets of code points kept as closed intervals in increasing order, and maps that shift
evenly spaced code points by a fixed amount. -/

namespace LineGrammar.Text

abbrev Intervals := List (Nat × Nat)

def Intervals.contains : Intervals → Nat → Bool
  | [], _ => false
  | (low, high) :: rest, code =>
    if code < low then false else decide (code ≤ high) || Intervals.contains rest code

/-- Every `step`-th code point from `low` to `high` moves by `shift`. -/
structure Shift where
  low : Nat
  high : Nat
  step : Nat
  shift : Int

def Shift.covers (row : Shift) (code : Nat) : Bool :=
  decide (row.low ≤ code) && decide (code ≤ row.high) && (code - row.low) % row.step == 0

abbrev Shifts := List Shift

def Shifts.apply : Shifts → Nat → Nat
  | [], code => code
  | row :: rest, code =>
    if code < row.low then code
    else if row.covers code then (code + row.shift).toNat
    else Shifts.apply rest code

def Shifts.preimages (rows : Shifts) (target : Nat) : List Nat :=
  rows.filterMap fun row =>
    let source := ((target : Int) - row.shift).toNat
    if row.covers source && (source : Int) + row.shift == (target : Int) then some source else none

end LineGrammar.Text
