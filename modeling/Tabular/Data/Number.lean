/-! Checked arithmetic on signed 64-bit numbers. Each operation has a result only where the exact
integer result is in range, and that result is then the exact one. -/

namespace Tabular.Number

/-- The integers that a signed 64-bit number can hold. -/
abbrev InRange (n : Int) : Prop := Int64.minValue.toInt ≤ n ∧ n ≤ Int64.maxValue.toInt

def add? (a b : Int64) : Option Int64 :=
  if InRange (a.toInt + b.toInt) then some (a + b) else none

def sub? (a b : Int64) : Option Int64 :=
  if InRange (a.toInt - b.toInt) then some (a - b) else none

def mul? (a b : Int64) : Option Int64 :=
  if InRange (a.toInt * b.toInt) then some (a * b) else none

/-- The quotient rounded toward zero, unless it is out of range. The divisor is not zero. -/
def div? (a b : Int64) : Option Int64 :=
  if InRange (a.toInt.tdiv b.toInt) then some (a / b) else none

/-- The number with the opposite sign, unless it is out of range. -/
def neg? (a : Int64) : Option Int64 :=
  if InRange (-a.toInt) then some (-a) else none

end Tabular.Number
