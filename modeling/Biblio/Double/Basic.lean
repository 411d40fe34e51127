/-!
# Double precision

A number in double precision is a sign and a count of units of `2 ^ -1074` of which
only the 53 leading bits may differ from zero, or it is infinite. `Double.ofRatio`
takes the number nearest to a ratio and, of two that are equally near, the one whose
last bit is zero. `Double.order` compares with an integer without rounding.
-/

namespace Biblio

/-- The quotient rounded to the nearest number, and a half to the even one. -/
def roundDiv (a b : Nat) : Nat :=
  let q := a / b
  let r := a % b
  if 2 * r < b || (2 * r == b && q % 2 == 0) then q else q + 1

inductive Double where
  | finite (negative : Bool) (units : Nat)
  | infinite (negative : Bool)
  deriving DecidableEq, Repr

namespace Double

def one : Nat := Nat.pow 2 1074

/-- The counts of units from here on belong to no finite number. -/
def limit : Nat := Nat.pow 2 1024 * one

def spacing (units : Nat) : Nat :=
  Nat.pow 2 (units.log2 - 52)

def ofRatio (negative : Bool) (a b : Nat) : Double :=
  let step := spacing (a * one / b)
  let units := roundDiv (a * one) (b * step) * step
  if units < limit then finite negative units else infinite negative

/-- Powers of ten beyond this one leave the range of finite numbers. -/
def maxPower : Nat := 400

def ofDecimal (negative : Bool) (digits : Nat) (exponent : Int) : Double :=
  if digits = 0 ∨ exponent < -((maxPower + digits.log2 : Nat) : Int) then finite negative 0
  else if (maxPower : Int) < exponent then infinite negative
  else if exponent < 0 then ofRatio negative digits (Nat.pow 10 exponent.natAbs)
  else ofRatio negative (digits * Nat.pow 10 exponent.natAbs) 1

def isNegative : Double → Bool
  | finite negative _ | infinite negative => negative

def signed? : Double → Option Int
  | finite negative units => some (if negative then -(units : Int) else units)
  | infinite _ => none

def order (d : Double) (n : Int) : Ordering :=
  match d.signed? with
  | some units => compare units (n * one)
  | none => if d.isNegative then .lt else .gt

def isZero (d : Double) : Bool :=
  d.order 0 == .eq

/-- Whether two numbers are equal; the sign of zero does not count. -/
def same (a b : Double) : Bool :=
  a == b || (a.isZero && b.isZero)

def isBelow (d : Double) (bound : Nat) : Bool :=
  d.order 0 != .lt && d.order bound == .lt

def percent : Double → Double
  | finite negative units => ofRatio negative (units * 100) one
  | infinite negative => infinite negative

example : ofDecimal false 5 (-1) = finite false (Nat.pow 2 1073) := by decide +kernel

example : ofDecimal true 0 0 = finite true 0 := by decide +kernel

example : ofDecimal false 1 309 = infinite false := by decide +kernel

end Double

end Biblio
