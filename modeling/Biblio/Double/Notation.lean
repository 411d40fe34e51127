import Biblio.Double.Basic

/-!
# Decimal notation of numbers in double precision

A number is written with the fewest decimal digits that read back to it; of two such
decimals the nearer one is taken, and of two equally near ones the even one.
`Decimal.plain` and `Decimal.scientific` lay digits out, and `Double.write` chooses
between them by the magnitude.
-/

namespace Biblio

structure Decimal where
  digits : Nat
  exponent : Int
  deriving DecidableEq, Repr

namespace Decimal

def digitsOf (n : Nat) : List Char :=
  if n = 0 then [] else Nat.toDigits 10 n

/-- Moves up to `fuel` zeros at the end of the digits into the exponent. -/
def strip : Nat → Decimal → Decimal
  | 0, d => d
  | fuel + 1, d =>
    if d.digits ≠ 0 ∧ d.digits % 10 = 0 then strip fuel ⟨d.digits / 10, d.exponent + 1⟩ else d

/-- The digits before and behind the point if the point stands behind `point` of
them; a part that would be empty is a zero before the point. -/
def split (ds : List Char) (point : Int) : List Char × List Char :=
  if point ≤ 0 then (['0'], List.replicate point.natAbs '0' ++ ds)
  else
    let n := point.toNat
    (ds.take n ++ List.replicate (n - ds.length) '0', ds.drop n)

def join (whole part : List Char) : List Char :=
  whole ++ '.' :: part

def plain (ds : List Char) (point : Int) : List Char :=
  let (whole, part) := split ds point
  join whole (if part.isEmpty then ['0'] else part)

/-- The exponent of a number in scientific notation: a sign and two digits at
least. -/
def writeExponent (e : Int) : List Char :=
  let ds := Nat.toDigits 10 e.natAbs
  (if e < 0 then '-' else '+') :: List.replicate (2 - ds.length) '0' ++ ds

/-- The digits laid out with an exponent, and with a point behind the first one if
there are others. -/
def scientific (ds : List Char) (point : Int) : List Char :=
  let part := ds.drop 1
  ds.take 1 ++ (if part.isEmpty then [] else '.' :: part) ++ 'e' :: writeExponent (point - 1)

end Decimal

namespace Double

/-! ## Digits -/

/-- The power of ten of the first digit of a count of units that is not zero. -/
def magnitude (units : Nat) : Int :=
  let whole := units / one
  if whole = 0 then -((Decimal.digitsOf ((one - 1) / units)).length : Int)
  else (Decimal.digitsOf whole).length - 1

def ratio (units : Nat) (exponent : Int) : Nat × Nat :=
  if exponent < 0 then (units * Nat.pow 10 exponent.natAbs, one)
  else (units, one * Nat.pow 10 exponent.natAbs)

/-- Whether a decimal lies among the reals that are nearer to this count of units than
to any other number. The ends belong to them if the last bit is zero. -/
def readsBack (units : Nat) (d : Decimal) : Bool :=
  let step := spacing units
  let below := if units = Nat.pow 2 52 * step ∧ 1 < step then step else 2 * step
  let up := if d.exponent < 0 then 1 else Nat.pow 10 d.exponent.natAbs
  let down := if d.exponent < 0 then Nat.pow 10 d.exponent.natAbs else 1
  let x := 4 * d.digits * one * up
  let low := (4 * units - below) * down
  let high := (4 * units + 2 * step) * down
  let closed := units / step % 2 == 0
  (low < x || (closed && low == x)) && (x < high || (closed && x == high))

def decimalOf? (units count : Nat) : Option Decimal :=
  let exponent := magnitude units + 1 - count
  let (a, b) := ratio units exponent
  let lo : Decimal := ⟨a / b, exponent⟩
  let hi : Decimal := ⟨a / b + 1, exponent⟩
  match readsBack units lo, readsBack units hi with
  | true, true => some (if roundDiv a b = lo.digits then lo else hi)
  | true, false => some lo
  | false, true => some hi
  | false, false => none

/-- As many digits always tell a number from its neighbours. -/
def maxDigits : Nat := 17

/-- The shortest decimal that reads back to a count of units that is not zero. -/
def shortest (units : Nat) : Decimal :=
  match (List.range maxDigits).findSome? fun i => decimalOf? units (i + 1) with
  | some d => d.strip maxDigits
  | none => ⟨units * Nat.pow 5 1074, -1074⟩

/-! ## Texts -/

def plainFrom : Int := -4

def plainBelow : Int := 16

def writeUnits (units : Nat) : List Char :=
  if units = 0 then Decimal.plain ['0'] 1
  else
    let d := shortest units
    let ds := Decimal.digitsOf d.digits
    let point := ds.length + d.exponent
    if plainFrom < point ∧ point ≤ plainBelow then Decimal.plain ds point
    else Decimal.scientific ds point

def write (d : Double) : String :=
  String.ofList <|
    (if d.isNegative then ['-'] else []) ++
      match d with
      | finite _ units => writeUnits units
      | infinite _ => ['i', 'n', 'f']

example : (ofDecimal false 1 16).write = "1e+16" := by decide +kernel

example : (ofDecimal false 1 (-5)).write = "1e-05" := by decide +kernel

example : (ofDecimal false 5 (-324)).write = "5e-324" := by decide +kernel

example : (ofDecimal true 0 0).write = "-0.0" := by decide +kernel

example : (ofDecimal false 30000000000000004 (-17)).write = "0.30000000000000004" := by
  decide +kernel

end Double

end Biblio
