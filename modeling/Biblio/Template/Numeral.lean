import Biblio.Double.Notation
import Biblio.Template.Layout

/-!
# Numbers in layouts

A number is set as a numeral: a sign, a prefix that tells the base, digits that may be
grouped, and the rest from the point on. `Layout.applyInt` and `Layout.applyReal` give
the numeral that a layout asks for and fill it up to the width, between the sign and
the digits if the alignment says so.
-/

namespace Biblio

namespace Template

structure Numeral where
  negative : Bool
  lead : List Char := []
  digits : List Char
  /-- What follows the digits: the point, the digits behind it, an exponent. -/
  rest : List Char := []
  deriving DecidableEq, Repr

namespace Layout

/-! ## Filling -/

/-- The sign of a numeral. A layout may ask for a plus or a space in place of a missing
minus. -/
def signOf (l : Layout) (negative : Bool) : List Char :=
  if negative then ['-']
  else
    match l.sign with
    | some '+' => ['+']
    | some ' ' => [' ']
    | _ => []

/-- Digits, the last one first, in blocks of a size with a mark between them. Zeros are
added until the blocks and marks fill a width. -/
def blocks (size : Nat) (mark : Char) : Nat → Nat → List Char → List Char
  | 0, _, ds => ds
  | fuel + 1, width, ds =>
    let n := min size (max (max ds.length width) 1)
    let block := ds.take n ++ List.replicate (n - ds.length) '0'
    let rest := ds.drop n
    if rest.isEmpty && width ≤ n then block
    else block ++ mark :: blocks size mark fuel (width - n - 1) rest

def groupDigits (l : Layout) (width : Nat) (ds : List Char) : List Char :=
  match l.grouping with
  | none => List.replicate (width - ds.length) '0' ++ ds
  | some mark =>
    let size := if ['b', 'o', 'x', 'X'].contains (l.code.getD 'd') then 4 else 3
    (blocks size mark (ds.length + width + 1) width ds.reverse).reverse

def setNumeral (l : Layout) (x : Numeral) : List Char :=
  let sign := l.signOf x.negative
  let width := l.width.getD 0
  let others := sign.length + x.lead.length + x.rest.length
  let least := if l.fill = '0' ∧ l.align = .sign then width - others else 0
  let digits := if x.digits.isEmpty then [] else l.groupDigits least x.digits
  match l.align with
  | .sign =>
    sign ++ x.lead ++ List.replicate (width - (others + digits.length)) l.fill ++ digits ++ x.rest
  | _ => l.pad (sign ++ x.lead ++ digits ++ x.rest)

/-! ## Reals -/

/-- The part of a number behind the point, with the point. The alternate form keeps the
point of an empty part. -/
def pointed (l : Layout) (part : List Char) : List Char :=
  if part.isEmpty && !l.alternate then [] else '.' :: part

def digitsUpTo (count n : Nat) : List Char :=
  let ds := Decimal.digitsOf n
  List.replicate (count - ds.length) '0' ++ ds

def fixed (l : Layout) (places units : Nat) : List Char × List Char :=
  let ds := digitsUpTo (places + 1) (roundDiv (units * Nat.pow 10 places) Double.one)
  (ds.take (ds.length - places), l.pointed (ds.drop (ds.length - places)))

def rounded (count units : Nat) : List Char × Int :=
  if units = 0 then (List.replicate count '0', 1)
  else
    let e := Double.magnitude units
    let (a, b) := Double.ratio units (e + 1 - count)
    let n := roundDiv a b
    if n < Nat.pow 10 count then (digitsUpTo count n, e + 1) else (digitsUpTo count (n / 10), e + 2)

def withExponent (l : Layout) (ds : List Char) (point : Int) : List Char × List Char :=
  (ds.take 1, l.pointed (ds.drop 1) ++ 'e' :: Decimal.writeExponent (point - 1))

def positional (l : Layout) (least : Nat) (ds : List Char) (point : Int) :
    List Char × List Char :=
  let (whole, part) := Decimal.split ds point
  (whole, l.pointed (part ++ List.replicate (least - part.length) '0'))

def stripZeros (ds : List Char) : List Char :=
  ds.take 1 ++ Text.dropEndWhile (· == '0') (ds.drop 1)

/-- The text of digits in the shorter notation: with an exponent if the point would
stand far outside of them. `least` places behind the point are kept. -/
def general (l : Layout) (least count : Nat) (ds : List Char) (point : Int) :
    List Char × List Char :=
  if point ≤ -4 ∨ (count : Int) - least < point then l.withExponent ds point
  else l.positional least ds point

/-- The digits before the point and the rest of a count of units. Without code a number
has a place behind the point, and without precision as many digits as tell it from
other numbers. -/
def realText (l : Layout) (units : Nat) : List Char × List Char :=
  let precision := l.precision.getD 6
  let trim (ds : List Char) : List Char := if l.alternate then ds else stripZeros ds
  let generally (least : Nat) : List Char × List Char :=
    let count := max precision 1
    let (ds, point) := rounded count units
    l.general least count (trim ds) point
  match l.code with
  | some 'e' | some 'E' =>
    let (ds, point) := rounded (precision + 1) units
    l.withExponent ds point
  | some 'f' | some 'F' | some '%' => l.fixed precision units
  | some _ => generally 0
  | none =>
    if l.precision.isSome then generally 1
    else if units = 0 then l.positional 1 ['0'] 1
    else
      let d := Double.shortest units
      let ds := Decimal.digitsOf d.digits
      l.general 1 17 ds (ds.length + d.exponent)

def realCodes : List Char := ['e', 'E', 'f', 'F', 'g', 'G', 'n', '%']

/-- The numeral of a real number as a layout says. A layout may ask for a zero without
sign. -/
def realNumeral (l : Layout) (d : Double) : Numeral :=
  let d := if l.code = some '%' then d.percent else d
  let (digits, rest) := match d with
    | .finite _ units => l.realText units
    | .infinite _ => ([], ['i', 'n', 'f'])
  let isZero := (digits ++ rest.takeWhile (· ≠ 'e')).all fun c => c == '0' || c == '.'
  let rest := if l.code = some '%' then rest ++ ['%'] else rest
  let upper := [some 'E', some 'F', some 'G'].contains l.code
  { negative := d.isNegative && !(l.negativeZero && isZero), digits
    rest := if upper then rest.map Char.toUpper else rest }

def applyReal (layout : List Char) (d : Double) : Except TemplateError (List Char) := do
  let l ← parse .real "float" layout
  match l.code with
  | some c => if realCodes.contains c then pure () else throw (.unknownCode c "float")
  | none => pure ()
  return l.setNumeral (l.realNumeral d)

/-! ## Integers -/

def integerCodes : List Char := ['d', 'n', 'b', 'o', 'x', 'X', 'c']

def inBase (l : Layout) (n : Nat) : Char → List Char × List Char
  | 'b' => (if l.alternate then ['0', 'b'] else [], Nat.toDigits 2 n)
  | 'o' => (if l.alternate then ['0', 'o'] else [], Nat.toDigits 8 n)
  | 'x' => (if l.alternate then ['0', 'x'] else [], Nat.toDigits 16 n)
  | 'X' => (if l.alternate then ['0', 'X'] else [], (Nat.toDigits 16 n).map Char.toUpper)
  | _ => ([], Nat.toDigits 10 n)

def character (l : Layout) (n : Int) : Except TemplateError Numeral := do
  if l.sign.isSome then throw .signedCharacter
  if l.alternate then throw .alternateCharacter
  if n < 0 ∨ 0x110000 ≤ n then throw .noCharacterCode
  return { negative := false, digits := [], rest := [Char.ofNat n.toNat] }

def applyInt (typeName : String) (layout : List Char) (n : Int) :
    Except TemplateError (List Char) := do
  let l ← parse .integer typeName layout
  let code := l.code.getD 'd'
  if realCodes.contains code && code ≠ 'n' then
    return l.setNumeral (l.realNumeral (Double.ofRatio (n < 0) n.natAbs 1))
  if !integerCodes.contains code then throw (.unknownCode code typeName)
  if l.precision.isSome then throw .integerPrecision
  if l.negativeZero then throw .integerZero
  if code = 'c' then return l.setNumeral (← l.character n)
  let (lead, digits) := l.inBase n.natAbs code
  return l.setNumeral { negative := n < 0, lead, digits }

end Layout

end Template

end Biblio
