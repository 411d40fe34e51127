import Biblio.Text.Blank

/-!
# Decimal digits

`decimalZeros` lists the code point of the digit zero of every decimal system of
Unicode 14; the digits one to nine follow it. `digitValue?` reads one digit of any
system and `readInt?` a signed number, possibly surrounded by blank characters,
with single underscores between its digits.
-/

namespace Biblio

namespace Text

def decimalZeros : List Nat :=
  [0x30, 0x660, 0x6f0, 0x7c0, 0x966, 0x9e6, 0xa66, 0xae6, 0xb66, 0xbe6, 0xc66, 0xce6, 0xd66,
   0xde6, 0xe50, 0xed0, 0xf20, 0x1040, 0x1090, 0x17e0, 0x1810, 0x1946, 0x19d0, 0x1a80, 0x1a90,
   0x1b50, 0x1bb0, 0x1c40, 0x1c50, 0xa620, 0xa8d0, 0xa900, 0xa9d0, 0xa9f0, 0xaa50, 0xabf0,
   0xff10, 0x104a0, 0x10d30, 0x11066, 0x110f0, 0x11136, 0x111d0, 0x112f0, 0x11450, 0x114d0,
   0x11650, 0x116c0, 0x11730, 0x118e0, 0x11950, 0x11c50, 0x11d50, 0x11da0, 0x16a60, 0x16ac0,
   0x16b50, 0x1d7ce, 0x1d7d8, 0x1d7e2, 0x1d7ec, 0x1d7f6, 0x1e140, 0x1e2f0, 0x1e950, 0x1fbf0]

def digitValue? (c : Char) : Option Nat :=
  (decimalZeros.find? fun z => z ≤ c.toNat && c.toNat < z + 10).map (c.toNat - ·)

def isDecimal (c : Char) : Bool :=
  (digitValue? c).isSome

def leadingDigits : List Char → List Nat × List Char
  | [] => ([], [])
  | c :: cs =>
    match digitValue? c with
    | some d => ((leadingDigits cs).map (d :: ·) id)
    | none => ([], c :: cs)

def ofDigits (ds : List Nat) : Nat :=
  ds.foldl (fun n d => 10 * n + d) 0

/-- The digits of a text in which every digit but the last may be followed by
one underscore. -/
def groupedDigits? : List Char → Option (List Nat)
  | [] => none
  | [c] => (digitValue? c).map ([·])
  | c :: '_' :: cs => do
    let d ← digitValue? c
    let ds ← groupedDigits? cs
    return d :: ds
  | c :: cs => do
    let d ← digitValue? c
    let ds ← groupedDigits? cs
    return d :: ds

/-- The greatest number of digits that is still read as a number. -/
def maxDigits : Nat := 4300

def readNat? (cs : List Char) : Option Nat := do
  let ds ← groupedDigits? cs
  if ds.length ≤ maxDigits then some (ofDigits ds) else none

/-- The number that a text writes: blank characters around it are ignored and
one sign may precede the digits. -/
def readInt? (cs : List Char) : Option Int :=
  match trim cs with
  | '-' :: r => (readNat? r).map fun n => -(n : Int)
  | '+' :: r => (readNat? r).map fun n => (n : Int)
  | r => (readNat? r).map fun n => (n : Int)

@[simp] theorem leadingDigits_nil : leadingDigits [] = ([], []) := rfl

@[simp] theorem ofDigits_nil : ofDigits [] = 0 := rfl

end Text

end Biblio
