import Biblio.Text.Digit
import Biblio.Text.Quoted

/-!
# Layouts

A layout says how a text or a number is set: filled up to a width on the left, on the
right or on both sides, and cut to a precision. Marks that only numbers have are read
everywhere and refused for texts. `TemplateError` lists what can be wrong with a
template and its layouts.
-/

namespace Biblio

inductive TemplateError where
  | loneBrace (c : Char)
  | unclosed
  | braceInName
  | unclosedLayout
  | missingConversion
  | afterConversion
  | unknownConversion (c : Char)
  | tooDeep
  | automaticAfterManual
  | manualAfterAutomatic
  | tooManyDigits
  | noPosition (index : Nat)
  | noName (name : String)
  | emptyMember
  | afterBracket
  | noLayout (typeName : String)
  | missingPrecision
  | invalidLayout (text typeName : String)
  | unknownCode (c : Char) (typeName : String)
  | signed (c : Char)
  | negativeZero
  | alternate
  | signAlignment
  | grouped (mark code : Char)
  | groupedTwice
  | integerPrecision
  | integerZero
  | signedCharacter
  | alternateCharacter
  | noCharacterCode
  deriving DecidableEq, Repr

namespace TemplateError

def inQuotes (c : Char) : String :=
  "'" ++ String.singleton c ++ "'"

def coded (bound : Nat) (c : Char) : String :=
  if 0x20 < c.toNat ∧ c.toNat < bound then String.singleton c
  else "\\x" ++ String.ofList (Text.hex 1 c.toNat)

def codeInQuotes (c : Char) : String :=
  "'" ++ coded 0x80 c ++ "'"

def message : TemplateError → String
  | loneBrace c => "Single " ++ inQuotes c ++ " encountered in format string"
  | unclosed => "expected '\x7d' before end of string"
  | braceInName => "unexpected '\x7b' in field name"
  | unclosedLayout => "unmatched '\x7b' in format spec"
  | missingConversion => "end of string while looking for conversion specifier"
  | afterConversion => "expected ':' after conversion specifier"
  | unknownConversion c => "Unknown conversion specifier " ++ coded 0x7f c
  | tooDeep => "Max string recursion exceeded"
  | automaticAfterManual =>
    "cannot switch from manual field specification to automatic field numbering"
  | manualAfterAutomatic =>
    "cannot switch from automatic field numbering to manual field specification"
  | tooManyDigits => "Too many decimal digits in format string"
  | noPosition i =>
    "Replacement index " ++ toString i ++ " out of range for positional args tuple"
  | noName name => Text.quote name
  | emptyMember => "Empty attribute in format string"
  | afterBracket => "Only '.' or '[' may follow ']' in format field specifier"
  | noLayout t => "unsupported format string passed to " ++ t ++ ".__format__"
  | missingPrecision => "Format specifier missing precision"
  | invalidLayout s t => "Invalid format specifier '" ++ s ++ "' for object of type '" ++ t ++ "'"
  | unknownCode c t =>
    "Unknown format code " ++ codeInQuotes c ++ " for object of type '" ++ t ++ "'"
  | signed ' ' => "Space not allowed in string format specifier"
  | signed _ => "Sign not allowed in string format specifier"
  | negativeZero => "Negative zero coercion (z) not allowed in string format specifier"
  | alternate => "Alternate form (#) not allowed in string format specifier"
  | signAlignment => "'=' alignment not allowed in string format specifier"
  | grouped mark code => "Cannot specify " ++ inQuotes mark ++ " with " ++ codeInQuotes code ++ "."
  | groupedTwice => "Cannot specify both ',' and '_'."
  | integerPrecision => "Precision not allowed in integer format specifier"
  | integerZero => "Negative zero coercion (z) not allowed in integer format specifier"
  | signedCharacter => "Sign not allowed with integer format specifier 'c'"
  | alternateCharacter => "Alternate form (#) not allowed with integer format specifier 'c'"
  | noCharacterCode => "%c arg not in range(0x110000)"

end TemplateError

namespace Template

/-- Where the text stands in its width; `sign` fills between a sign and its
number. -/
inductive Align where
  | left
  | right
  | center
  | sign
  deriving DecidableEq, Repr

def Align.ofChar? : Char → Option Align
  | '<' => some .left
  | '>' => some .right
  | '^' => some .center
  | '=' => some .sign
  | _ => none

inductive LayoutKind where
  | text
  | integer
  | real
  deriving DecidableEq, Repr

namespace LayoutKind

def align : LayoutKind → Align
  | text => .left
  | integer | real => .right

def code : LayoutKind → Option Char
  | text => some 's'
  | integer => some 'd'
  | real => none

end LayoutKind

structure Layout where
  fill : Char := ' '
  align : Align
  sign : Option Char := none
  negativeZero : Bool := false
  alternate : Bool := false
  width : Option Nat := none
  grouping : Option Char := none
  precision : Option Nat := none
  code : Option Char
  deriving DecidableEq, Repr

namespace Layout

def maxSize : Nat := Nat.pow 2 63 - 1

def readSize (cs : List Char) : Except TemplateError (Option Nat × List Char) :=
  match Text.leadingDigits cs with
  | ([], rest) => .ok (none, rest)
  | (ds, rest) =>
    let n := Text.ofDigits ds
    if n ≤ maxSize then .ok (some n, rest) else .error .tooManyDigits

def readAlign (cs : List Char) : Option Char × Option Align × List Char :=
  match cs with
  | f :: a :: rest =>
    match Align.ofChar? a with
    | some align => (some f, some align, rest)
    | none =>
      match Align.ofChar? f with
      | some align => (none, some align, a :: rest)
      | none => (none, none, cs)
  | [a] =>
    match Align.ofChar? a with
    | some align => (none, some align, [])
    | none => (none, none, cs)
  | [] => (none, none, [])

/-- Reads a zero in front of the width. Unless a fill is given, the zero is one; it
stands behind the sign of a number that has no alignment. -/
def readZero (kind : LayoutKind) (fill : Option Char) (align : Option Align) (l : Layout)
    (cs : List Char) : Layout × List Char :=
  match fill, cs with
  | none, '0' :: rest =>
    let align := if align.isNone ∧ kind.align = .right then .sign else l.align
    ({ l with fill := '0', align }, rest)
  | _, _ => (l, cs)

def readMarks (l : Layout) (cs : List Char) : Layout × List Char :=
  let (l, cs) :=
    match cs with
    | c :: rest =>
      if c = ' ' ∨ c = '+' ∨ c = '-' then ({ l with sign := some c }, rest) else (l, cs)
    | [] => (l, cs)
  let (l, cs) :=
    match cs with
    | 'z' :: rest => ({ l with negativeZero := true }, rest)
    | _ => (l, cs)
  match cs with
  | '#' :: rest => ({ l with alternate := true }, rest)
  | _ => (l, cs)

def readGrouping (l : Layout) (cs : List Char) : Except TemplateError (Layout × List Char) :=
  match cs with
  | ',' :: '_' :: _ => .error .groupedTwice
  | '_' :: ',' :: _ => .error .groupedTwice
  | ',' :: rest => .ok ({ l with grouping := some ',' }, rest)
  | '_' :: rest => .ok ({ l with grouping := some '_' }, rest)
  | _ => .ok (l, cs)

def readPrecision (l : Layout) (cs : List Char) : Except TemplateError (Layout × List Char) :=
  match cs with
  | '.' :: rest => do
    match ← readSize rest with
    | (none, _) => throw .missingPrecision
    | (precision, rest) => return ({ l with precision }, rest)
  | _ => .ok (l, cs)

def groupingCodes : Char → List Char
  | '_' => ['d', 'e', 'f', 'g', 'E', 'G', '%', 'F', 'b', 'o', 'x', 'X']
  | _ => ['d', 'e', 'f', 'g', 'E', 'G', '%', 'F']

def parse (kind : LayoutKind) (typeName : String) (text : List Char) :
    Except TemplateError Layout := do
  let (fill, align, cs) := readAlign text
  let l : Layout :=
    { fill := fill.getD ' ', align := align.getD kind.align, code := kind.code }
  let (l, cs) := readMarks l cs
  let (l, cs) := readZero kind fill align l cs
  let (width, cs) ← readSize cs
  let (l, cs) ← readGrouping { l with width } cs
  let (l, cs) ← readPrecision l cs
  let l ← match cs with
    | [] => pure l
    | [c] => pure { l with code := some c }
    | _ => throw (.invalidLayout (String.ofList text) typeName)
  match l.grouping, l.code with
  | some mark, some code =>
    if (groupingCodes mark).contains code then return l else throw (.grouped mark code)
  | _, _ => return l

/-! ## Texts -/

def checkText (l : Layout) (typeName : String) : Except TemplateError Unit := do
  if let some c := l.code then
    if c ≠ 's' then throw (.unknownCode c typeName)
  if let some c := l.sign then throw (.signed c)
  if l.negativeZero then throw .negativeZero
  if l.alternate then throw .alternate
  if l.align = .sign then throw .signAlignment

/-- The list filled up to the width. In the center the odd fill character goes to the
right. -/
def pad (l : Layout) (cs : List Char) : List Char :=
  let missing := l.width.getD 0 - cs.length
  let before := match l.align with
    | .right => missing
    | .center => missing / 2
    | _ => 0
  List.replicate before l.fill ++ cs ++ List.replicate (missing - before) l.fill

def setText (l : Layout) (cs : List Char) : List Char :=
  l.pad (match l.precision with
    | none => cs
    | some n => cs.take n)

def applyText (layout cs : List Char) : Except TemplateError (List Char) := do
  let l ← parse .text "str" layout
  l.checkText "str"
  return l.setText cs

end Layout

end Template

end Biblio
