/-!
# Quoted texts

Messages show a text in quotes. The quote is single unless the text has a single
quote and no double one; that quote and the backslash are escaped by a backslash,
line feed, carriage return and tab have letters of their own, and every other
character without a visible form is written by its code point in hexadecimal.
-/

namespace Biblio

namespace Text

/-- The code points of the invisible format characters of Unicode 14, as
inclusive ranges. -/
def formatRanges : List (Nat × Nat) :=
  [(0xad, 0xad), (0x600, 0x605), (0x61c, 0x61c), (0x6dd, 0x6dd), (0x70f, 0x70f),
   (0x890, 0x891), (0x8e2, 0x8e2), (0x180e, 0x180e), (0x200b, 0x200f), (0x202a, 0x202e),
   (0x2060, 0x2064), (0x2066, 0x206f), (0xfeff, 0xfeff), (0xfff9, 0xfffb),
   (0x110bd, 0x110bd), (0x110cd, 0x110cd), (0x13430, 0x13438), (0x1bca0, 0x1bca3),
   (0x1d173, 0x1d17a), (0xe0001, 0xe0001), (0xe0020, 0xe007f)]

/-- The code points of the separators other than the space, as inclusive
ranges. -/
def separatorRanges : List (Nat × Nat) :=
  [(0xa0, 0xa0), (0x1680, 0x1680), (0x2000, 0x200a), (0x2028, 0x2029), (0x202f, 0x202f),
   (0x205f, 0x205f), (0x3000, 0x3000)]

/-- The code points that have no character for good: private use and
noncharacters. -/
def isReserved (n : Nat) : Bool :=
  (0xe000 ≤ n && n ≤ 0xf8ff) || (0xfdd0 ≤ n && n ≤ 0xfdef) || 0xf0000 ≤ n ||
    n % 0x10000 == 0xfffe || n % 0x10000 == 0xffff

def isVisible (c : Char) : Bool :=
  let n := c.toNat
  if n < 0x7f then 0x20 ≤ n
  else if n < 0xa0 then false
  else !(isReserved n || (formatRanges ++ separatorRanges).any fun r => r.1 ≤ n && n ≤ r.2)

def hex (width n : Nat) : List Char :=
  let ds := Nat.toDigits 16 n
  List.replicate (width - ds.length) '0' ++ ds

/-- A character written by its code point, in the shortest of the three forms. -/
def escapeCode (c : Char) : List Char :=
  let n := c.toNat
  if n < 0x100 then '\\' :: 'x' :: hex 2 n
  else if n < 0x10000 then '\\' :: 'u' :: hex 4 n
  else '\\' :: 'U' :: hex 8 n

def escape (shown : Char → Bool) (mark c : Char) : List Char :=
  if c == mark || c == '\\' then ['\\', c]
  else if c == '\n' then ['\\', 'n']
  else if c == '\r' then ['\\', 'r']
  else if c == '\t' then ['\\', 't']
  else if shown c then [c]
  else escapeCode c

def mark (cs : List Char) : Char :=
  if cs.contains '\'' && !cs.contains '"' then '"' else '\''

def quoteWith (shown : Char → Bool) (s : String) : String :=
  let cs := s.toList
  let m := mark cs
  String.ofList (m :: cs.flatMap (escape shown m) ++ [m])

def quote (s : String) : String :=
  quoteWith isVisible s

def quoteAscii (s : String) : String :=
  quoteWith (fun c => c.toNat < 0x80 && isVisible c) s

def toAscii (s : String) : String :=
  String.ofList (s.toList.flatMap fun c => if c.toNat < 0x80 then [c] else escapeCode c)

example : quote "it's" = "\"it's\"" := by decide +kernel

example : quote "a\\'\"\n" = "'a\\\\\\'\"\\n'" := by decide +kernel

example : quote "\u200b" = "'\\u200b'" := by decide +kernel

end Text

end Biblio
