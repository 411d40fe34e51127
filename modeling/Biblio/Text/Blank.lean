/-!
# Blank characters

`isBlank` is the table of blank characters, `trim` strips them from both ends of
a text. A text of blank characters only is blank itself.
-/

namespace Biblio

namespace Text

/-- The blank characters: the controls from tab to carriage return and from the
file separator to the space, the next line control, and the space separators
together with the line and the paragraph separator. -/
def isBlank (c : Char) : Bool :=
  let n := c.toNat
  (0x09 ≤ n && n ≤ 0x0D) || (0x1C ≤ n && n ≤ 0x20) || n == 0x85 || n == 0xA0 ||
    n == 0x1680 || (0x2000 ≤ n && n ≤ 0x200A) || n == 0x2028 || n == 0x2029 ||
    n == 0x202F || n == 0x205F || n == 0x3000

def dropEndWhile {α : Type} (p : α → Bool) (xs : List α) : List α :=
  (xs.reverse.dropWhile p).reverse

def trim (cs : List Char) : List Char :=
  dropEndWhile isBlank (cs.dropWhile isBlank)

@[simp] theorem dropEndWhile_nil {α : Type} (p : α → Bool) :
    dropEndWhile p [] = [] := rfl

@[simp] theorem trim_nil : trim [] = [] := rfl

theorem dropEndWhile_concat_of_not {α : Type} (p : α → Bool) (xs : List α) (x : α)
    (h : p x = false) : dropEndWhile p (xs ++ [x]) = xs ++ [x] := by
  simp [dropEndWhile, h]

theorem dropEndWhile_concat_of {α : Type} (p : α → Bool) (xs : List α) (x : α)
    (h : p x = true) : dropEndWhile p (xs ++ [x]) = dropEndWhile p xs := by
  simp [dropEndWhile, h]

end Text

end Biblio
