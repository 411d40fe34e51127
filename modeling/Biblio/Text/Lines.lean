import Biblio.Text.Blank

/-!
# Lines

A text is cut into lines at carriage returns and line feeds. A run of several
breaks leaves empty lines behind, which readers of lines skip together with the
blank ones. `chop` removes the breaks at the end of one line, and `chomp` a
single final line feed: a form that is closed at the end of a text may be
followed by one.
-/

namespace Biblio

namespace Text

def isBreak (c : Char) : Bool :=
  c == '\n' || c == '\r'

def lines : List Char → List (List Char)
  | [] => [[]]
  | c :: cs =>
    if isBreak c then [] :: lines cs
    else match lines cs with
      | [] => [[c]]
      | l :: ls => (c :: l) :: ls

def blank (cs : List Char) : Bool :=
  cs.all isBlank

def solidLines (cs : List Char) : List (List Char) :=
  (lines cs).filter fun l => !blank l

def chop (cs : List Char) : List Char :=
  dropEndWhile isBreak cs

def chomp : List Char → List Char
  | [] => []
  | ['\n'] => []
  | c :: cs => c :: chomp cs

@[simp] theorem lines_nil : lines [] = [[]] := rfl

theorem lines_ne_nil (cs : List Char) : lines cs ≠ [] := by
  induction cs with
  | nil => simp
  | cons c cs ih =>
      rw [lines]
      split
      · simp
      · cases h : lines cs <;> simp

theorem lines_cons_of_isBreak {c : Char} (cs : List Char) (h : isBreak c = true) :
    lines (c :: cs) = [] :: lines cs := by
  simp [lines, h]

@[simp] theorem chomp_nil : chomp [] = [] := rfl

@[simp] theorem chomp_concat (cs : List Char) : chomp (cs ++ ['\n']) = cs := by
  induction cs with
  | nil => rfl
  | cons c cs ih =>
      cases cs with
      | nil => simp [chomp]
      | cons d ds => simpa [chomp] using ih

end Text

end Biblio
