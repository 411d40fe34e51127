import Biblio.Field.Basic

/-!
# Classes of codes

A class of codes is written as in `a-d9`: single characters and ranges of code
points, complemented by a leading `^`. A hyphen stands for itself if it cannot
join two characters. A range that runs backwards makes the class malformed.
-/

namespace Biblio

structure CodeClass where
  complement : Bool
  ranges : List (Char × Char)
  deriving DecidableEq, Repr

namespace CodeClass

/-- The ranges of a class body; a single character is a range of one. -/
def readRanges? : List Char → Option (List (Char × Char))
  | [] => some []
  | lo :: '-' :: hi :: cs =>
    if hi < lo then none else (readRanges? cs).map ((lo, hi) :: ·)
  | c :: cs => (readRanges? cs).map ((c, c) :: ·)

def isMember (c : Char) : Bool :=
  Payload.isCode c || c == '-'

/-- Whether a class body is a nonempty sequence of members, possibly followed by
one line feed. -/
def isBody (cs : List Char) : Bool :=
  let body := Text.chomp cs
  !body.isEmpty && body.all isMember

/-- The class that a text writes. A line feed at the end of the text belongs to
the class. -/
def parse? (s : String) : Option CodeClass :=
  let (complement, body) :=
    match s.toList with
    | '^' :: cs => (true, cs)
    | cs => (false, cs)
  if isBody body then (readRanges? body).map fun rs => ⟨complement, rs⟩ else none

def contains (k : CodeClass) (c : Char) : Bool :=
  k.ranges.any (fun r => r.1 ≤ c && c ≤ r.2) != k.complement

/-- Whether the class accepts a code, which its first character decides. -/
def accepts (k : CodeClass) (code : String) : Bool :=
  match code.toList with
  | [] => false
  | c :: _ => k.contains c

theorem contains_not (k : CodeClass) (c : Char) :
    { k with complement := !k.complement }.contains c = !k.contains c := by
  cases h : k.complement <;> simp [contains, h]

end CodeClass

namespace Field

def restrict (f : Field) (fullTag : String) (k : Option CodeClass) : Field :=
  (f.subfields.filter fun sf => k.all (·.accepts sf.code)).foldl
    (fun g sf => g.push sf.code sf.value) (ofTag fullTag "")

end Field

end Biblio
