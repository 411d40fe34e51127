import Biblio.Text.Lines

/-!
# Tags and occurrences

A tag is three ASCII digits followed by a capital letter or `@`, an occurrence is
two ASCII digits. A full tag is a tag, optionally followed by a slash and an
occurrence. `resolve` turns what a field is created with into its tag and its
occurrence; anything that is not of the form gives the empty tag. One line feed
may follow each form.
-/

namespace Biblio

namespace Tag

def isDigit (c : Char) : Bool :=
  '0' ≤ c && c ≤ '9'

def isClass (c : Char) : Bool :=
  ('A' ≤ c && c ≤ 'Z') || c == '@'

def isTag : List Char → Bool
  | [a, b, c, d] => isDigit a && isDigit b && isDigit c && isClass d
  | _ => false

def isOccurrence : List Char → Bool
  | [a, b] => isDigit a && isDigit b
  | _ => false

def splitFull? (cs : List Char) : Option (List Char × List Char) :=
  let tag := cs.take 4
  if isTag tag then
    match cs.drop 4 with
    | [] => some (tag, [])
    | '/' :: occurrence =>
      if isOccurrence occurrence then some (tag, occurrence) else none
    | _ => none
  else none

/-- Whether a text is a full tag, possibly followed by one line feed. -/
def isFull (s : String) : Bool :=
  (splitFull? (Text.chomp s.toList)).isSome

/-- The tag and the occurrence of a field that is created with these. A text with
an occurrence of its own is accepted as tag only if no occurrence is given
beside it. -/
def resolve (tag occurrence : String) : String × String :=
  if tag = "" then ("", "")
  else if occurrence ≠ "" then
    if isTag (Text.chomp tag.toList) && isOccurrence (Text.chomp occurrence.toList) then
      (tag, occurrence)
    else ("", "")
  else
    match splitFull? (Text.chomp tag.toList) with
    | some (t, o) => (String.ofList t, String.ofList o)
    | none => ("", "")

@[simp] theorem resolve_empty (occurrence : String) : resolve "" occurrence = ("", "") := rfl

end Tag

end Biblio
