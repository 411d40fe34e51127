import Biblio.Grouping
import Biblio.Text.Digit
import Biblio.Field.Tag
import Biblio.Field.Payload

/-!
# Fields

A field has a tag, an occurrence and subfields in order. Beside the subfields it
keeps the index of their positions by code, which the access by code reads. A
field is built by `ofTag` and grows by `push`, which ignores empty values, and by
`pushGroups`, which adds what a payload writes.
-/

namespace Biblio

structure Subfield where
  code : String
  value : String
  deriving DecidableEq, Repr, Inhabited

/-- A tagged list of subfields. The empty tag marks a field whose tag is invalid
or missing. -/
structure Field where
  tag : String := ""
  occurrence : String := ""
  subfields : List Subfield := []
  positions : Grouping String Nat := .empty
  deriving Inhabited

namespace Field

def ofTag (tag occurrence : String) : Field :=
  let (t, o) := Tag.resolve tag occurrence
  { tag := t, occurrence := o }

/-! ## Growth -/

/-- Adds a subfield at the end and files its position; an empty value is
ignored. -/
def push (f : Field) (code value : String) : Field :=
  if value = "" then f
  else
    { f with
      subfields := f.subfields ++ [⟨code, value⟩]
      positions := f.positions.add code f.subfields.length }

/-- Whether a text is accepted as a subfield code: one ASCII letter or digit,
possibly followed by one line feed. -/
def isCodeForm (code : String) : Bool :=
  match Text.chomp code.toList with
  | [c] => Payload.isCode c
  | _ => false

def pushGroups (f : Field) (gs : List Payload.Group) : Field :=
  gs.foldl (fun f g => f.push (String.singleton g.1) (String.ofList g.2)) f

/-! ## Properties -/

def fullTag (f : Field) : String :=
  if f.tag ≠ "" ∧ f.occurrence ≠ "" then f.tag ++ "/" ++ f.occurrence else f.tag

def ok (f : Field) : Bool :=
  f.tag ≠ "" && !f.subfields.isEmpty

/-- The level of the record that the field belongs to, which the first digit of
the tag tells. -/
def level? (f : Field) : Option Nat :=
  f.tag.toList.head?.bind Text.digitValue?

def number? (f : Field) : Option Int :=
  if f.occurrence = "" then none else Text.readInt? f.occurrence.toList

/-! ## Access -/

def values (f : Field) : List String :=
  f.subfields.map Subfield.value

def codes (f : Field) : List String :=
  f.subfields.map Subfield.code

def valueAt? (f : Field) (i : Nat) : Option String :=
  f.subfields[i]?.map Subfield.value

def hasCode (f : Field) (code : String) : Bool :=
  f.positions.keys.contains code

def valuesFor (f : Field) (code : String) : List String :=
  (f.positions.find code).filterMap f.valueAt?

def byCode? (f : Field) (code : String) : Option String :=
  (f.positions.find code).head?.bind f.valueAt?

def same (f g : Field) : Bool :=
  f.tag == g.tag && f.occurrence == g.occurrence && f.subfields == g.subfields

def sameLabel (f g : Field) : Bool :=
  f.tag == g.tag && f.occurrence == g.occurrence

/-! ## Equations -/

@[simp] theorem push_empty (f : Field) (code : String) : f.push code "" = f := by
  simp [push]

@[simp] theorem tag_push (f : Field) (code value : String) : (f.push code value).tag = f.tag := by
  unfold push
  split <;> rfl

@[simp] theorem occurrence_push (f : Field) (code value : String) :
    (f.push code value).occurrence = f.occurrence := by
  unfold push
  split <;> rfl

theorem subfields_push (f : Field) (code value : String) :
    (f.push code value).subfields =
      f.subfields ++ if value = "" then [] else [⟨code, value⟩] := by
  unfold push
  split <;> simp

@[simp] theorem pushGroups_nil (f : Field) : f.pushGroups [] = f := rfl

@[simp] theorem pushGroups_cons (f : Field) (g : Payload.Group) (gs : List Payload.Group) :
    f.pushGroups (g :: gs) =
      (f.push (String.singleton g.1) (String.ofList g.2)).pushGroups gs := rfl

end Field

end Biblio
