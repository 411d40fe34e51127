import Biblio.Text.Quoted

/-!
# Locators

A locator names fields of a record, or values of their subfields. It lists
alternatives, each a tag with a condition on the occurrence and, for values, a
subfield selector. Cardinalities say how many matches are expected: the one of a
selector within a field, the one of the locator among all matches. A cardinality is a
text; the four flags are the texts that mean something, and any other one is kept but
asks for nothing. `toString` gives the written forms, which `Locator.parse` reads.
-/

namespace Biblio

inductive Flag where
  /-- Exactly one, written `!`. -/
  | one
  /-- The first if any, written `?`. -/
  | optional
  /-- At least one, written `+`. -/
  | some
  /-- Any number, written `*`. -/
  | any
  deriving DecidableEq, Repr, Inhabited

namespace Flag

def toChar : Flag → Char
  | one => '!'
  | optional => '?'
  | some => '+'
  | any => '*'

def ofChar? : Char → Option Flag
  | '!' => Option.some one
  | '?' => Option.some optional
  | '+' => Option.some some
  | '*' => Option.some any
  | _ => none

def write (k : Flag) : String :=
  String.singleton k.toChar

def ofText? (s : String) : Option Flag :=
  match s.toList with
  | [c] => ofChar? c
  | _ => none

/-- The flag at the front of a text, which may be missing, and the text behind it. -/
def split : List Char → String × List Char
  | [] => ("", [])
  | c :: cs =>
    match ofChar? c with
    | Option.some k => (k.write, cs)
    | none => ("", c :: cs)

@[simp] theorem ofChar?_toChar (k : Flag) : ofChar? k.toChar = Option.some k := by
  cases k <;> rfl

@[simp] theorem ofText?_write (k : Flag) : ofText? k.write = Option.some k := by
  simp [ofText?, write]

@[simp] theorem ofText?_empty : ofText? "" = none := rfl

end Flag

inductive OccurrenceMode where
  | any
  | none
  | some
  | exact
  deriving DecidableEq, Repr, Inhabited

/-- A condition on occurrences; the value matters to the mode `exact` only. -/
structure OccurrenceMatcher where
  mode : OccurrenceMode := .any
  value : String := ""
  deriving DecidableEq, Repr, Inhabited

namespace OccurrenceMatcher

def accepts (m : OccurrenceMatcher) (occurrence : String) : Bool :=
  match m.mode with
  | .any => true
  | .none => occurrence == ""
  | .some => occurrence != ""
  | .exact => occurrence == m.value

def write (m : OccurrenceMatcher) : String :=
  match m.mode with
  | .any => ""
  | .none => "/"
  | .some => "/xx"
  | .exact => "/" ++ m.value

instance : ToString OccurrenceMatcher := ⟨write⟩

end OccurrenceMatcher

/-- A subfield code with the cardinality expected within a field. Without code
every value is selected. A placeholder asks for an empty value where there is
none. -/
structure Selector where
  code : Option String := none
  cardinality : String := ""
  placeholder : Bool := false
  deriving DecidableEq, Repr, Inhabited

namespace Selector

def all : Selector := {}

def flag? (s : Selector) : Option Flag :=
  Flag.ofText? s.cardinality

def withDefault (s : Selector) (cardinality : String) : Selector :=
  if s.cardinality ≠ "" || s.code.isNone then s else { s with cardinality }

def write (s : Selector) : String :=
  match s.code with
  | none => ""
  | some code => code ++ s.cardinality ++ if s.placeholder then "_" else ""

instance : ToString Selector := ⟨write⟩

end Selector

structure Alternative where
  tag : String
  occurrence : OccurrenceMatcher := {}
  subfield : Option Selector := none
  deriving DecidableEq, Repr, Inhabited

namespace Alternative

def write (a : Alternative) : String :=
  a.tag ++ a.occurrence.write ++
    match a.subfield with
    | none => ""
    | some s => "$" ++ s.write

instance : ToString Alternative := ⟨write⟩

end Alternative

/-- A query plan: alternatives that are tried in order, for fields or for values,
with the cardinality expected among all matches. -/
structure Locator where
  alternatives : List Alternative
  wantField : Bool
  cardinality : String := ""
  source : String := ""
  deriving DecidableEq, Repr, Inhabited

namespace Locator

def flag? (l : Locator) : Option Flag :=
  Flag.ofText? l.cardinality

def tags (l : Locator) : List String :=
  l.alternatives.map Alternative.tag

def writePlan (l : Locator) : String :=
  l.cardinality ++ "|".intercalate (l.alternatives.map Alternative.write)

/-- The text that the locator was read from, if any, and otherwise its written
form. -/
def write (l : Locator) : String :=
  if l.source ≠ "" then l.source else l.writePlan

instance : ToString Locator := ⟨write⟩

end Locator

end Biblio
