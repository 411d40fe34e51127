import Biblio.Field.Basic
import Biblio.Text.Quoted

/-!
# Lines of fields

A field is written on one line: its full tag, a space and its payload. Reading is
lenient about blank characters around the full tag and about a missing one. A
line that is no field is rejected for its tag or for its payload, and counts as
the field without tag and subfields.
-/

namespace Biblio

namespace Field

inductive Rejection where
  | tag
  | subfields
  deriving DecidableEq, Repr

def splitLine (cs : List Char) : List Char × List Char :=
  (cs.takeWhile (· != '$'), cs.dropWhile (· != '$'))

/-- The field that a line writes. Line breaks at the end of the line do not
belong to it. -/
def read (line : String) : Except Rejection Field :=
  let (label, payload) := splitLine (Text.chop line.toList)
  let tag := Text.trim label
  let f := ofTag (String.ofList tag) ""
  if tag ≠ [] ∧ f.tag = "" then .error .tag
  else
    match Payload.decode? payload with
    | none => .error .subfields
    | some gs => .ok (f.pushGroups gs)

/-- The field that a line writes; a rejected line counts as the empty field. -/
def parse (line : String) : Field :=
  match read line with
  | .ok f => f
  | .error _ => {}

def writeSubfield (sf : Subfield) : List Char :=
  '$' :: sf.code.toList ++ Payload.encodeValue sf.value.toList

def payload (f : Field) : String :=
  String.ofList (f.subfields.flatMap writeSubfield)

def line (f : Field) : String :=
  if f.fullTag ≠ "" ∧ f.payload ≠ "" then f.fullTag ++ " " ++ f.payload
  else f.fullTag ++ f.payload

def shown (f : Field) : String :=
  "Field.parse(" ++ Text.quote f.line ++ ")"

theorem parse_of_read_error {line : String} {e : Rejection} (h : read line = .error e) :
    parse line = {} := by
  simp [parse, h]

theorem parse_of_read_ok {line : String} {f : Field} (h : read line = .ok f) :
    parse line = f := by
  simp [parse, h]

end Field

end Biblio
