import Biblio.Field.Line

/-!
# Notes

Degraded data is no fault, but it leaves a note: a rejected line, a record with
fields without tag, and a callback of a mapping that failed.
-/

namespace Biblio

inductive Note where
  /-- A line is rejected; it stands here without the breaks at its end. -/
  | rejected (reason : Field.Rejection) (line : String)
  | degraded (fields invalid : Nat)
  | failedCallback (key message : String)
  deriving DecidableEq, Repr

inductive NoteLevel where
  | debug
  | warning
  deriving DecidableEq, Repr

namespace NoteLevel

def name : NoteLevel → String
  | debug => "DEBUG"
  | warning => "WARNING"

end NoteLevel

namespace Note

def channel : Note → String
  | rejected .. => "pica.field"
  | degraded .. => "pica.record"
  | failedCallback .. => "pica.mapper"

def level : Note → NoteLevel
  | rejected .. | degraded .. => .debug
  | failedCallback .. => .warning

def message : Note → String
  | rejected .tag line => "invalid tag in line " ++ Text.quote line
  | rejected .subfields line => "invalid subfield data in line " ++ Text.quote line
  | degraded fields invalid =>
    "parsed record with " ++ toString fields ++ " fields, " ++ toString invalid ++ " invalid"
  | failedCallback key message => "mapping callback for " ++ key ++ " failed: " ++ message

def ofLine? (line : String) : Option Note :=
  match Field.read line with
  | .ok _ => none
  | .error reason => some (.rejected reason (String.ofList (Text.chop line.toList)))

end Note

end Biblio
