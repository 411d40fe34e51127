import Biblio.Locator.Basic

/-!
# Query errors

A query that runs but does not find as many matches as it asks for returns its
result together with an error, which names the selector or the locator that is not
met. Query errors are never raised.
-/

namespace Biblio

inductive MatchKind where
  | fields
  | values
  deriving DecidableEq, Repr

namespace MatchKind

def noun : MatchKind → String
  | fields => "fields"
  | values => "values"

end MatchKind

inductive QueryError where
  | subfieldNotFound (selector : Selector) (fullTag : String)
  | subfieldRepeated (selector : Selector) (fullTag : String) (count : Nat)
  | notFound (source : String)
  | severalForOne (source : String) (count : Nat) (kind : MatchKind)
  | severalForOptional (source : String) (count : Nat) (kind : MatchKind)
  deriving DecidableEq, Repr

namespace QueryError

def place (fullTag : String) : String :=
  if fullTag = "" then "" else " in field " ++ fullTag

def message : QueryError → String
  | subfieldNotFound s t => "subfield " ++ s.code.getD "" ++ " not found" ++ place t
  | subfieldRepeated s t _ => "subfield " ++ s.code.getD "" ++ " is repeated" ++ place t
  | notFound s => s ++ ": not found"
  | severalForOne s n k => s ++ ": got " ++ toString n ++ " " ++ k.noun ++ " instead of one"
  | severalForOptional s n k =>
    s ++ ": got " ++ toString n ++ " " ++ k.noun ++ " instead of at most one"

def locator : QueryError → String
  | subfieldNotFound s _ | subfieldRepeated s _ _ => s.write
  | notFound s | severalForOne s _ _ | severalForOptional s _ _ => s

def count? : QueryError → Option Nat
  | subfieldRepeated _ _ n | severalForOne _ n _ | severalForOptional _ n _ => some n
  | subfieldNotFound .. | notFound _ => none

end QueryError

end Biblio
