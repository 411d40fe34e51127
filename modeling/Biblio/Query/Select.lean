import Biblio.Store.Value

/-!
# Running locators

The matches of a locator are the pairs of an alternative and a field with its tag
and an occurrence that it accepts: alternatives come in the order of the locator
and the fields of one in the order of the record. A query of fields keeps the
matches that satisfy its predicates; a query of values collects what the selectors
of the alternatives yield and a sieve lets through. `evaluateFields` and
`evaluateValues` hold the result against the cardinality of the locator.

All matches are taken before a predicate or a sieve is asked about the first of them.
Records are read-only once they are built, and so a predicate or a sieve is not to add to
the record that is queried. As long as none does, a loop over the buckets of the record as
they are at each turn ends in the same way.
-/

namespace Biblio

namespace Query

abbrev Lookup := String → List FieldRef

abbrev Predicate := FieldRef → Action Bool

abbrev Match := Alternative × FieldRef

/-- What a query lets through of the values it finds, possibly replaced by others. -/
structure Sieve where
  all : List String → Action (List String)
  /-- The first value that is let through; the values behind it are not looked at. -/
  first : List String → Action (Option String)

def Sieve.pass : Sieve where
  all := fun vs => return vs
  first := fun vs => return vs.head?

def accepts (s : Store) (a : Alternative) (f : FieldRef) : Bool :=
  a.occurrence.accepts (s.field f).occurrence

def matching (s : Store) (lookup : Lookup) (alternatives : List Alternative) : List Match :=
  alternatives.flatMap fun a => ((lookup a.tag).filter (accepts s a)).map (a, ·)

/-! ## Values of one field -/

/-- What the selector makes of the values that are left after filtering, other than
by the flag `?`: an error if there are too few or too many, and a placeholder if
there are none and it asks for one. -/
def checkValues (fullTag : String) (sel : Selector) (values : List String) :
    List String × Option QueryError :=
  if values.isEmpty && (sel.flag? = some .one || sel.flag? = some .some) then
    ([], some (.subfieldNotFound sel fullTag))
  else if sel.flag? = some .one && values.length > 1 then
    ([], some (.subfieldRepeated sel fullTag values.length))
  else if values.isEmpty && sel.placeholder then ([""], none)
  else (values, none)

/-- The values of a field that a selector selects and a sieve lets through, or the error
if they are not as many as the selector asks for. The flag `?` takes the first value
that is let through and looks no further. -/
def queryField (f : Field) (sel : Selector) (sieve : Sieve) :
    Action (List String × Option QueryError) := do
  match sel.code with
  | none => return (← sieve.all f.values, none)
  | some code =>
    let candidates := f.valuesFor code
    let values ←
      if sel.flag? = some .optional then Option.toList <$> sieve.first candidates
      else sieve.all candidates
    return checkValues f.fullTag sel values

def selectorOf (part : String) (a : Alternative) : Action Selector :=
  match a.subfield with
  | some sel => return sel
  | none => throw (.operation (.noMember "NoneType" part))

/-! ## Fields -/

/-- Whether a field satisfies all predicates; the first that fails ends the
test. -/
def satisfies : List Predicate → FieldRef → Action Bool
  | [], _ => return true
  | p :: ps, f => do
    if ← p f then satisfies ps f else return false

def keepFields (ps : List Predicate) : List FieldRef → Action (List FieldRef)
  | [] => return []
  | f :: fs => do
    if ← satisfies ps f then return f :: (← keepFields ps fs)
    else keepFields ps fs

/-- The first field that satisfies the predicates; the fields behind it are not
tested. -/
def firstField (ps : List Predicate) : List FieldRef → Action (Option FieldRef)
  | [] => return none
  | f :: fs => do
    if ← satisfies ps f then return some f else firstField ps fs

/-! ## Values -/

/-- The values that the matches contribute, and the errors of single fields. -/
def collectValues (sieve : Sieve) : List Match → Action (List String × List QueryError)
  | [] => return ([], [])
  | (a, f) :: ms => do
    let (values, error) ← queryField (← Action.field f) (← selectorOf "code" a) sieve
    let (rest, errors) ← collectValues sieve ms
    return (values ++ rest, error.toList ++ errors)

/-- The first value of the first matched field, whatever the other fields have, and
the error of that field. Alternatives behind its own one are not looked at. -/
def firstValue (s : Store) (lookup : Lookup) (sieve : Sieve) :
    List Alternative → Action (Option String × Option QueryError)
  | [] => return (none, none)
  | a :: as => do
    let sel := (← selectorOf "with_default" a).withDefault "?"
    match (lookup a.tag).find? (accepts s a) with
    | none => firstValue s lookup sieve as
    | some f => do
      let (values, error) ← queryField (← Action.field f) sel sieve
      return (values.head?, error)

/-! ## Cardinality -/

inductive Outcome (α : Type) where
  | single (x : Option α)
  | several (xs : List α)
  deriving DecidableEq, Repr

structure Answer (α : Type) where
  outcome : Outcome α
  error : Option QueryError
  deriving DecidableEq, Repr

def shortfall (flag : Flag) (source : String) (kind : MatchKind) (count : Nat) :
    Option QueryError :=
  match flag with
  | .one =>
    if count = 0 then some (.notFound source)
    else if count = 1 then none
    else some (.severalForOne source count kind)
  | .optional => if count ≤ 1 then none else some (.severalForOptional source count kind)
  | .some => if count = 0 then some (.notFound source) else none
  | .any => none

def only? {α : Type} : List α → Option α
  | [x] => some x
  | _ => none

/-- The matches held against a flag. If the flag is met, the first error of a single
field is reported. -/
def settle {α : Type} (flag : Flag) (source : String) (kind : MatchKind) (xs : List α)
    (errors : List QueryError) : Answer α where
  outcome := match flag with
    | .one | .optional => .single (only? xs)
    | .some | .any => .several xs
  error := (shortfall flag source kind xs.length).or errors.head?

/-- The flag that the matches of a locator are held against if it has a cardinality. A
cardinality that is no flag asks for any number of matches. -/
def flagOf (l : Locator) : Flag :=
  l.flag?.getD .any

/-- Runs a locator of fields. Without cardinality the first match is the result. -/
def evaluateFields (s : Store) (lookup : Lookup) (l : Locator) (ps : List Predicate) :
    Action (Answer FieldRef) := do
  let fs := (matching s lookup l.alternatives).map Prod.snd
  if l.cardinality = "" then
    return { outcome := .single (← firstField ps fs), error := none }
  else return settle (flagOf l) l.write .fields (← keepFields ps fs) []

def evaluateValues (s : Store) (lookup : Lookup) (l : Locator) (sieve : Sieve) :
    Action (Answer String) := do
  if l.cardinality = "" then
    let (value, error) ← firstValue s lookup sieve l.alternatives
    return { outcome := .single value, error := if value.isSome then none else error }
  else
    let (values, errors) ← collectValues sieve (matching s lookup l.alternatives)
    return settle (flagOf l) l.write .values values errors

end Query

end Biblio
