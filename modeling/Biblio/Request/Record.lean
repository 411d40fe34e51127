import Biblio.Request.Field

/-!
# Operations on records

The operations on a stored record with loose arguments: growth, plain access,
queries with locators and filters, mapping, filtering and slicing. A result with
several fields is a new record of the same fields. Only growth changes the record.

Filters, conditions and functions may do to the store whatever they like, but they are
not to append to the record that they are asked about: it is looked up as a whole before
the first of them is called.
-/

namespace Biblio

namespace RecordRef

variable (r : RecordRef)

/-! ## Growth -/

def fieldOf (v : Arg) : Action FieldRef :=
  match v with
  | .field f => return f
  | .text t => Action.parseField t
  | v => throw (.argument (.entry v.typeName))

def append (v : Arg) : Action Unit := do
  Action.pushField r (← fieldOf v)

/-! ## Plain access -/

/-- The fields with a tag. What cannot be a key is refused, and what is no text is
no tag. -/
def fieldsByTag (tag : Arg) : Action (List FieldRef) := do
  match tag with
  | .text t => return (← Action.record r).lookup t
  | v => do
    Action.checkKey v
    return []

def filtersFor (l : Locator) (filters : Arg) : Action (List Query.Predicate × Query.Sieve) := do
  if l.wantField then return (← Arg.predicates filters, .pass)
  else return ([], (← Chain.ofArg filters).sieve)

/-! ## Queries -/

/-- All matches of a locator that satisfy the filters: a new record or a list of
values. The matches are those that the record has before the filters are asked. -/
def allMatches (l : Locator) (filters : Arg) : Action Datum := do
  let (ps, sieve) ← filtersFor l filters
  let s ← get
  let found := Query.matching s (s.record r).lookup l.alternatives
  if l.wantField then
    return .record (← Action.newRecord (← Query.keepFields ps (found.map Prod.snd)))
  else
    let (values, _) ← Query.collectValues sieve found
    return .texts values

def fieldResult : Query.Outcome FieldRef → Action Datum
  | .single x => return .ofOption .field x
  | .several fs => return .record (← Action.newRecord fs)

def valueResult : Query.Outcome String → Datum
  | .single x => .ofOption .text x
  | .several vs => .texts vs

/-- The matches of a locator held against its cardinality, taken from the record as it is
before the filters are asked. -/
def evaluate (l : Locator) (filters : Arg) : Action (Datum × Option QueryError) := do
  let (ps, sieve) ← filtersFor l filters
  let s ← get
  let lookup := (s.record r).lookup
  if l.wantField then
    let answer ← Query.evaluateFields s lookup l ps
    return (← fieldResult answer.outcome, answer.error)
  else
    let answer ← Query.evaluateValues s lookup l sieve
    return (valueResult answer.outcome, answer.error)

def filter (conditions : List Query.Predicate) : Action RecordRef := do
  Action.newRecord (← Query.keepFields conditions (← Action.record r).fields)

def first (locator subfield filters : Arg) : Action Datum := do
  let l ← Arg.toLocator locator subfield
  let (ps, sieve) ← filtersFor l filters
  r.firstMatch l ps sieve

/-- All matches of a locator. In place of a locator there may be a condition, or
nothing, and then all fields that satisfy the filters match. -/
def all (locator subfield filters : Arg) : Action Datum := do
  if locator.isNull then
    return .record (← r.filter (← Arg.predicates filters))
  match Chain.callable? locator with
  | some f => return .record (← r.filter (Arg.condition f :: (← Arg.predicates filters)))
  | none => r.allMatches (← Arg.toLocator locator subfield) filters

def query (locator subfield filters : Arg) : Action (Datum × Option QueryError) := do
  r.evaluate (← Arg.toLocator locator subfield) filters

def has (locator subfield : Arg) : Action Bool := do
  return !(← r.first locator subfield .null).isNull

def resolve : Mapping.Resolver := fun entry => do
  let q ← Mapping.recordQuery entry
  r.query (.text q.locator) q.subfield q.filters

def map (mapping : Arg) : Action Mapping.Findings := do
  Mapping.collect (.record r) r.resolve (← Mapping.entries mapping)

/-! ## Fields and slices -/

def apply (functions : List Query.Predicate) : Action Unit := do
  (← Action.record r).fields.forM fun f => functions.forM fun g => discard (g f)

def slice (start stop step : Arg) : Action RecordRef := do
  let s ← Arg.slice start stop step
  Action.newRecord (s.take (← Action.record r).fields)

def contains (v : Arg) : Action Bool := do
  match v with
  | .field f =>
    let s ← get
    return (s.fieldsOf r).any (·.same (s.field f))
  | v => r.has v .null

end RecordRef

def Action.createRecord (fields : Arg) : Action RecordRef := do
  if fields.isNull then Action.newRecord []
  else Action.newRecord (← (← Arg.items fields).mapM RecordRef.fieldOf)

def Action.readRecord (text : Arg) : Action RecordRef :=
  match text with
  | .text t => Action.parseRecord t
  | v => throw (.argument (.unreadable v.typeName))

end Biblio
