import Biblio.Request.Mapping

/-!
# Operations on fields

The operations on a stored field with loose arguments: growth, plain access,
queries with selectors and filters, mapping, joining and copying. Only growth
changes the field, and no operation changes another one.
-/

namespace Biblio

namespace FieldRef

variable (f : FieldRef)

/-! ## Growth -/

/-- Adds a subfield at the end; an empty value is ignored. -/
def append (code value : Arg) : Action Unit := do
  match code with
  | .text c =>
    if !Field.isCodeForm c then throw (.content (.code (Text.quote c)))
    match value with
    | .text v => Action.pushSubfield f c v
    | v => throw (.argument (.value v.typeName))
  | c => throw (.content (.code ((← get).shown c)))

/-- Adds pairs of codes and values one by one; those in front of a bad one stay. -/
def extendItems : List Arg → Action Unit
  | [] => return ()
  | x :: xs => do
    let (code, value) ← Arg.pair x
    append f code value
    extendItems xs

def extend (data : Arg) : Action Unit := do
  match data with
  | .text t =>
    match Payload.decode? t.toList with
    | some gs => Action.pushGroups f gs
    | none => throw (.content (.payload t))
  | v => f.extendItems (← Arg.items v)

/-! ## Plain access -/

/-- The value at a position, if the field has that position. A real number is compared
with the positions before it is refused. -/
def byPosition (position : Arg) : Action (Option String) := do
  let x ← Action.field f
  match position with
  | .real d =>
    if d.isBelow x.subfields.length then throw (.operation (.badPosition .list "float"))
    else return none
  | v =>
    match v.asInt? with
    | some n => return if n < 0 then none else x.valueAt? n.toNat
    | none => throw (.operation (.notComparable "<=" "int" v.typeName))

def valuesFor (code : Arg) : Action (List String) := do
  let x ← Action.field f
  return ((← codeOf? code).map x.valuesFor).getD []

def contains (code : Arg) : Action Bool := do
  let x ← Action.field f
  return (← codeOf? code).any x.hasCode

def sameLabel (other : Arg) : Action Bool := do
  match other with
  | .field g => return (← Action.field f).sameLabel (← Action.field g)
  | v => do
    Action.checkKey v
    return false

/-! ## Queries -/

def query (sel : Selector) (filters : Arg) : Action (List String × Option QueryError) := do
  let chain ← Chain.ofArg filters
  Query.queryField (← Action.field f) sel chain.sieve

def get (code marks filters : Arg) : Action (List String × Option QueryError) := do
  query f (← Arg.fieldSelector code marks) filters

def first (code filters : Arg) : Action (Option String) := do
  let sel ← Arg.fieldSelector code .null
  let (values, _) ← query f (sel.withDefault "?") filters
  return values.head?

def all (code filters : Arg) : Action (List String) := do
  return (← get f code .null filters).1

/-- A single value stands for itself unless the flag of its selector allows several. -/
def unwrap (sel : Selector) : List String → Datum
  | [v] => if sel.flag? = some .any || sel.flag? = some .some then .texts [v] else .text v
  | vs => .texts vs

def resolve : Mapping.Resolver := fun entry => do
  let q ← Mapping.fieldQuery entry
  let sel := (← Arg.fieldSelector (.text q.code) q.marks).withDefault "?"
  let (values, error) ← query f sel q.filters
  return (unwrap sel values, error)

def map (mapping : Arg) : Action Mapping.Findings := do
  Mapping.collect (.field f) f.resolve (← Mapping.entries mapping)

/-! ## Joining -/

/-- The mapping that codes stand for: a table itself, and the items of anything
else under their positions. -/
def joinEntries (codes : Arg) : Action (List (Arg × Arg)) := do
  match codes with
  | .table es => return es
  | v => return (← Arg.items v).mapIdx fun i x => (.int i, x)

/-- The texts to be joined, where lists among the values give their items. -/
def parts : List Datum → List Datum
  | [] => []
  | .list xs :: vs => xs ++ parts vs
  | v :: vs => v :: parts vs

def textsFrom (i : Nat) : List Datum → Except OperationError (List String)
  | [] => .ok []
  | .text t :: vs => (textsFrom (i + 1) vs).map (t :: ·)
  | v :: _ => .error (.badItem i "str instance" v.typeName)

def bytesFrom (i : Nat) : List Datum → Except OperationError (List String)
  | [] => .ok []
  | .bytes t :: vs => (bytesFrom (i + 1) vs).map (t :: ·)
  | v :: _ => .error (.badItem i "a bytes-like object" v.typeName)

/-- The values joined by a separator: all, or those that codes select, in the order
of the codes. A field in the place of the separator would join its own values by the
list of values, which is no separator either. -/
def join (sep codes : Arg) : Action Datum := do
  let vs ←
    if codes.isNull then pure ((← Action.field f).values.map .text)
    else do
      let found ← Mapping.collect (.field f) f.resolve (← joinEntries codes)
      pure (parts (found.values.map Prod.snd))
  match sep with
  | .text t => return .text (t.intercalate (← Action.ofExcept .operation (textsFrom 0 vs)))
  | .bytes t => return .bytes (t.intercalate (← Action.ofExcept .operation (bytesFrom 0 vs)))
  | .field _ => throw (.operation (.noMember "list" "join"))
  | v => throw (.operation (.noMember v.typeName "join"))

/-! ## Copying -/

/-- The full tag and the class of codes of a copy. What is no full tag is taken as
class of codes, unless such a class is given. -/
def copyArguments (own : String) (fullTag codes : Arg) : Arg × Arg :=
  match fullTag with
  | .null => (.text own, codes)
  | .text t =>
    if codes.isNull && t ≠ "" && !Tag.isFull t then (.text own, fullTag) else (fullTag, codes)
  | _ => (fullTag, codes)

def copy (fullTag codes : Arg) : Action FieldRef := do
  let x ← Action.field f
  let (label, codes) := copyArguments x.fullTag fullTag codes
  let k ← Arg.toCodeClass codes
  match label with
  | .text t => Action.newField (x.restrict t k)
  | _ => throw (.argument .label)

end FieldRef

def Action.createField (tag occurrence : Arg) : Action FieldRef :=
  match tag, occurrence with
  | .text t, .text o => Action.newField (Field.ofTag t o)
  | _, _ => throw (.argument .label)

def Action.readField (line : Arg) : Action FieldRef :=
  match line with
  | .text t => Action.parseField t
  | v => throw (.argument (.unreadable v.typeName))

end Biblio
