import Biblio.Request.Record

/-!
# Calls by name

A call names an operation and gives its arguments, of which the last ones may be
missing. `callField`, `callRecord` and `callValue` are the tables of the operations on
fields, on records and on any value, and `create` is the table of those without an
object. Properties ignore arguments.
-/

namespace Biblio

namespace Request

/-- Passes on the arguments of an operation with these parameters, of which the first
ones are required. The missing value stands for those that are not given. -/
def withArguments {α : Type} (name : String) (parameters : List String) (required : Nat)
    (args : List Arg) (body : (Nat → Arg) → Action α) : Action α :=
  if required ≤ args.length && args.length ≤ parameters.length then
    body fun i => args.getD i .null
  else throw (.operation (.badCall name parameters required args.length))

def withError (result : Datum) (error : Option QueryError) : Datum :=
  .tuple [result, .ofOption .error error]

/-! ## Any value -/

/-- Whether a value is among the items of another one. A text has its parts as items, and
a table its keys. -/
def contains (v : Datum) (item : Arg) : Action Bool := do
  let s ← get
  match v, item with
  | .text t, .text part => return (t.splitOn part).length ≠ 1 || part.isEmpty
  | .text _, x => throw (.operation (.notSearchable x.typeName))
  | .table es, x => do
    Action.checkKey x
    return es.any fun e => s.same e.1 x
  | .field f, x => f.contains x
  | .record r, x => r.contains x
  | v, x =>
    match s.items? v with
    | some xs => return xs.any fun y => s.same y x
    | none => throw (.operation (.noMembership v.typeName))

def callValue (v : Datum) (name : String) (args : List Arg) : Action Datum := do
  let s ← get
  let given body := withArguments (v.typeName ++ "." ++ name) ["other"] 1 args body
  match name with
  | "len" =>
    match s.length? v with
    | some n => return .int n
    | none => throw (.operation (.noLength v.typeName))
  | "str" => return .text (s.written v)
  | "repr" => return .text (s.shown v)
  | "iter" =>
    match s.items? v with
    | some xs => return .list xs
    | none => throw (.operation (.notIterable v.typeName))
  | "getitem" => given fun a => v.item (a 0)
  | "contains" => given fun a => .bool <$> contains v (a 0)
  | "eq" => given fun a => return .bool (s.same v (a 0))
  | "ne" => given fun a => return .bool !(s.same v (a 0))
  | _ => throw (.operation (.noMember v.typeName name))

/-! ## Fields -/

def callField (f : FieldRef) (name : String) (args : List Arg) : Action Datum := do
  let x ← Action.field f
  let given parameters required body :=
    withArguments ("Field." ++ name) parameters required args body
  match name with
  | "view" => return .field f
  | "append" => given ["code", "value"] 2 fun a => do f.append (a 0) (a 1); return .field f
  | "extend" => given ["data"] 1 fun a => do f.extend (a 0); return .field f
  | "by_position" => given ["position"] 1 fun a => .ofOption .text <$> f.byPosition (a 0)
  | "by_code" => given ["code"] 1 fun a => .ofOption .text <$> f.byCode (a 0)
  | "values_for" => given ["code"] 1 fun a => .texts <$> f.valuesFor (a 0)
  | "values" => given [] 0 fun _ => return .texts x.values
  | "codes" => given [] 0 fun _ => return .texts x.codes
  | "subfields" => given [] 0 fun _ => return .list (x.subfields.map .subfield)
  | "get" => given ["code", "flag", "filters"] 0 fun a => do
    let (values, error) ← f.get (a 0) (a 1) (a 2)
    return withError (.texts values) error
  | "first" => given ["code", "filters"] 0 fun a => .ofOption .text <$> f.first (a 0) (a 1)
  | "all" => given ["code", "filters"] 0 fun a => .texts <$> f.all (a 0) (a 1)
  | "map" => given ["mapping"] 1 fun a => Mapping.Findings.toDatum <$> f.map (a 0)
  | "join" => given ["sep", "codes"] 0 fun a => f.join (args.headD (.text " ")) (a 1)
  | "copy" => given ["full_tag", "codes"] 0 fun a => .field <$> f.copy (a 0) (a 1)
  | "hash_eq" => given ["other"] 1 fun a => .bool <$> f.sameLabel (a 0)
  | _ =>
    match Value.fieldProperty? x name with
    | some v => return v
    | none => callValue (.field f) name args

/-! ## Records -/

def callRecord (r : RecordRef) (name : String) (args : List Arg) : Action Datum := do
  let x ← Action.record r
  let given parameters required body :=
    withArguments ("Record." ++ name) parameters required args body
  match name with
  | "view" => return .record r
  | "append" => given ["field"] 1 fun a => do r.append (a 0); return .record r
  | "fields" => given [] 0 fun _ => return .list (x.fields.map .field)
  | "fields_by_tag" => given ["tag"] 1 fun a =>
    return .list ((← r.fieldsByTag (a 0)).map .field)
  | "first" => given ["locator", "subfield", "filters"] 1 fun a => r.first (a 0) (a 1) (a 2)
  | "all" => given ["locator", "subfield", "filters"] 0 fun a => r.all (a 0) (a 1) (a 2)
  | "get" => given ["query_string", "subfield", "filters"] 1 fun a => do
    let (result, error) ← r.query (a 0) (a 1) (a 2)
    return withError result error
  | "has" => given ["locator", "subfield"] 1 fun a => .bool <$> r.has (a 0) (a 1)
  | "map" => given ["mapping"] 1 fun a => Mapping.Findings.toDatum <$> r.map (a 0)
  | "filter" => .record <$> r.filter (args.map Arg.attempt)
  | "apply" => do r.apply (args.map Arg.attempt); return .null
  | "slice" => given ["start", "stop", "step"] 1 fun a =>
    .record <$> match args with
      | [stop] => r.slice .null stop .null
      | _ => r.slice (a 0) (a 1) (a 2)
  | _ =>
    match Value.recordProperty? x name with
    | some v => return v
    | none => callValue (.record r) name args

/-! ## Tables of operations -/

def call (target : Datum) (name : String) (args : List Arg) : Action Datum :=
  match target with
  | .field f => callField f name args
  | .record r => callRecord r name args
  | v => callValue v name args

/-- Applies an operation that creates an object. Plans of locators need no memory,
so that there is nothing to clear. -/
def create (name : String) (args : List Arg) : Action Datum :=
  let given parameters required body := withArguments name parameters required args body
  match name with
  | "Field" => given ["tag", "occurrence"] 0 fun _ =>
    .field <$> Action.createField (args.getD 0 (.text "")) (args.getD 1 (.text ""))
  | "Field.parse" => given ["line"] 1 fun a => .field <$> Action.readField (a 0)
  | "Record" => given ["fields"] 0 fun a => .record <$> Action.createRecord (a 0)
  | "Record.parse" => given ["text"] 1 fun a => .record <$> Action.readRecord (a 0)
  | "parse_locator" => given ["text", "subfield"] 1 fun a => .locator <$> Arg.toLocator (a 0) (a 1)
  | "clear_locator_cache" => given [] 0 fun _ => return .null
  | _ => throw (.operation (.unbound name))

end Request

end Biblio
