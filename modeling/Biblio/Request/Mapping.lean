import Biblio.Request.Argument

/-!
# Mappings

A mapping is a table of named queries. An entry is a text, a list of arguments, or
a callback, which gets the object that is queried. `Mapping.collect` runs the
entries in order and files values and errors by name: an empty value is left out,
and a callback that ends with a fault leaves an error behind. Any other fault ends
the mapping.
-/

namespace Biblio

structure RecordQuery where
  locator : String
  subfield : Arg := .null
  filters : Arg := .null

structure FieldQuery where
  code : String
  marks : Arg := .null
  filters : Arg := .null

namespace Mapping

/-! ## Queries in lists -/

/-- The filters that the last arguments give: none, the only one, or a list. -/
def filtersOf : List Arg → Arg
  | [] => .null
  | [x] => x
  | xs => .list xs

def isFlag (s : String) : Bool :=
  (Flag.ofText? s).isSome

/-- The query of a record that arguments give. A flag in front belongs to the
locator behind it. -/
def recordQuery? : List Arg → Option RecordQuery
  | .text a :: xs =>
    let (locator, rest) :=
      match xs with
      | .text b :: ys => if isFlag a then (a ++ b, ys) else (a, xs)
      | _ => (a, xs)
    some <|
      match rest with
      | .null :: ys => { locator, filters := filtersOf ys }
      | .text t :: ys => { locator, subfield := .text t, filters := filtersOf ys }
      | ys => { locator, filters := filtersOf ys }
  | _ => none

def fieldQuery? : List Arg → Option FieldQuery
  | .text code :: .text marks :: ys =>
    some { code, marks := .text marks, filters := filtersOf ys }
  | .text code :: ys => some { code, filters := filtersOf ys }
  | _ => none

def recordQuery (v : Arg) : Action RecordQuery := do
  match v with
  | .text locator => return { locator }
  | _ =>
    match recordQuery? (← Arg.items v) with
    | some q => return q
    | none => throw (.argument (.recordQuery ((← get).shown v)))

def fieldQuery (v : Arg) : Action FieldQuery := do
  match v with
  | .text code => return { code }
  | _ =>
    match fieldQuery? (← Arg.items v) with
    | some q => return q
    | none => throw (.argument (.fieldQuery ((← get).shown v)))

/-! ## Entries -/

structure Findings where
  values : List (Datum × Datum) := []
  errors : List (Datum × Datum) := []

namespace Findings

def toDatum (x : Findings) : Datum :=
  .tuple [.table x.values, .table x.errors]

def append (x y : Findings) : Findings :=
  { values := x.values ++ y.values, errors := x.errors ++ y.errors }

end Findings

/-- Whether a value is missing or has no items; a field is never empty. -/
def isEmpty (s : Store) : Datum → Bool
  | .null => true
  | .field _ => false
  | v => s.length? v == some 0

def finding (s : Store) (key value : Datum) (error : Option Datum) : Findings where
  values := if isEmpty s value then [] else [(key, value)]
  errors := error.toList.map (key, ·)

/-- Calls a callback; a fault becomes an error and leaves a note. -/
def guarded (key : Arg) (f : Callback) (target : Datum) : Action (Datum × Option Datum) :=
  tryCatch (do return (← f target, none)) fun fault => do
    Action.note (.failedCallback ((← get).shown key) fault.message)
    return (.null, some (.failure key.forget fault))

abbrev Resolver := Arg → Action (Datum × Option QueryError)

def answer (target : Datum) (resolve : Resolver) (key entry : Arg) :
    Action (Datum × Option Datum) := do
  match entry with
  | .text _ | .list _ | .tuple _ | .subfield _ =>
    let (value, error) ← resolve entry
    return (value, error.map .error)
  | _ =>
    match Chain.callable? entry with
    | some f => guarded key f target
    | none =>
      let s ← get
      throw (.argument (.query (s.shown key) (s.shown entry)))

def collect (target : Datum) (resolve : Resolver) : List (Arg × Arg) → Action Findings
  | [] => return {}
  | (key, entry) :: es => do
    let (value, error) ← answer target resolve key entry
    let found := finding (← get) key.forget value error
    return found.append (← collect target resolve es)

def entries : Arg → Action (List (Arg × Arg))
  | .table es => return es
  | v => throw (.argument (.mapping v.typeName))

end Mapping

end Biblio
