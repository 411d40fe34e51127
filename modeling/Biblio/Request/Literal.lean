import Biblio.Request.Call

/-!
# Literals

A literal writes an argument of a request: a plain value, an object that is built
when the literal is evaluated, a callback from a small fixed set, or the name of an
object that an earlier step stored. `Literal.eval` gives the argument.
-/

namespace Biblio

inductive Builtin where
  | upper
  | suffix (s : String)
  | reverse
  | wrap
  | maxLength (limit : Datum)
  | raise (kind : RaisedKind) (text : String)
  | levelIs (level : Datum)
  | numberAbove (limit : Datum)
  | tagStarts (s : String)
  | identity

namespace Builtin

def onField (v : Datum) (property : String) (f : Field → Action Datum) : Action Datum := do
  match v with
  | .field x => f (← Action.field x)
  | v => throw (.operation (.noMember v.typeName property))

def capital (c : Char) : Char :=
  if 'a' ≤ c && c ≤ 'z' then Char.ofNat (c.toNat - 32) else c

/-- A value with its items in reverse. The fields of a record in reverse are a new
record; the items of a table and of a field cannot be turned round. -/
def reversed (v : Datum) : Action Datum := do
  match v with
  | .text s => return .text (String.ofList s.toList.reverse)
  | .list xs => return .list xs.reverse
  | .tuple xs => return .tuple xs.reverse
  | .record r => return .record (← Action.newRecord (← Action.record r).fields.reverse)
  | .field _ | .table _ => throw (.operation (.unhashable "slice"))
  | v => throw (.operation (.noItem v.typeName))

def compare (n : Int) (sign : String) (test : Ordering → Bool) (limit : Datum) :
    Action Datum :=
  match limit, limit.asInt? with
  | .real d, _ => return .bool (test (d.order n).swap)
  | _, some m => return .bool (test (Ord.compare n m))
  | v, none => throw (.operation (.notComparable sign "int" v.typeName))

/-- The wording of a fault that a callback raises. The text of one about a key is
quoted. -/
def raisedText (kind : RaisedKind) (text : String) : String :=
  match kind with
  | .key => Text.quote text
  | .value | .runtime => text

def call (b : Builtin) (v : Datum) : Action Datum :=
  match b with
  | upper =>
    match v with
    | .text s => return .text (s.map capital)
    | v => throw (.operation (.notText v.typeName))
  | suffix t =>
    match v with
    | .text s => return .text (s ++ t)
    | v => throw (.operation (.notAddable v.typeName "str"))
  | reverse => reversed v
  | wrap => return .list [v]
  | maxLength limit => do
    match (← get).length? v with
    | some k => compare k "<=" Ordering.isLE limit
    | none => throw (.operation (.noLength v.typeName))
  | raise kind text => throw (.raised kind (raisedText kind text))
  | levelIs level => onField v "level" fun x => do
    return .bool ((← get).same (.ofOption (fun (n : Nat) => .int n) x.level? : Datum) level)
  | numberAbove limit => onField v "number" fun x =>
    match x.number? with
    | some n => compare n ">" Ordering.isGT limit
    | none => return .bool false
  | tagStarts s => onField v "tag" fun x =>
    return .bool (s.toList.isPrefixOf x.tag.toList)
  | identity => return v

end Builtin

inductive Literal where
  | null
  | bool (b : Bool)
  | int (n : Int)
  | real (d : Double)
  | text (s : String)
  | bytes (s : String)
  | list (xs : List Literal)
  | table (entries : List (Literal × Literal))
  | locator (l : Locator)
  | selector (s : Selector)
  | parsedLocator (text subfield : Literal)
  | pattern (source : String) (ignoreCase : Bool)
  | step (kind : StepKind) (arg : Literal)
  | chain (steps : List Literal)
  | field (line : String)
  | record (text : String)
  | stored (name : String)
  | builtin (b : Builtin)
  | const (value : Literal)
  | call (name : String) (args : List Literal)

namespace Literal

abbrev Scope := List (String × Datum)

/-- An answer as an argument of later requests. Its callbacks are gone. -/
def remembered (v : Datum) : Arg :=
  v.map fun _ _ => throw (.operation (.notCallable "function"))

/-- The step of a kind that an argument gives. A text in the place of a pattern is
read as one. -/
def toStep (kind : StepKind) (v : Arg) : Except Fault (Step Callback) :=
  match kind with
  | .pattern => Chain.findStep v
  | kind => .ok (Step.ofKind kind v)

def asStep (v : Arg) : Action (Step Callback) := do
  match v with
  | .step st => return st
  | v => throw (.argument (.step ((← get).shown v)))

/-- Files a value under a key. A key that is in use keeps its place and gets the new
value. -/
def insert (s : Store) (k v : Arg) : List (Arg × Arg) → List (Arg × Arg)
  | [] => [(k, v)]
  | (k', v') :: es => if s.same k' k then (k', v) :: es else (k', v') :: insert s k v es

def tabulate (s : Store) (es : List (Arg × Arg)) : List (Arg × Arg) :=
  es.foldl (fun table (k, v) => insert s k v table) []

mutual

def eval (scope : Scope) : Literal → Action Arg
  | null => return .null
  | bool b => return .bool b
  | int n => return .int n
  | real d => return .real d
  | text s => return .text s
  | bytes s => return .bytes s
  | list xs => return .list (← evalList scope xs)
  | table es => do
    let es ← evalEntries scope es
    return .table (tabulate (← get) es)
  | locator l => return .locator l
  | selector s => return .selector s
  | parsedLocator t s => do
    let t ← eval scope t
    let s ← eval scope s
    return .locator (← Arg.toLocator t s)
  | pattern source ignoreCase =>
    .pattern <$> Action.ofExcept .pattern (Pattern.parse source ignoreCase)
  | step kind arg => do
    let v ← eval scope arg
    .step <$> Action.ofExcept id (toStep kind v)
  | chain steps => return .chain (← evalSteps scope steps)
  | field line => return .field (← Action.parseField line)
  | record t => return .record (← Action.parseRecord t)
  | stored name =>
    match scope.lookup name with
    | some v => return remembered v
    | none => throw (.operation (.unbound name))
  | builtin b => return .callback b.call
  | const value => do
    let v := (← eval scope value).forget
    return .callback fun _ => return v
  | call name args => do
    let vs ← evalList scope args
    return .callback fun x => Request.call x name vs

def evalList (scope : Scope) : List Literal → Action (List Arg)
  | [] => return []
  | x :: xs => do
    let v ← eval scope x
    let vs ← evalList scope xs
    return v :: vs

def evalSteps (scope : Scope) : List Literal → Action Chain
  | [] => return []
  | x :: xs => do
    let st ← asStep (← eval scope x)
    let rest ← evalSteps scope xs
    return st :: rest

def evalEntries (scope : Scope) : List (Literal × Literal) → Action (List (Arg × Arg))
  | [] => return []
  | (k, x) :: es => do
    let k ← eval scope k
    let v ← eval scope x
    Action.checkKey k
    let rest ← evalEntries scope es
    return (k, v) :: rest

end

end Literal

end Biblio
