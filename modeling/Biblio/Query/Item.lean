import Biblio.Query.Select
import Biblio.Slice
import Biblio.Store.Shown

/-!
# Items and properties

What brackets and names give of a value: the item at a position or under a key, and a
property. A field gives its values by position and by code, a record its fields by
position and by locator. An operation that is named and not applied is a value too,
but all that can be done with it is to show it.
-/

namespace Biblio

/-! ## Positions -/

namespace Action

def wordLimit : Nat := Nat.pow 2 63

def isWord (n : Int) : Bool :=
  -(wordLimit : Int) ≤ n && n < wordLimit

def itemAt {α : Type} (kind : SequenceKind) (xs : List α) (n : Int) : Action α :=
  match atPosition? xs n with
  | some x => return x
  | none => throw (.operation (if isWord n then .positionOutOfRange kind else .hugePosition))

/-- The element at the position that a key gives, which has to be an integer. -/
def itemBy {φ α : Type} (kind : SequenceKind) (xs : List α) (key : Value φ) : Action α :=
  match key.asInt? with
  | some n => itemAt kind xs n
  | none => throw (.operation (.badPosition kind key.typeName))

def checkKey {φ : Type} (v : Value φ) : Action Unit :=
  match v.unhashable? with
  | some type => throw (.operation (.unhashable type))
  | none => return ()

end Action

/-! ## Fields -/

namespace FieldRef

/-- The code that a value is. What cannot be a key is refused, and what is no text is no
code. -/
def codeOf? {φ : Type} (v : Value φ) : Action (Option String) := do
  match v with
  | .text c => return some c
  | v => do
    Action.checkKey v
    return none

def byCode {φ : Type} (f : FieldRef) (code : Value φ) : Action (Option String) := do
  let x ← Action.field f
  return (← codeOf? code).bind x.byCode?

def item {φ : Type} (f : FieldRef) (key : Value φ) : Action (Option String) := do
  match key.asInt? with
  | some n => return some (← Action.itemAt .list (← Action.field f).values n)
  | none => f.byCode key

end FieldRef

/-! ## Records -/

namespace RecordRef

def firstMatch (r : RecordRef) (l : Locator) (ps : List Query.Predicate) (sieve : Query.Sieve) :
    Action Datum := do
  let s ← get
  let lookup := (s.record r).lookup
  if l.wantField then
    let found ← Query.firstField ps ((Query.matching s lookup l.alternatives).map Prod.snd)
    return .ofOption .field found
  else
    let (value, _) ← Query.firstValue s lookup sieve l.alternatives
    return .ofOption .text value

def item {φ : Type} (r : RecordRef) (key : Value φ) : Action Datum := do
  match key.asInt? with
  | some n => return .field (← Action.itemAt .list (← Action.record r).fields n)
  | none =>
    match key with
    | .text t => r.firstMatch (← Action.ofExcept .locator (Locator.parse t)) [] .pass
    | v => throw (.argument (.index v.typeName))

end RecordRef

namespace Value

/-! ## Items -/

def entry? {φ ψ : Type} (s : Store) (key : Value φ) :
    List (Value ψ × Value ψ) → Option (Value ψ)
  | [] => none
  | (k, v) :: es => if s.same k key then some v else entry? s key es

def ofSubfield {φ : Type} (sf : Subfield) : List (Value φ) :=
  [.text sf.code, .text sf.value]

def item {φ : Type} (v : Datum) (key : Value φ) : Action Datum := do
  match v with
  | .text t => return .text (String.singleton (← Action.itemBy .text t.toList key))
  | .bytes t => return .int (← Action.itemBy .bytes (t.toUTF8.toList) key).toNat
  | .list xs => Action.itemBy .list xs key
  | .tuple xs => Action.itemBy .tuple xs key
  | .subfield sf => Action.itemBy .tuple (ofSubfield sf) key
  | .table es => do
    Action.checkKey key
    let s ← get
    match entry? s key es with
    | some x => return x
    | none => throw (.operation (.noKey (s.shown key)))
  | .field f => return .ofOption .text (← f.item key)
  | .record r => r.item key
  | v => throw (.operation (.noItem v.typeName))

/-! ## Properties -/

def fieldProperty? (x : Field) (name : String) : Option Datum :=
  match name with
  | "tag" => some (.text x.tag)
  | "occurrence" | "occ" => some (.text x.occurrence)
  | "full_tag" => some (.text x.fullTag)
  | "ok" => some (.bool x.ok)
  | "level" => some (.ofOption (fun (n : Nat) => .int n) x.level?)
  | "number" => some (.ofOption .int x.number?)
  | _ => none

def recordProperty? (x : Record) (name : String) : Option Datum :=
  match name with
  | "tags" => some (.texts x.tags)
  | _ => none

def fieldOperations : List String :=
  ["append", "extend", "by_position", "by_code", "values_for", "values", "codes", "subfields",
   "get", "first", "all", "map", "join", "copy"]

def recordOperations : List String :=
  ["append", "fields", "fields_by_tag", "first", "all", "get", "has", "map", "filter", "apply"]

def subfieldProperty? (sf : Subfield) (name : String) : Option Datum :=
  match name with
  | "code" => some (.text sf.code)
  | "value" => some (.text sf.value)
  | _ => none

def member? (s : Store) (v : Datum) (name : String) : Option Datum :=
  let operation (names : List String) : Option Datum :=
    if name = "parse" then
      some (.operation (Shown.operation v.typeName name (Shown.type v.typeName)))
    else if names.contains name then
      some (.operation (Shown.operation v.typeName name (s.shown v)))
    else none
  match v with
  | .field f => (fieldProperty? (s.field f) name).or (operation fieldOperations)
  | .record r => (recordProperty? (s.record r) name).or (operation recordOperations)
  | .subfield sf => subfieldProperty? sf name
  | _ => none

def member (v : Datum) (name : String) : Action Datum := do
  match member? (← get) v name with
  | some x => return x
  | none => throw (.operation (.noMember v.typeName name))

end Value

end Biblio
