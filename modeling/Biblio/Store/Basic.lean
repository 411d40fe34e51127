import Biblio.Fault
import Biblio.Note

/-!
# Stores

Fields and records live in a store and are shared by reference: a record lists
references to its fields, and a field may be in several records or several times
in one. Beside its list a record keeps the index of its fields by tag. An action
reads and changes a store and may end with a fault; what it changed before stays
changed. Nothing is ever removed from a store.
-/

namespace Biblio

structure FieldRef where
  id : Nat
  deriving DecidableEq, Repr, Inhabited

structure RecordRef where
  id : Nat
  deriving DecidableEq, Repr, Inhabited

structure Record where
  fields : List FieldRef := []
  index : Grouping String FieldRef := .empty
  deriving Inhabited

namespace Record

def push (r : Record) (tag : String) (f : FieldRef) : Record :=
  { fields := r.fields ++ [f], index := r.index.add tag f }

def lookup (r : Record) (tag : String) : List FieldRef :=
  r.index.find tag

/-- The valid tags in the order of their first appearance. -/
def tags (r : Record) : List String :=
  r.index.keys.filter (· ≠ "")

@[simp] theorem lookup_empty (tag : String) : ({} : Record).lookup tag = [] := rfl

@[simp] theorem fields_push (r : Record) (tag : String) (f : FieldRef) :
    (r.push tag f).fields = r.fields ++ [f] := rfl

@[simp] theorem lookup_push_self (r : Record) (tag : String) (f : FieldRef) :
    (r.push tag f).lookup tag = r.lookup tag ++ [f] := by
  simp [push, lookup]

theorem lookup_push_of_ne (r : Record) {tag t : String} (f : FieldRef) (h : tag ≠ t) :
    (r.push tag f).lookup t = r.lookup t := by
  simp [push, lookup, Grouping.find_add_of_ne _ _ h]

end Record

structure Store where
  fields : Array Field := #[]
  records : Array Record := #[]
  notes : Array Note := #[]
  deriving Inhabited

namespace Store

def field (s : Store) (f : FieldRef) : Field :=
  s.fields[f.id]?.getD {}

def record (s : Store) (r : RecordRef) : Record :=
  s.records[r.id]?.getD {}

def gather (s : Store) (fs : List FieldRef) : Record :=
  fs.foldl (fun r f => r.push (s.field f).tag f) {}

theorem fields_foldl_push (s : Store) (fs : List FieldRef) (r : Record) :
    (fs.foldl (fun r f => r.push (s.field f).tag f) r).fields = r.fields ++ fs := by
  induction fs generalizing r with
  | nil => simp
  | cons f fs ih => simp [ih]

theorem lookup_foldl_push (s : Store) (fs : List FieldRef) (r : Record) (tag : String) :
    (fs.foldl (fun r f => r.push (s.field f).tag f) r).lookup tag =
      r.lookup tag ++ fs.filter fun f => (s.field f).tag == tag := by
  induction fs generalizing r with
  | nil => simp
  | cons f fs ih =>
      by_cases h : (s.field f).tag = tag
      · subst h
        simp [ih]
      · simp [ih, h, Record.lookup_push_of_ne _ _ h]

@[simp] theorem fields_gather (s : Store) (fs : List FieldRef) :
    (s.gather fs).fields = fs := by
  simp [gather, fields_foldl_push]

/-- The index of a gathered record agrees with a scan of its fields. -/
theorem lookup_gather (s : Store) (fs : List FieldRef) (tag : String) :
    (s.gather fs).lookup tag = fs.filter fun f => (s.field f).tag == tag := by
  rw [gather, lookup_foldl_push, Record.lookup_empty, List.nil_append]

def fieldsOf (s : Store) (r : RecordRef) : List Field :=
  (s.record r).fields.map s.field

def textOf (s : Store) (r : RecordRef) : String :=
  "\n".intercalate ((s.fieldsOf r).map Field.line)

def shownRecord (s : Store) (r : RecordRef) : String :=
  "<Record with " ++ toString (s.record r).fields.length ++ " fields>"

def sameRecord (s : Store) (a b : RecordRef) : Bool :=
  let fs := s.fieldsOf a
  let gs := s.fieldsOf b
  fs.length == gs.length && (fs.zip gs).all fun (f, g) => f.same g

end Store

/-- A computation on a store that may end with a fault. -/
abbrev Action := ExceptT Fault (StateM Store)

namespace Action

def ofExcept {ε α : Type} (fault : ε → Fault) : Except ε α → Action α
  | .ok a => return a
  | .error e => throw (fault e)

def note (n : Note) : Action Unit :=
  modify fun s => { s with notes := s.notes.push n }

def field (f : FieldRef) : Action Field :=
  return (← get).field f

def record (r : RecordRef) : Action Record :=
  return (← get).record r

def newField (f : Field) : Action FieldRef := do
  let s ← get
  set { s with fields := s.fields.push f }
  return ⟨s.fields.size⟩

def newRecord (fs : List FieldRef) : Action RecordRef := do
  let s ← get
  set { s with records := s.records.push (s.gather fs) }
  return ⟨s.records.size⟩

def modifyField (f : FieldRef) (g : Field → Field) : Action Unit :=
  modify fun s => { s with fields := s.fields.modify f.id g }

def pushSubfield (f : FieldRef) (code value : String) : Action Unit :=
  modifyField f fun x => x.push code value

def pushGroups (f : FieldRef) (gs : List Payload.Group) : Action Unit :=
  modifyField f fun x => x.pushGroups gs

def pushField (r : RecordRef) (f : FieldRef) : Action Unit :=
  modify fun s =>
    { s with records := s.records.modify r.id fun x => x.push (s.field f).tag f }

/-- Stores the field that a line writes and notes a rejected line. -/
def parseField (line : String) : Action FieldRef := do
  if let some n := Note.ofLine? line then note n
  newField (Field.parse line)

def appendLine (r : RecordRef) (line : String) : Action Unit := do
  pushField r (← parseField line)

def noteDegraded (r : RecordRef) : Action Unit := do
  let x ← record r
  let invalid := (x.lookup "").length
  if invalid ≠ 0 then note (.degraded x.fields.length invalid)

/-- Stores the record whose fields a text writes line by line. Blank lines are
skipped; fields without tag are noted together. -/
def parseRecord (text : String) : Action RecordRef := do
  let r ← newRecord []
  (Text.solidLines text.toList).forM fun line => appendLine r (String.ofList line)
  noteDegraded r
  return r

def exec {α : Type} (a : Action α) (s : Store) : Except Fault α × Store :=
  (ExceptT.run a).run s

/-! ## Equations -/

@[simp] theorem exec_pure {α : Type} (x : α) (s : Store) :
    (pure x : Action α).exec s = (.ok x, s) := rfl

@[simp] theorem exec_throw {α : Type} (e : Fault) (s : Store) :
    (throw e : Action α).exec s = (.error e, s) := rfl

/-- The second action runs on the store that the first one leaves, unless that ends
with a fault. -/
theorem exec_bind {α β : Type} (a : Action α) (f : α → Action β) (s : Store) :
    (a >>= f).exec s =
      match a.exec s with
      | (.ok x, s') => (f x).exec s'
      | (.error e, s') => (.error e, s') := by
  simp only [exec, ExceptT.run_bind, StateT.run_bind]
  rcases h : StateT.run (ExceptT.run a) s with ⟨x, s'⟩
  cases x <;> rfl

@[simp] theorem exec_field (f : FieldRef) (s : Store) :
    (field f).exec s = (.ok (s.field f), s) := rfl

@[simp] theorem exec_record (r : RecordRef) (s : Store) :
    (record r).exec s = (.ok (s.record r), s) := rfl

@[simp] theorem exec_note (n : Note) (s : Store) :
    (note n).exec s = (.ok (), { s with notes := s.notes.push n }) := rfl

end Action

end Biblio
