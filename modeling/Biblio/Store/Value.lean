import Biblio.Store.Basic
import Biblio.Double.Notation
import Biblio.Query.Error

/-!
# Values

Values are what requests are made of and answered with. `Value φ` has callbacks of
type `φ`. A `Datum`, which is what a callback takes and returns, keeps only the
fact that something is a callback; an `Arg`, which is what an operation takes, has
callbacks that can be called. The text, the truth and the items of a value depend
on the store that its references refer to.
-/

namespace Biblio

inductive StepKind where
  | pattern
  | format
  | custom
  deriving DecidableEq, Repr

mutual

inductive Step (φ : Type) where
  /-- Keeps the values in which a pattern is found, or replaces them by its first
  group. -/
  | find (x : Pattern)
  | format (template : String)
  | each (f : φ)
  | nested (step : Step φ)
  /-- A step over something that cannot serve it. -/
  | idle (kind : StepKind) (arg : Value φ)

inductive Value (φ : Type) where
  | null
  | bool (b : Bool)
  | int (n : Int)
  | real (d : Double)
  | text (s : String)
  | bytes (s : String)
  | list (xs : List (Value φ))
  | tuple (xs : List (Value φ))
  | table (entries : List (Value φ × Value φ))
  | subfield (sf : Subfield)
  | field (f : FieldRef)
  | record (r : RecordRef)
  | locator (l : Locator)
  | selector (s : Selector)
  | error (e : QueryError)
  | failure (key : Value φ) (cause : Fault)
  | pattern (x : Pattern)
  | callback (f : φ)
  | operation (shown : String)
  | step (s : Step φ)
  | chain (steps : List (Step φ))

end

/-- A value whose callbacks are opaque. -/
abbrev Datum := Value Unit

abbrev Callback := Datum → Action Datum

abbrev Arg := Value Callback

namespace Step

variable {φ : Type}

def kind : Step φ → StepKind
  | find _ => .pattern
  | format _ => .format
  | each _ | nested _ => .custom
  | idle k _ => k

def ofKind : StepKind → Value φ → Step φ
  | .pattern, .pattern x => find x
  | .format, .text t => format t
  | .custom, .callback f => each f
  | .custom, .step s => nested s
  | k, v => idle k v

end Step

namespace StepKind

def typeName : StepKind → String
  | pattern => "PatternFilter"
  | format => "FormatFilter"
  | custom => "CustomFilter"

end StepKind

namespace Value

variable {φ ψ : Type}

instance : Inhabited (Value φ) := ⟨null⟩

/-! ## Change of callbacks -/

mutual

def map (g : φ → ψ) : Value φ → Value ψ
  | null => null
  | bool b => bool b
  | int n => int n
  | real d => real d
  | text s => text s
  | bytes s => bytes s
  | list xs => list (mapList g xs)
  | tuple xs => tuple (mapList g xs)
  | table es => table (mapEntries g es)
  | subfield sf => subfield sf
  | field f => field f
  | record r => record r
  | locator l => locator l
  | selector s => selector s
  | error e => error e
  | failure k c => failure (map g k) c
  | pattern x => pattern x
  | callback f => callback (g f)
  | operation s => operation s
  | step s => step (mapStep g s)
  | chain ss => chain (mapSteps g ss)

def mapList (g : φ → ψ) : List (Value φ) → List (Value ψ)
  | [] => []
  | x :: xs => map g x :: mapList g xs

def mapEntries (g : φ → ψ) : List (Value φ × Value φ) → List (Value ψ × Value ψ)
  | [] => []
  | (k, v) :: es => (map g k, map g v) :: mapEntries g es

def mapStep (g : φ → ψ) : Step φ → Step ψ
  | .find x => .find x
  | .format t => .format t
  | .each f => .each (g f)
  | .nested s => .nested (mapStep g s)
  | .idle k v => .idle k (map g v)

def mapSteps (g : φ → ψ) : List (Step φ) → List (Step ψ)
  | [] => []
  | s :: ss => mapStep g s :: mapSteps g ss

end

def forget (v : Value φ) : Datum :=
  v.map fun _ => ()

def ofOption {α : Type} (f : α → Value φ) : Option α → Value φ
  | none => null
  | some a => f a

def texts (xs : List String) : Value φ :=
  list (xs.map text)

/-! ## Types -/

def typeName : Value φ → String
  | null => "NoneType"
  | bool _ => "bool"
  | int _ => "int"
  | real _ => "float"
  | text _ => "str"
  | bytes _ => "bytes"
  | list _ => "list"
  | tuple _ => "tuple"
  | table _ => "dict"
  | subfield _ => "Subfield"
  | field _ => "Field"
  | record _ => "Record"
  | locator _ => "Locator"
  | selector _ => "SubfieldSelector"
  | error (.subfieldNotFound ..) | error (.notFound _) => "NotFoundError"
  | error _ => "RepeatedError"
  | failure .. => "CallbackError"
  | pattern _ => "Pattern"
  | callback _ => "function"
  | operation _ => "method"
  | step s => s.kind.typeName
  | chain _ => "FilterChain"

/-- The integer that a value is; the truth values are one and zero. -/
def asInt? : Value φ → Option Int
  | bool b => some (if b then 1 else 0)
  | int n => some n
  | _ => none

def isNull : Value φ → Bool
  | null => true
  | _ => false

mutual

/-- The type of the first part that keeps a value from being a key, if there is one:
lists, tables and records cannot be keys. -/
def unhashable? : Value φ → Option String
  | v@(list _) | v@(table _) | v@(record _) => some v.typeName
  | tuple xs => unhashableIn? xs
  | step s => unhashableStep? s
  | chain ss => unhashableSteps? ss
  | _ => none

def unhashableIn? : List (Value φ) → Option String
  | [] => none
  | x :: xs => (unhashable? x).or (unhashableIn? xs)

def unhashableStep? : Step φ → Option String
  | .idle _ v => unhashable? v
  | .nested s => unhashableStep? s
  | _ => none

def unhashableSteps? : List (Step φ) → Option String
  | [] => none
  | s :: ss => (unhashableStep? s).or (unhashableSteps? ss)

end

end Value

namespace Store

variable {φ ψ : Type} (s : Store)

/-! ## Size, truth and items -/

def length? : Value φ → Option Nat
  | .text x => some x.length
  | .bytes x => some x.utf8ByteSize
  | .list xs | .tuple xs => some xs.length
  | .table es => some es.length
  | .subfield _ => some 2
  | .field f => some (s.field f).subfields.length
  | .record r => some (s.record r).fields.length
  | .chain ss => some ss.length
  | _ => none

/-- Whether a value counts as true: all do but the missing one, false, zero and
those without items. -/
def isTrue (v : Value φ) : Bool :=
  match v with
  | .null => false
  | .bool b => b
  | .int n => n != 0
  | .real d => !d.isZero
  | v => s.length? v != some 0

def items? : Value φ → Option (List (Value φ))
  | .text x => some (x.toList.map fun c => .text (String.singleton c))
  | .bytes x => some (x.toUTF8.toList.map fun b => .int b.toNat)
  | .list xs | .tuple xs => some xs
  | .table es => some (es.map Prod.fst)
  | .subfield sf => some [.text sf.code, .text sf.value]
  | .field f => some ((s.field f).subfields.map .subfield)
  | .record r => some ((s.record r).fields.map .field)
  | .chain ss => some (ss.map .step)
  | _ => none

/-! ## Equality -/

mutual

/-- Whether two values are equal: truth values and numbers are compared as numbers,
fields and records by what they hold, and tables whatever the order of their entries
is. Callbacks are not equal to anything. -/
def same : Value φ → Value ψ → Bool
  | .null, .null => true
  | .text a, .text b | .bytes a, .bytes b => a == b
  | .real a, .real b => a.same b
  | .real a, v | v, .real a =>
    match v.asInt? with
    | some n => a.order n == .eq
    | none => false
  | .list xs, .list ys | .tuple xs, .tuple ys => sameList xs ys
  | .table xs, .table ys => xs.length == ys.length && sameEntries xs ys
  | .subfield a, .subfield b => a == b
  | .field a, .field b => (s.field a).same (s.field b)
  | .record a, .record b => s.sameRecord a b
  | .locator a, .locator b => a == b
  | .selector a, .selector b => a == b
  | .pattern a, .pattern b => a == b
  | .step a, .step b => sameStep a b
  | .chain as, .chain bs => sameSteps as bs
  | a, b =>
    match a.asInt?, b.asInt? with
    | some m, some n => m == n
    | _, _ => false

def sameList : List (Value φ) → List (Value ψ) → Bool
  | [], [] => true
  | x :: xs, y :: ys => same x y && sameList xs ys
  | _, _ => false

def sameEntries : List (Value φ × Value φ) → List (Value ψ × Value ψ) → Bool
  | [], _ => true
  | (k, v) :: xs, ys => ys.any (fun e => same k e.1 && same v e.2) && sameEntries xs ys

/-- Whether two steps are equal: they search for the same pattern, fill in the same
template, or stand over equal steps or values. -/
def sameStep : Step φ → Step ψ → Bool
  | .find a, .find b => a == b
  | .format a, .format b => a == b
  | .nested a, .nested b => sameStep a b
  | .idle k a, .idle l b => k == l && same a b
  | _, _ => false

def sameSteps : List (Step φ) → List (Step ψ) → Bool
  | [], [] => true
  | a :: as, b :: bs => sameStep a b && sameSteps as bs
  | _, _ => false

end

end Store

end Biblio
