import Biblio.Locator.Parser
import Biblio.Pattern.Parser
import Biblio.Template.Layout

/-!
# Faults

A fault ends an operation. It blames the call and not the data: a malformed
locator, an argument of the wrong type, a value that an operation cannot be applied
to, or what a callback raised. Causes are kept apart by constructors; a value is
kept as messages show it and a type by its name.
-/

namespace Biblio

inductive ArgumentError where
  | label
  | unreadable (type : String)
  | value (type : String)
  | entry (type : String)
  | locator (type : String)
  | subfield (type : String)
  | selector (type : String)
  | index (type : String)
  | mapping (type : String)
  | predicate (shown : String)
  | filter (shown : String)
  | formatOption
  | eachOption
  | step (shown : String)
  | query (key shown : String)
  | recordQuery (shown : String)
  | fieldQuery (shown : String)
  deriving DecidableEq, Repr

namespace ArgumentError

def message : ArgumentError → String
  | label => "tag and occurrence must be strings"
  | unreadable t => "can only parse str, got " ++ t
  | value t => "subfield value must be a string, got " ++ t
  | entry t => "can only append Field or str, got " ++ t
  | locator t => "locator must be a string, got " ++ t
  | subfield t => "subfield must be a string, got " ++ t
  | selector t => "subfield locator must be a string, got " ++ t
  | index t => "record indices must be int, slice or locator, not " ++ t
  | mapping t => "mapping table required, got " ++ t
  | predicate s => "field filter must be callable, got " ++ s
  | filter s => "unsupported filter definition: " ++ s
  | formatOption => "'format' must be a string"
  | eachOption => "'each' must be callable"
  | step s => "not a filter step: " ++ s
  | query k s => "query for " ++ k ++ " must be string, tuple or callable, got " ++ s
  | recordQuery s => "mapping query must start with a string: " ++ s
  | fieldQuery s => "mapping query must start with a subfield code: " ++ s

end ArgumentError

inductive ContentError where
  | code (shown : String)
  | payload (text : String)
  /-- A table of filter options has unknown ones, here in increasing order. -/
  | options (names : List String)
  | noInteger (setting text : String)
  | negative (setting : String) (n : Int)
  deriving DecidableEq, Repr

namespace ContentError

def message : ContentError → String
  | code s => "invalid subfield code: " ++ s
  | payload s => "malformed subfield data: " ++ Text.quote s
  | options names => "unknown filter option(s): " ++ ", ".intercalate names
  | noInteger name s => name ++ " must be an integer, got " ++ Text.quote s
  | negative name n => name ++ " must not be negative, got " ++ toString n

end ContentError

inductive SequenceKind where
  | list
  | tuple
  | text
  | bytes
  deriving DecidableEq, Repr

inductive OperationError where
  | positionOutOfRange (kind : SequenceKind)
  /-- A position does not fit into a machine word. -/
  | hugePosition
  | badPosition (kind : SequenceKind) (type : String)
  | noItem (type : String)
  | noKey (shown : String)
  | badBound
  | zeroStep
  | tooFewItems (count : Nat)
  | tooManyItems
  | noItems (type : String)
  | notIterable (type : String)
  | noMembership (type : String)
  | unhashable (type : String)
  | notCallable (type : String)
  | noLength (type : String)
  | noMember (type name : String)
  | notText (type : String)
  | notSearchable (type : String)
  | notComparable (sign left right : String)
  | notJoinable (type : String)
  | notAddable (left right : String)
  | badItem (index : Nat) (wanted type : String)
  /-- An operation with these parameters, of which the first ones are required, is
  called with too few or too many arguments. -/
  | badCall (name : String) (parameters : List String) (required given : Nat)
  | unbound (name : String)
  deriving DecidableEq, Repr

namespace OperationError

def outOfRange : SequenceKind → String
  | .list => "list index out of range"
  | .tuple => "tuple index out of range"
  | .text => "string index out of range"
  | .bytes => "index out of range"

def notPosition (type : String) : SequenceKind → String
  | .list => "list indices must be integers or slices, not " ++ type
  | .tuple => "tuple indices must be integers or slices, not " ++ type
  | .text => "string indices must be integers, not '" ++ type ++ "'"
  | .bytes => "byte indices must be integers or slices, not " ++ type

def enumerate : List String → String
  | [] => ""
  | [x] => x
  | [x, y] => x ++ " and " ++ y
  | xs => ", ".intercalate xs.dropLast ++ ", and " ++ xs.getLastD ""

def wrongCall (name : String) (parameters : List String) (required given : Nat) : String :=
  name ++ "() " ++
    if given < required then
      let missing := (parameters.take required).drop given
      "missing " ++ toString missing.length ++ " required positional argument" ++
        (if missing.length = 1 then "" else "s") ++ ": " ++
        enumerate (missing.map fun p => "'" ++ p ++ "'")
    else
      let most := parameters.length
      "takes " ++
        (if required < most then "from " ++ toString (required + 1) ++ " to " else "") ++
        toString (most + 1) ++ " positional argument" ++ (if most = 0 then "" else "s") ++
        " but " ++ toString (given + 1) ++ " were given"

def message : OperationError → String
  | positionOutOfRange k => outOfRange k
  | hugePosition => "cannot fit 'int' into an index-sized integer"
  | badPosition k t => notPosition t k
  | noItem t => "'" ++ t ++ "' object is not subscriptable"
  | noKey shown => shown
  | badBound => "slice indices must be integers or None or have an __index__ method"
  | zeroStep => "slice step cannot be zero"
  | tooFewItems n => "not enough values to unpack (expected 2, got " ++ toString n ++ ")"
  | tooManyItems => "too many values to unpack (expected 2)"
  | noItems t => "cannot unpack non-iterable " ++ t ++ " object"
  | notIterable t => "'" ++ t ++ "' object is not iterable"
  | noMembership t => "argument of type '" ++ t ++ "' is not iterable"
  | unhashable t => "unhashable type: '" ++ t ++ "'"
  | notCallable t => "'" ++ t ++ "' object is not callable"
  | noLength t => "object of type '" ++ t ++ "' has no len()"
  | noMember t name => "'" ++ t ++ "' object has no attribute '" ++ name ++ "'"
  | notText t =>
    if t = "bytes" then "cannot use a string pattern on a bytes-like object"
    else "expected string or bytes-like object, got '" ++ t ++ "'"
  | notSearchable t => "'in <string>' requires string as left operand, not " ++ t
  | notComparable sign l r =>
    "'" ++ sign ++ "' not supported between instances of '" ++ l ++ "' and '" ++ r ++ "'"
  | notJoinable t => "can only concatenate str (not \"" ++ t ++ "\") to str"
  | notAddable l r => "unsupported operand type(s) for +: '" ++ l ++ "' and '" ++ r ++ "'"
  | badItem i wanted t =>
    "sequence item " ++ toString i ++ ": expected " ++ wanted ++ ", " ++ t ++ " found"
  | badCall name parameters required given => wrongCall name parameters required given
  | unbound name => Text.quote name

end OperationError

inductive RaisedKind where
  | value
  | key
  | runtime
  deriving DecidableEq, Repr

inductive Fault where
  | locator (e : LocatorError)
  | argument (e : ArgumentError)
  | content (e : ContentError)
  | operation (e : OperationError)
  | pattern (e : PatternError)
  | template (e : TemplateError)
  | raised (kind : RaisedKind) (text : String)
  deriving DecidableEq, Repr

namespace Fault

def message : Fault → String
  | locator e => e.message
  | argument e => e.message
  | content e => e.message
  | operation e => e.message
  | pattern e => e.message
  | template e => e.message
  | raised _ text => text

/-- Whether the fault is stated by the rules of this library or by a callback, and
not by an operation on values that it carried out. -/
def isStated : Fault → Bool
  | locator _ | argument _ | content _ | raised .. => true
  | operation _ | pattern _ | template _ => false

end Fault

end Biblio
