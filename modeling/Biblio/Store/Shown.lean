import Biblio.Store.Value

/-!
# Values in messages

Messages show a value by the notation that would write it: texts in quotes, lists
in brackets, tables in braces, and the objects of this library by their type and
their parts.
-/

namespace Biblio

namespace Shown

def bool (b : Bool) : String :=
  if b then "True" else "False"

def text? : Option String → String
  | none => "None"
  | some s => Text.quote s

def bytes (s : String) : String :=
  "b" ++ Text.quoteAscii (String.ofList (s.toUTF8.toList.map fun b => Char.ofNat b.toNat))

def tuple : List String → String
  | [x] => "(" ++ x ++ ",)"
  | xs => "(" ++ ", ".intercalate xs ++ ")"

def list (xs : List String) : String :=
  "[" ++ ", ".intercalate xs ++ "]"

def table (es : List (String × String)) : String :=
  "\x7b" ++ ", ".intercalate (es.map fun (k, v) => k ++ ": " ++ v) ++ "\x7d"

def subfield (sf : Subfield) : String :=
  "Subfield(code=" ++ Text.quote sf.code ++ ", value=" ++ Text.quote sf.value ++ ")"

def selector (s : Selector) : String :=
  "SubfieldSelector(code=" ++ text? s.code ++ ", cardinality=" ++ Text.quote s.cardinality ++
    ", placeholder=" ++ bool s.placeholder ++ ")"

def mode : OccurrenceMode → String
  | .any => "<OccurrenceMode.ANY: '*'>"
  | .none => "<OccurrenceMode.NONE: '/'>"
  | .some => "<OccurrenceMode.SOME: '/xx'>"
  | .exact => "<OccurrenceMode.EXACT: '/dd'>"

def alternative (a : Alternative) : String :=
  "Alternative(tag=" ++ Text.quote a.tag ++ ", occurrence=OccurrenceMatcher(mode=" ++
    mode a.occurrence.mode ++ ", value=" ++ Text.quote a.occurrence.value ++ "), subfield=" ++
    (match a.subfield with
      | none => "None"
      | some s => selector s) ++ ")"

def locator (l : Locator) : String :=
  "Locator(alternatives=" ++ tuple (l.alternatives.map alternative) ++ ", want_field=" ++
    bool l.wantField ++ ", cardinality=" ++ Text.quote l.cardinality ++ ", source=" ++
    Text.quote l.source ++ ")"

def patternLimit : Nat := 200

def pattern (x : Pattern) : String :=
  "re.compile(" ++ String.ofList ((Text.quote x.source).toList.take patternLimit) ++
    (if x.ignoreCase then ", re.IGNORECASE" else "") ++ ")"

def callback : String := "<function>"

def type (name : String) : String :=
  "<class 'pica." ++ name.map Char.toLower ++ "." ++ name ++ "'>"

def operation (type name object : String) : String :=
  "<bound method " ++ type ++ "." ++ name ++ " of " ++ object ++ ">"

def step (kind : StepKind) (arg : String) : String :=
  match kind with
  | .pattern => "PatternFilter(pattern=" ++ arg ++ ")"
  | .format => "FormatFilter(template=" ++ arg ++ ")"
  | .custom => "CustomFilter(func=" ++ arg ++ ")"

def chain (steps : List String) : String :=
  "FilterChain(steps=" ++ tuple steps ++ ")"

def failure (key : String) (cause : Fault) : String :=
  "callback for " ++ key ++ " failed: " ++ cause.message

end Shown

namespace Store

variable {φ : Type} (s : Store)

mutual

def shown : Value φ → String
  | .null => "None"
  | .bool b => Shown.bool b
  | .int n => toString n
  | .real d => d.write
  | .text x => Text.quote x
  | .bytes x => Shown.bytes x
  | .list xs => Shown.list (shownList xs)
  | .tuple xs => Shown.tuple (shownList xs)
  | .table es => Shown.table (shownEntries es)
  | .subfield sf => Shown.subfield sf
  | .field f => (s.field f).shown
  | .record r => s.shownRecord r
  | .locator l => Shown.locator l
  | .selector sel => Shown.selector sel
  | v@(.error e) => v.typeName ++ "(" ++ Text.quote e.message ++ ")"
  | .failure k c => "CallbackError(" ++ Text.quote (Shown.failure (shown k) c) ++ ")"
  | .pattern x => Shown.pattern x
  | .callback _ => Shown.callback
  | .operation x => x
  | .step st => shownStep st
  | .chain ss => Shown.chain (shownSteps ss)

def shownList : List (Value φ) → List String
  | [] => []
  | x :: xs => shown x :: shownList xs

def shownEntries : List (Value φ × Value φ) → List (String × String)
  | [] => []
  | (k, v) :: es => (shown k, shown v) :: shownEntries es

def shownStep : Step φ → String
  | .find x => Shown.step .pattern (Shown.pattern x)
  | .format t => Shown.step .format (Text.quote t)
  | .each _ => Shown.step .custom Shown.callback
  | .nested st => Shown.step .custom (shownStep st)
  | .idle kind v => Shown.step kind (shown v)

def shownSteps : List (Step φ) → List String
  | [] => []
  | st :: ss => shownStep st :: shownSteps ss

end

def written : Value φ → String
  | .text x => x
  | .field f => (s.field f).line
  | .record r => s.textOf r
  | .locator l => l.write
  | .selector sel => sel.write
  | .error e => e.message
  | .failure k c => Shown.failure (s.shown k) c
  | v => s.shown v

end Store

end Biblio
