import Biblio.Query.Item
import Biblio.Template.Numeral

/-!
# Templates

A template is a text with placeholders in braces; doubled braces stand for single
ones. A placeholder names the value by its position, which may be left to
counting, then perhaps one of its items or properties, and may ask for a conversion
and a layout. Only one value is given, so every position but the first is missing.
`Template.fill` puts the value in.
-/

namespace Biblio

namespace Template

/-- How the placeholders so far named the value: not yet, by counting, or by
position. -/
inductive Numbering where
  | open
  | automatic (next : Nat)
  | manual
  deriving DecidableEq, Repr

structure Placeholder where
  name : List Char
  conversion : Option Char
  layout : List Char
  deriving DecidableEq, Repr

/-! ## Reading placeholders -/

/-- The name of a placeholder, the mark that ends it and the text behind it. Inside
brackets no mark ends a name. -/
def readName : Bool → List Char → Except TemplateError (List Char × Char × List Char)
  | _, [] => .error .unclosed
  | true, c :: cs => (readName (c != ']') cs).map fun (name, r) => (c :: name, r)
  | false, c :: cs =>
    if c = '\x7b' then .error .braceInName
    else if c = '\x7d' ∨ c = ':' ∨ c = '!' then .ok ([], c, cs)
    else (readName (c == '[') cs).map fun (name, r) => (c :: name, r)

/-- A layout up to the brace that ends the placeholder, where `depth` counts the
braces that are open inside, and the text behind it. -/
def readLayout : Nat → List Char → Except TemplateError (List Char × List Char)
  | _, [] => .error .unclosedLayout
  | depth, '\x7b' :: cs => (readLayout (depth + 1) cs).map fun (l, r) => ('\x7b' :: l, r)
  | 0, '\x7d' :: cs => .ok ([], cs)
  | depth + 1, '\x7d' :: cs => (readLayout depth cs).map fun (l, r) => ('\x7d' :: l, r)
  | depth, c :: cs => (readLayout depth cs).map fun (l, r) => (c :: l, r)

/-- The placeholder whose opening brace stands before a text, and the text behind
it. -/
def readPlaceholder (cs : List Char) : Except TemplateError (Placeholder × List Char) := do
  let (name, mark, rest) ← readName false cs
  if mark = '\x7d' then return ({ name, conversion := none, layout := [] }, rest)
  else if mark = ':' then
    let (layout, rest) ← readLayout 0 rest
    return ({ name, conversion := none, layout }, rest)
  else
    match rest with
    | [] => throw .missingConversion
    | c :: '\x7d' :: rest => return ({ name, conversion := some c, layout := [] }, rest)
    | c :: ':' :: rest =>
      let (layout, rest) ← readLayout 0 rest
      return ({ name, conversion := some c, layout }, rest)
    | [_] => throw .unclosedLayout
    | _ => throw .afterConversion

/-- A piece of a template. A fault counts only when the pieces before it are
filled in. -/
inductive Piece where
  | char (c : Char)
  | hole (p : Placeholder)
  | fault (e : TemplateError)

/-- The pieces of a template. The characters that a placeholder takes are skipped;
nothing follows a fault. -/
def pieces : Nat → List Char → List Piece
  | _, [] => []
  | skip + 1, _ :: cs => pieces skip cs
  | 0, '\x7b' :: '\x7b' :: cs => .char '\x7b' :: pieces 0 cs
  | 0, '\x7d' :: '\x7d' :: cs => .char '\x7d' :: pieces 0 cs
  | 0, '\x7b' :: cs =>
    match cs, readPlaceholder cs with
    | [], _ => [.fault (.loneBrace '\x7b')]
    | _, .error e => [.fault e]
    | _, .ok (p, rest) => .hole p :: pieces (cs.length - rest.length) cs
  | 0, '\x7d' :: _ => [.fault (.loneBrace '\x7d')]
  | 0, c :: cs => .char c :: pieces 0 cs

/-! ## Naming the value -/

def readPosition (name : List Char) : Except TemplateError (Option Nat) :=
  match Layout.readSize name with
  | .error e => .error e
  | .ok (some n, []) => .ok (some n)
  | .ok _ => .ok none

def resolve (numbering : Numbering) (first : List Char) :
    Except TemplateError (Nat × Numbering) := do
  if first.isEmpty then
    match numbering with
    | .open => return (0, .automatic 1)
    | .automatic n => return (n, .automatic (n + 1))
    | .manual => throw .automaticAfterManual
  else
    match ← readPosition first with
    | none => throw (.noName (String.ofList first))
    | some n =>
      match numbering with
      | .automatic _ => throw .manualAfterAutomatic
      | _ => return (n, .manual)

def readKey (key : List Char) : Except TemplateError Datum := do
  if key.isEmpty then throw .emptyMember
  match ← readPosition key with
  | some n => return .int n
  | none => return .text (String.ofList key)

def isName (c : Char) : Bool :=
  c != '.' && c != '['

def member (fuel : Nat) (v : Datum) (path : List Char) : Action Datum := do
  match fuel, path with
  | 0, _ | _, [] => return v
  | fuel + 1, '[' :: cs =>
    let key := cs.takeWhile (· != ']')
    let x ← v.item (← Action.ofExcept .template (readKey key))
    member fuel x (cs.drop (key.length + 1))
  | fuel + 1, '.' :: cs =>
    let name := cs.takeWhile isName
    if name.isEmpty then throw (.template .emptyMember)
    let x ← v.member (String.ofList name)
    member fuel x (cs.drop name.length)
  | _ + 1, _ => throw (.template .afterBracket)

def convert (s : Store) (v : Datum) : Option Char → Except TemplateError Datum
  | none => .ok v
  | some 's' => .ok (.text (s.written v))
  | some 'r' => .ok (.text (s.shown v))
  | some 'a' => .ok (.text (Text.toAscii (s.shown v)))
  | some c => .error (.unknownConversion c)

/-- The value set as a layout says. Only texts and numbers have layouts; the empty one
leaves a value as it is. -/
def layOut (s : Store) (v : Datum) (layout : List Char) : Except TemplateError (List Char) :=
  if layout.isEmpty then .ok (s.written v).toList
  else
    match v with
    | .text t => Layout.applyText layout t.toList
    | .bool b => Layout.applyInt v.typeName layout (if b then 1 else 0)
    | .int n => Layout.applyInt v.typeName layout n
    | .real d => Layout.applyReal layout d
    | v => .error (.noLayout v.typeName)

def select (v : Datum) (numbering : Numbering) (p : Placeholder) : Action (Datum × Numbering) := do
  let (position, numbering) ←
    Action.ofExcept .template (resolve numbering (p.name.takeWhile isName))
  if position ≠ 0 then throw (.template (.noPosition position))
  let path := p.name.dropWhile isName
  let x ← member path.length v path
  return (← Action.ofExcept .template (convert (← get) x p.conversion), numbering)

/-! ## Filling in -/

def maxDepth : Nat := 2

/-- The template with the value in its placeholders and what is known of their
numbering then. A layout that has placeholders is filled in first, one level
deeper. -/
def fillFrom (v : Datum) : Nat → Numbering → List Char → Action (List Char × Numbering)
  | 0, _, _ => throw (.template .tooDeep)
  | depth + 1, numbering, cs =>
    (pieces 0 cs).foldlM (fun (out, numbering) piece => do
      match piece with
      | .char c => return (out ++ [c], numbering)
      | .fault e => throw (.template e)
      | .hole p =>
        let (x, numbering) ← select v numbering p
        let (layout, numbering) ←
          if p.layout.contains '\x7b' then fillFrom v depth numbering p.layout
          else pure (p.layout, numbering)
        let set ← Action.ofExcept .template (layOut (← get) x layout)
        return (out ++ set, numbering)) ([], numbering)

def fill (template : String) (v : Datum) : Action String := do
  return String.ofList (← fillFrom v maxDepth .open template.toList).1

end Template

end Biblio
