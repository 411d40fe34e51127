import Biblio.Field.Tag
import Biblio.Field.Payload
import Biblio.Locator.Basic

/-!
# Reading locators

A locator is read from an optional flag and alternatives separated by `|`. An
alternative is a tag, directly followed by the condition on the occurrence (`/`,
`/xx`, `/XX` or a slash and two digits) and optionally by a dollar sign and a
selector, with blank characters around the parts. Either all alternatives have a
selector or none; a separate selector serves alternatives that have none.
`LocatorError` lists what can be wrong.
-/

namespace Biblio

inductive LocatorError where
  | empty (source : String)
  | malformedField (text : String)
  | badOccurrence (text : String)
  | emptySubfield (text : String)
  | badSelector (text : String)
  | badFlag (text : String)
  | badClass (shown : String) (text : Option String)
  | duplicate (source shown : String)
  | mixed (source : String)
  deriving DecidableEq, Repr

namespace LocatorError

def locator? : LocatorError → Option String
  | empty s | malformedField s | badOccurrence s | emptySubfield s | badSelector s | badFlag s =>
    some s
  | badClass _ text => text
  | duplicate s _ | mixed s => some s

def message : LocatorError → String
  | empty s => "empty locator: " ++ Text.quote s
  | malformedField s => "malformed field locator: " ++ Text.quote s
  | badOccurrence s =>
    "occurrence must be /, /xx or /00 to /99 in locator " ++ Text.quote s
  | emptySubfield s => "subfield must not be empty in locator " ++ Text.quote s
  | badSelector s => "invalid subfield locator: " ++ Text.quote s
  | badFlag s => "invalid cardinality flag: " ++ Text.quote s
  | badClass shown _ => "illformed subfield locator: " ++ shown
  | duplicate s shown => "subfield in locator " ++ Text.quote s ++ " and as parameter " ++ shown
  | mixed s => "field and subfield locators are mixed in " ++ Text.quote s

end LocatorError

/-- Reads a flag, which may be missing, and an underscore, which may be missing,
up to the end of the text. -/
def readMarks? (marks : List Char) : Option (String × Bool) :=
  match Flag.split marks with
  | (flag, []) => some (flag, false)
  | (flag, ['_']) => some (flag, true)
  | _ => none

namespace Selector

/-- The selector that a text writes; one line feed may follow it. -/
def read? (cs : List Char) : Option Selector :=
  match Text.chomp cs with
  | c :: marks =>
    if Payload.isCode c then
      (readMarks? marks).map fun (cardinality, placeholder) =>
        { code := some (String.singleton c), cardinality, placeholder }
    else none
  | [] => none

def parse (s : String) : Except LocatorError Selector :=
  match read? s.toList with
  | some sel => .ok sel
  | none => .error (.badSelector s)

def withMarks (s : Selector) (marks : String) : Except LocatorError Selector :=
  match readMarks? (Text.chomp marks.toList) with
  | some (flag, placeholder) =>
    let cardinality := if s.cardinality ≠ "" then s.cardinality else flag
    .ok { s with cardinality, placeholder := s.placeholder || placeholder }
  | none => .error (.badFlag marks)

end Selector

namespace OccurrenceMatcher

/-- The condition that a text writes. -/
def read? : List Char → Option OccurrenceMatcher
  | [] => some { mode := .any }
  | ['/'] => some { mode := .none }
  | ['/', 'x', 'x'] | ['/', 'X', 'X'] => some { mode := .some }
  | '/' :: ds =>
    if Tag.isOccurrence ds then some { mode := .exact, value := String.ofList ds } else none
  | _ => none

end OccurrenceMatcher

namespace Alternative

def isOccurrenceChar (c : Char) : Bool :=
  c != '$' && !Text.isBlank c

def parse (text : List Char) : Except LocatorError Alternative :=
  let source := String.ofList text
  let cs := text.dropWhile Text.isBlank
  let tag := cs.take 4
  let occurrence := (cs.drop 4).takeWhile isOccurrenceChar
  let rest := Text.trim ((cs.drop 4).dropWhile isOccurrenceChar)
  if !Tag.isTag tag || rest.contains '\n' then .error (.malformedField source)
  else
    match OccurrenceMatcher.read? occurrence with
    | none => .error (.badOccurrence source)
    | some m =>
      match rest with
      | [] => .ok { tag := String.ofList tag, occurrence := m }
      | '$' :: c :: cs => do
        let s ← Selector.parse (String.ofList (c :: cs))
        return { tag := String.ofList tag, occurrence := m, subfield := some s }
      | _ => .error (.emptySubfield source)

end Alternative

namespace Locator

def splitBars : List Char → List (List Char)
  | [] => [[]]
  | c :: cs =>
    if c = '|' then [] :: splitBars cs
    else match splitBars cs with
      | [] => [[c]]
      | p :: ps => (c :: p) :: ps

def readAlternatives (source : String) :
    Except LocatorError (String × List Alternative) := do
  let (cardinality, body) := Flag.split source.toList
  if Text.blank body then throw (.empty source)
  let alternatives ← (splitBars body).mapM Alternative.parse
  return (cardinality, alternatives)

def parse (source : String) (subfield : Option String := none) :
    Except LocatorError Locator := do
  let (cardinality, alternatives) ← readAlternatives source
  if alternatives.all (·.subfield.isSome) then
    match subfield with
    | none => return { alternatives, wantField := false, cardinality, source }
    | some s => throw (.duplicate source (Text.quote s))
  else if alternatives.any (·.subfield.isSome) then throw (.mixed source)
  else
    match subfield with
    | none => return { alternatives, wantField := true, cardinality, source }
    | some s => do
      let sel ← Selector.parse s
      return { alternatives := alternatives.map fun a => { a with subfield := some sel },
               wantField := false, cardinality, source }

/-- The locator with a separate selector, read again from its written form; a
locator that wants values has its selectors already. -/
def refine (l : Locator) (subfield : Option String) : Except LocatorError Locator :=
  match subfield with
  | none => .ok l
  | some s =>
    if l.wantField then parse l.write (some s)
    else .error (.duplicate l.write (Text.quote s))

end Locator

end Biblio
