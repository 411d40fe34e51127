import Biblio.Pattern.Syntax

/-!
# Searching for a pattern

The matcher tries the ways to match a tree in order of preference and passes each
end point on to what follows, which accepts it or asks for the next one. A loop
that is past its least number of rounds ends when a round would start where the
last one started, so the rest of the text bounds its rounds. The rounds of a
possessive loop and the body of an atomic group are matched on their own, and only
their first match counts. `search` takes the leftmost place where there is a match.
-/

namespace Biblio

/-- A place in a text with what the groups captured on the way. -/
structure Place where
  previous : Option Char
  rest : List Char
  captures : List (Nat × List Char) := []
  deriving Repr

namespace Place

def next (c : Char) (cs : List Char) (p : Place) : Place :=
  { p with previous := some c, rest := cs }

def capture (p : Place) (index : Nat) (start : Place) : Place :=
  let text := start.rest.take (start.rest.length - p.rest.length)
  { p with captures := (index, text) :: p.captures }

def atEdge (p : Place) : Bool :=
  p.previous.any Text.isWord != p.rest.head?.any Text.isWord

/-- Whether a place satisfies an anchor. No anchor at words is satisfied in the
empty text. -/
def satisfies (p : Place) : Anchor → Bool
  | .start => p.previous.isNone
  | .finish => p.rest == [] || p.rest == ['\n']
  | .stop => p.rest == []
  | .edge => p.atEdge
  | .noEdge => !p.atEdge && !(p.previous.isNone && p.rest == [])

end Place

namespace Node

/-- What decides on an end point: it accepts one, possibly a later one, or none. -/
abbrev Next := Place → Option Place

/-- The rounds of a loop that may take rounds back. `done` counts them, `last` is the
length of the rest where the last optional round started. -/
def rounds (body : Next → Next) (lo : Nat) (hi : Option Nat) (greedy : Bool) (k : Next) :
    Nat → Nat → Option Nat → Next
  | 0, _, _, _ => none
  | fuel + 1, done, last, p =>
    if done < lo then body (rounds body lo hi greedy k fuel (done + 1) last) p
    else
      let more (_ : Unit) : Option Place :=
        if hi.any (· ≤ done) || last == some p.rest.length then none
        else body (rounds body lo hi greedy k fuel (done + 1) (some p.rest.length)) p
      if greedy then
        match more () with
        | some q => some q
        | none => k p
      else
        match k p with
        | some q => some q
        | none => more ()

/-- Where the rounds of a possessive loop end. `done` counts them; a round that matches
nothing is the last one beyond the least number. -/
def lastRound (body : Next) (lo : Nat) (hi : Option Nat) : Nat → Nat → Next
  | 0, _, _ => none
  | fuel + 1, done, p =>
    if done < lo then (body p).bind (lastRound body lo hi fuel (done + 1))
    else if hi.any (· ≤ done) then some p
    else
      match body p with
      | none => some p
      | some q =>
        if q.rest.length < p.rest.length then lastRound body lo hi fuel (done + 1) q else some q

/-- Whether two characters are the same, on request up to the case of ASCII letters. -/
def sameChar (ignoreCase : Bool) (a b : Char) : Bool :=
  a == b || (ignoreCase && a.toLower == b.toLower)

def skip? (ignoreCase : Bool) : List Char → Place → Option Place
  | [], p => some p
  | d :: ds, p =>
    match p.rest with
    | [] => none
    | c :: cs => if sameChar ignoreCase d c then skip? ignoreCase ds (p.next c cs) else none

def run (ignoreCase : Bool) : Node → Next → Next
  | empty, k, p => k p
  | set s, k, p =>
    match p.rest with
    | [] => none
    | c :: cs => if s.contains ignoreCase c then k (p.next c cs) else none
  | anchor a, k, p => if p.satisfies a then k p else none
  | seq a b, k, p => run ignoreCase a (run ignoreCase b k) p
  | alt a b, k, p =>
    match run ignoreCase a k p with
    | some q => some q
    | none => run ignoreCase b k p
  | group .plain body, k, p => run ignoreCase body k p
  | group (.capture i) body, k, p => run ignoreCase body (fun q => k (q.capture i p)) p
  | group .atomic body, k, p => (run ignoreCase body some p).bind k
  | again i, k, p => ((p.captures.lookup i).bind fun text => skip? ignoreCase text p).bind k
  | loop lo hi .possessive body, k, p =>
    (lastRound (run ignoreCase body some) lo hi (lo + p.rest.length + 2) 0 p).bind k
  | loop lo hi mode body, k, p =>
    rounds (run ignoreCase body) lo hi (mode == .greedy) k (lo + p.rest.length + 2) 0 none p

end Node

namespace Pattern

def searchFrom (x : Pattern) (previous : Option Char) : List Char → Option Place
  | [] => x.node.run x.ignoreCase some { previous, rest := [] }
  | c :: cs =>
    match x.node.run x.ignoreCase some { previous, rest := c :: cs } with
    | some q => some q
    | none => searchFrom x (some c) cs

def search (x : Pattern) (text : String) : Option Place :=
  x.searchFrom none text.toList

end Pattern

def Place.group? (p : Place) (index : Nat) : Option String :=
  (p.captures.lookup index).map String.ofList

end Biblio
