import Biblio.Text.Digit
import Biblio.Text.Letter

/-!
# Syntax of search patterns

The syntax trees of regular expressions: characters, sets of characters, anchors,
sequences, alternatives, groups, references to groups and loops. Loops say whether
they prefer more or fewer rounds, or stick to the first choice; the groups that
capture are numbered from one.
-/

namespace Biblio

inductive CharMember where
  | range (lo hi : Char)
  | digit (wanted : Bool)
  | word (wanted : Bool)
  | blank (wanted : Bool)
  deriving DecidableEq, Repr

namespace CharMember

def single (c : Char) : CharMember :=
  range c c

def contains (c : Char) : CharMember → Bool
  | range lo hi => lo ≤ c && c ≤ hi
  | digit wanted => Text.isDecimal c == wanted
  | word wanted => Text.isWord c == wanted
  | blank wanted => Text.isBlank c == wanted

end CharMember

structure CharSet where
  complement : Bool := false
  members : List CharMember
  deriving DecidableEq, Repr

namespace CharSet

def contains (s : CharSet) (ignoreCase : Bool) (c : Char) : Bool :=
  let has (c : Char) := s.members.any (·.contains c)
  (has c || (ignoreCase && (has c.toLower || has c.toUpper))) != s.complement

end CharSet

inductive Anchor where
  | start
  /-- The end of the text, or the place before a final line feed. -/
  | finish
  | stop
  /-- A place between a character of words and another or none. -/
  | edge
  | noEdge
  deriving DecidableEq, Repr

inductive LoopMode where
  | greedy
  | lazy
  /-- It makes as many rounds as it can and never takes one back. -/
  | possessive
  deriving DecidableEq, Repr

inductive GroupKind where
  | plain
  | capture (index : Nat)
  /-- It sticks to the first match of its body. -/
  | atomic
  deriving DecidableEq, Repr

inductive Node where
  | empty
  | set (s : CharSet)
  | anchor (a : Anchor)
  | seq (a b : Node)
  | alt (a b : Node)
  | group (kind : GroupKind) (body : Node)
  /-- What the group of a number captured last. -/
  | again (index : Nat)
  | loop (lo : Nat) (hi : Option Nat) (mode : LoopMode) (body : Node)
  deriving DecidableEq, Repr

structure Pattern where
  source : String
  ignoreCase : Bool := false
  node : Node
  groups : Nat
  deriving DecidableEq, Repr

end Biblio
