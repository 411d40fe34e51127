import Biblio.Pattern.Syntax

/-!
# Reading patterns

A pattern is read from left to right, symbol by symbol, and the symbols are reduced on
a stack of open groups. A reader is given the first character `c` of what stands at a
`position` and the characters `cs` behind it, and tells how many of `cs` it has taken.

`PatternError` tells what is wrong and where it shows. The reader looks one character
ahead: a backslash that ends the pattern is refused as soon as the character before it
is taken, and so before anything that is wrong with that one. A brace that starts no
valid repeat stands for itself.

The groups of the language that is read here are plain, capturing or atomic. Lookaround,
named groups and references to them, inline flags, comments and conditionals are outside
of it: they are refused as unknown extensions, although a full reader of regular
expressions would accept them.
-/

namespace Biblio

inductive PatternProblem where
  | unterminatedGroup
  | unbalancedParenthesis
  | unterminatedSet
  | nothingToRepeat
  | multipleRepeat
  | repeatBounds
  | repeatTooLarge
  | danglingEscape
  | incompleteEscape (text : String)
  | badEscape (text : String)
  | octalTooLarge (text : String)
  | badRange (text : String)
  | unexpectedEnd
  | unknownExtension (text : String)
  | noGroup (index : Nat)
  | openGroup
  deriving DecidableEq, Repr

namespace PatternProblem

def message : PatternProblem → String
  | unterminatedGroup => "missing ), unterminated subpattern"
  | unbalancedParenthesis => "unbalanced parenthesis"
  | unterminatedSet => "unterminated character set"
  | nothingToRepeat => "nothing to repeat"
  | multipleRepeat => "multiple repeat"
  | repeatBounds => "min repeat greater than max repeat"
  | repeatTooLarge => "the repetition number is too large"
  | danglingEscape => "bad escape (end of pattern)"
  | incompleteEscape s => "incomplete escape " ++ s
  | badEscape s => "bad escape " ++ s
  | octalTooLarge s => "octal escape value " ++ s ++ " outside of range 0-0o377"
  | badRange s => "bad character range " ++ s
  | unexpectedEnd => "unexpected end of pattern"
  | unknownExtension s => "unknown extension " ++ s
  | noGroup i => "invalid group reference " ++ toString i
  | openGroup => "cannot refer to an open group"

end PatternProblem

structure PatternError where
  problem : PatternProblem
  position : Nat
  source : String := ""
  deriving DecidableEq, Repr

namespace PatternError

def before (e : PatternError) : List Char :=
  e.source.toList.take e.position

def line (e : PatternError) : Nat :=
  e.before.count '\n' + 1

def column (e : PatternError) : Nat :=
  (e.before.reverse.takeWhile (· ≠ '\n')).length + 1

def place (e : PatternError) : String :=
  " at position " ++ toString e.position ++
    if e.source.toList.contains '\n' then
      " (line " ++ toString e.line ++ ", column " ++ toString e.column ++ ")"
    else ""

/-- The wording of the error. A number of rounds that is too large has no place. -/
def message (e : PatternError) : String :=
  e.problem.message ++ if e.problem = .repeatTooLarge then "" else e.place

end PatternError

namespace Pattern

def isDangling (rest : List Char) : Bool :=
  rest == ['\\']

/-- The error of a problem that shows when the pattern is read up to `here` and `rest`
is left. -/
def refuse (problem : PatternProblem) (position here : Nat) (rest : List Char) : PatternError :=
  if isDangling rest then { problem := .danglingEscape, position := here }
  else { problem, position }

/-! ## Escapes -/

inductive Escape where
  | member (m : CharMember)
  | anchor (a : Anchor)
  | again (index : Nat)

def ofDigits (base : Nat) (cs : List Char) : Nat :=
  cs.foldl (fun n c =>
    base * n +
      if c.isDigit then c.toNat - 48 else if c.toNat < 97 then c.toNat - 55 else c.toNat - 87) 0

def isHexDigit (c : Char) : Bool :=
  c.isDigit || ('a' ≤ c && c ≤ 'f') || ('A' ≤ c && c ≤ 'F')

def isOctDigit (c : Char) : Bool :=
  '0' ≤ c && c ≤ '7'

def charOf (base : Nat) (digits : List Char) (n : Nat) : Escape × Nat :=
  (.member (.single (Char.ofNat (ofDigits base digits))), n)

def readHex (position width : Nat) (c : Char) (cs : List Char) :
    Except PatternError (Escape × Nat) :=
  let ds := (cs.take width).takeWhile isHexDigit
  let text := String.ofList ('\\' :: c :: ds)
  let refuse (problem : PatternProblem) :=
    refuse problem position (position + 2 + ds.length) (cs.drop ds.length)
  if ds.length < width then .error (refuse (.incompleteEscape text))
  else if 0x110000 ≤ ofDigits 16 ds then .error (refuse (.badEscape text))
  else .ok (charOf 16 ds ds.length)

/-- A character written in up to three octal digits, of which `c` is the first. -/
def readOct (position : Nat) (c : Char) (cs : List Char) : Except PatternError (Escape × Nat) :=
  let ds := (cs.take 2).takeWhile isOctDigit
  if 0x100 ≤ ofDigits 8 (c :: ds) then
    .error (refuse (.octalTooLarge (String.ofList ('\\' :: c :: ds))) position
      (position + 2 + ds.length) (cs.drop ds.length))
  else .ok (charOf 8 (c :: ds) ds.length)

/-- A reference to a group has up to two digits; three octal digits write a character. -/
def readReference (position : Nat) (c : Char) (cs : List Char) :
    Except PatternError (Escape × Nat) :=
  if (c :: cs.take 2).all isOctDigit && 2 ≤ cs.length then readOct position c cs
  else
    let ds := (cs.take 1).takeWhile Char.isDigit
    .ok (.again (ofDigits 10 (c :: ds)), ds.length)

/-- Anchors and references have escapes only outside of sets. -/
def readEscape (inSet : Bool) (position : Nat) (c : Char) (cs : List Char) :
    Except PatternError (Escape × Nat) :=
  let char (c : Char) : Except PatternError (Escape × Nat) := .ok (.member (.single c), 0)
  let bad : Except PatternError (Escape × Nat) :=
    .error (refuse (.badEscape (String.ofList ['\\', c])) position (position + 2) cs)
  let outside (a : Anchor) : Except PatternError (Escape × Nat) :=
    if inSet then bad else .ok (.anchor a, 0)
  match c with
  | 'd' => .ok (.member (.digit true), 0)
  | 'D' => .ok (.member (.digit false), 0)
  | 'w' => .ok (.member (.word true), 0)
  | 'W' => .ok (.member (.word false), 0)
  | 's' => .ok (.member (.blank true), 0)
  | 'S' => .ok (.member (.blank false), 0)
  | 'a' => char '\x07'
  | 'f' => char '\x0c'
  | 'n' => char '\n'
  | 'r' => char '\r'
  | 't' => char '\t'
  | 'v' => char '\x0b'
  | 'x' => readHex position 2 c cs
  | 'u' => readHex position 4 c cs
  | 'U' => readHex position 8 c cs
  | 'b' => if inSet then char '\x08' else .ok (.anchor .edge, 0)
  | 'A' => outside .start
  | 'B' => outside .noEdge
  | 'Z' => outside .stop
  | '0' => readOct position c cs
  | c =>
    if c.isDigit then
      if !inSet then readReference position c cs
      else if isOctDigit c then readOct position c cs else bad
    else if c.isAlpha then bad
    else char c

/-! ## Sets -/

def readMember (position : Nat) (c : Char) (cs : List Char) :
    Except PatternError (CharMember × Nat) :=
  if c = '\\' then
    match cs with
    | [] => .error { problem := .danglingEscape, position }
    | d :: ds =>
      match readEscape true position d ds with
      | .ok (.member m, n) => .ok (m, n + 1)
      | .ok _ => .error { problem := .badEscape (String.ofList ['\\', d]), position }
      | .error e => .error e
  else .ok (.single c, 0)

def firstToken : List Char → List Char
  | '\\' :: c :: _ => ['\\', c]
  | cs => cs.take 1

def readRange (lo hi : List Char) (here : Nat) (rest : List Char) :
    CharMember → CharMember → Except PatternError CharMember :=
  let text := lo ++ '-' :: hi
  let bad : Except PatternError CharMember :=
    .error (refuse (.badRange (String.ofList text)) (here - text.length) here rest)
  fun
  | .range a _, .range b _ => if b < a then bad else .ok (.range a b)
  | _, _ => bad

/-- The members of the set that starts at `start`, up to its closing bracket. A bracket that
comes first is a member. -/
def readMembers (start position : Nat) (first : Bool) :
    List Char → Except PatternError (List CharMember × Nat)
  | [] => .error { problem := .unterminatedSet, position := start }
  | c :: cs =>
    if c = ']' && !first then .ok ([], 1)
    else
      match readMember position c cs with
      | .error e => .error e
      | .ok (m, n) =>
        match h : cs.drop n with
        | ['-'] => .error { problem := .unterminatedSet, position := start }
        | '-' :: ']' :: _ => .ok ([m, .single '-'], n + 3)
        | '-' :: d :: ds =>
          match readMember (position + n + 2) d ds with
          | .error e => .error e
          | .ok (m', k) =>
            match readRange (firstToken (c :: cs)) (firstToken (d :: ds)) (position + n + k + 3)
                (ds.drop k) m m' with
            | .error e => .error e
            | .ok r =>
              have : (ds.drop k).length < (c :: cs).length := by
                have := congrArg List.length h
                simp only [List.length_drop, List.length_cons] at this ⊢
                omega
              match readMembers start (position + n + k + 3) false (ds.drop k) with
              | .error e => .error e
              | .ok (ms, j) => .ok (r :: ms, n + k + 3 + j)
        | rest =>
          have : rest.length < (c :: cs).length := by
            have := congrArg List.length h
            simp only [List.length_drop, List.length_cons] at this ⊢
            omega
          match readMembers start (position + n + 1) false rest with
          | .error e => .error e
          | .ok (ms, j) => .ok (m :: ms, n + 1 + j)
termination_by cs => cs.length
decreasing_by all_goals assumption

def readSet (start : Nat) (cs : List Char) : Except PatternError (CharSet × Nat) :=
  match cs with
  | '^' :: ds => do
    let (members, n) ← readMembers start (start + 2) true ds
    return ({ complement := true, members }, n + 1)
  | _ => do
    let (members, n) ← readMembers start (start + 1) true cs
    return ({ members }, n)

/-! ## Repeats -/

def readBounds? (cs : List Char) : Option (Nat × Option Nat × Nat) :=
  let lo := cs.takeWhile Char.isDigit
  match cs.dropWhile Char.isDigit with
  | '}' :: _ =>
    if lo.isEmpty then none else some (ofDigits 10 lo, some (ofDigits 10 lo), lo.length + 1)
  | ',' :: ds =>
    let hi := ds.takeWhile Char.isDigit
    match ds.dropWhile Char.isDigit with
    | '}' :: _ =>
      some (ofDigits 10 lo, if hi.isEmpty then none else some (ofDigits 10 hi),
        lo.length + hi.length + 2)
    | _ => none
  | _ => none

def roundLimit : Nat := Nat.pow 2 32 - 1

def checkBounds (position lo : Nat) (hi : Option Nat) : Except PatternError Unit :=
  if roundLimit ≤ lo || hi.any (roundLimit ≤ ·) then
    .error { problem := .repeatTooLarge, position }
  else if hi.any (· < lo) then .error { problem := .repeatBounds, position }
  else .ok ()

def readMode : List Char → LoopMode × Nat
  | '?' :: _ => (.lazy, 1)
  | '+' :: _ => (.possessive, 1)
  | _ => (.greedy, 0)

/-! ## Symbols -/

inductive Opening where
  | plain
  | capture
  | atomic

inductive Symbol where
  | set (s : CharSet)
  | anchor (a : Anchor)
  | again (index : Nat)
  | opening (o : Opening)
  | closing
  | bar
  | times (lo : Nat) (hi : Option Nat)

def dot : CharSet :=
  { complement := true, members := [.single '\n'] }

def readOpening (position : Nat) : List Char → Except PatternError (Opening × Nat)
  | '?' :: ':' :: _ => .ok (.plain, 2)
  | '?' :: '>' :: _ => .ok (.atomic, 2)
  | ['?'] => .error { problem := .unexpectedEnd, position := position + 2 }
  | '?' :: cs =>
    -- Whatever else may follow here is outside of the language.
    let token := firstToken cs
    let rest := cs.drop token.length
    if isDangling cs then .error { problem := .danglingEscape, position := position + 2 }
    else
      .error (refuse (.unknownExtension (String.ofList ('?' :: token))) (position + 1)
        (position + 2 + token.length) rest)
  | _ => .ok (.capture, 0)

def readSymbol (position : Nat) (c : Char) (cs : List Char) :
    Except PatternError (Symbol × Nat) :=
  let char : Symbol × Nat := (.set { members := [.single c] }, 0)
  match c with
  | '.' => .ok (.set dot, 0)
  | '^' => .ok (.anchor .start, 0)
  | '$' => .ok (.anchor .finish, 0)
  | '|' => .ok (.bar, 0)
  | ')' => .ok (.closing, 0)
  | '(' => (readOpening position cs).map fun (o, n) => (.opening o, n)
  | '*' => .ok (.times 0 none, 0)
  | '+' => .ok (.times 1 none, 0)
  | '?' => .ok (.times 0 (some 1), 0)
  | '{' =>
    match readBounds? cs with
    | none => .ok char
    | some (lo, hi, n) => .ok (.times lo hi, n)
  | '[' => (readSet position cs).map fun (s, n) => (.set s, n)
  | '\\' =>
    match cs with
    | [] => .error { problem := .danglingEscape, position }
    | d :: ds =>
      match readEscape false position d ds with
      | .ok (.member m, n) => .ok (.set { members := [m] }, n + 1)
      | .ok (.anchor a, n) => .ok (.anchor a, n + 1)
      | .ok (.again i, n) => .ok (.again i, n + 1)
      | .error e => .error e
  | _ => .ok char

/-! ## Trees -/

structure Frame where
  kind : GroupKind
  position : Nat
  branches : List Node := []
  nodes : List Node := []

namespace Frame

def branch (f : Frame) : Node :=
  f.nodes.foldl (fun rest n => .seq n rest) .empty

def body (f : Frame) : Node :=
  f.branches.foldl (fun rest b => .alt b rest) f.branch

end Frame

/-- The open groups, the innermost first, above the pattern as a whole, and the
number of capturing groups so far. -/
structure Stack where
  top : Frame := { kind := .plain, position := 0 }
  below : List Frame := []
  groups : Nat := 0

namespace Stack

def push (s : Stack) (n : Node) : Stack :=
  { s with top := { s.top with nodes := n :: s.top.nodes } }

def isOpen (s : Stack) (index : Nat) : Bool :=
  (s.top :: s.below).any (·.kind == .capture index)

def opened (s : Stack) (position : Nat) : Opening → Stack
  | .plain => { s with top := { kind := .plain, position }, below := s.top :: s.below }
  | .atomic => { s with top := { kind := .atomic, position }, below := s.top :: s.below }
  | .capture =>
    { top := { kind := .capture (s.groups + 1), position }, below := s.top :: s.below,
      groups := s.groups + 1 }

def repeatLast (s : Stack) (position lo : Nat) (hi : Option Nat) (mode : LoopMode) :
    Except PatternError Stack :=
  match s.top.nodes with
  | [] | .anchor _ :: _ => .error { problem := .nothingToRepeat, position }
  | .loop .. :: _ => .error { problem := .multipleRepeat, position }
  | n :: ns => .ok { s with top := { s.top with nodes := .loop lo hi mode n :: ns } }

/-- Takes the symbol at a position; `rest` follows it. Gives how much of `rest` belongs
to it too, which is the mark of the mode of a repeat. -/
def step (s : Stack) (position : Nat) (rest : List Char) :
    Symbol → Except PatternError (Stack × Nat)
  | .set c => .ok (s.push (.set c), 0)
  | .anchor a => .ok (s.push (.anchor a), 0)
  | .again i =>
    if i = 0 ∨ s.groups < i then .error { problem := .noGroup i, position := position + 1 }
    else if s.isOpen i then .error { problem := .openGroup, position }
    else .ok (s.push (.again i), 0)
  | .bar =>
    .ok
      ({ s with top := { s.top with branches := s.top.branch :: s.top.branches, nodes := [] } }, 0)
  | .opening o => .ok (s.opened position o, 0)
  | .closing =>
    match s.below with
    | [] => .error { problem := .unbalancedParenthesis, position }
    | f :: fs => .ok ({ s with top := f, below := fs }.push (.group s.top.kind s.top.body), 0)
  | .times lo hi => do
    checkBounds (position + 1) lo hi
    let (mode, n) := readMode rest
    return (← s.repeatLast position lo hi mode, n)

end Stack

def isEager (s : Stack) (c : Char) : Bool :=
  c == ')' && s.below.isEmpty

def readFrom (s : Stack) (position : Nat) : List Char → Except PatternError Stack
  | [] => .ok s
  | c :: cs =>
    match readSymbol position c cs with
    | .error e => .error e
    | .ok (symbol, n) =>
      let here := position + n + 1
      let rest := cs.drop n
      if isDangling rest && !isEager s c then
        .error { problem := .danglingEscape, position := here }
      else
        match s.step position rest symbol with
        | .error e => .error e
        | .ok (s, m) => readFrom s (here + m) (rest.drop m)
termination_by cs => cs.length
decreasing_by
  simp only [List.length_drop, List.length_cons]
  omega

def readAll (source : String) : Except PatternError Stack := do
  let s ← readFrom {} 0 source.toList
  if s.below.isEmpty then return s
  else throw { problem := .unterminatedGroup, position := s.top.position }

def parse (source : String) (ignoreCase : Bool := false) : Except PatternError Pattern :=
  match readAll source with
  | .ok s => .ok { source, ignoreCase, node := s.top.body, groups := s.groups }
  | .error e => .error { e with source }

end Pattern

end Biblio
