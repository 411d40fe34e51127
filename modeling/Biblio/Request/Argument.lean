import Biblio.Field.CodeClass
import Biblio.Filter

/-!
# Loose arguments

Operations take loose arguments: a selector or a locator may be given parsed or as
text, a missing one is the missing value, and truth values serve as integers.
`Arg` reads them and says what is wrong with one that does not serve.
-/

namespace Biblio

namespace Arg

/-! ## Selectors and locators -/

def toSelector : Arg → Action Selector
  | .selector sel => return sel
  | .text t => Action.ofExcept .locator (Selector.parse t)
  | v => throw (.argument (.selector v.typeName))

/-- The selector that a code, if any, names together with separate marks, if
any. Whatever counts as false is no mark. -/
def fieldSelector (code marks : Arg) : Action Selector := do
  if code.isNull then return .all
  let sel ← toSelector code
  if !(← get).isTrue marks then return sel
  match marks with
  | .text t => Action.ofExcept .locator (sel.withMarks t)
  | v => throw (.operation (.notText v.typeName))

def refined (l : Locator) : Arg → Action Locator
  | .null => Action.ofExcept .locator (l.refine none)
  | .text t => Action.ofExcept .locator (l.refine (some t))
  | v => do
    let shown := (← get).shown v
    if !l.wantField then throw (.locator (.duplicate l.write shown))
    Action.checkKey v
    let plan ← Action.ofExcept .locator (Locator.parse l.write)
    if plan.wantField then throw (.argument (.selector v.typeName))
    else throw (.locator (.duplicate l.write shown))

def parsed (text : Arg) (subfield : Option String) : Action Locator := do
  match text with
  | .text t => Action.ofExcept .locator (Locator.parse t subfield)
  | v => do
    Action.checkKey v
    throw (.argument (.locator v.typeName))

def toLocator (text subfield : Arg) : Action Locator :=
  match text with
  | .locator l => refined l subfield
  | _ =>
    match subfield with
    | .null => parsed text none
    | .text t => parsed text (some t)
    | v => throw (.argument (.subfield v.typeName))

/-! ## Classes of codes -/

def toCodeClass (codes : Arg) : Action (Option CodeClass) := do
  match codes with
  | .null => return none
  | .text t =>
    match CodeClass.parse? t with
    | some k => return some k
    | none => throw (.locator (.badClass (Text.quote t) (some t)))
  | v => throw (.locator (.badClass ((← get).shown v) none))

/-! ## Predicates -/

def condition (f : Callback) : Query.Predicate := fun x => do
  let v ← f (.field x)
  return (← get).isTrue v

def items (v : Arg) : Action (List Arg) := do
  match (← get).items? v with
  | some xs => return xs
  | none => throw (.operation (.notIterable v.typeName))

def predicate (v : Arg) : Action Query.Predicate := do
  match Chain.callable? v with
  | some f => return condition f
  | none => throw (.argument (.predicate ((← get).shown v)))

/-- The conditions that an argument gives: none if it is missing, one if it can be
called, and otherwise its items. -/
def predicates (v : Arg) : Action (List Query.Predicate) := do
  if v.isNull then return []
  match Chain.callable? v with
  | some f => return [condition f]
  | none => (← items v).mapM predicate

def call (v : Arg) : Callback :=
  match Chain.callable? v with
  | some f => f
  | none => fun _ => throw (.operation (.notCallable v.typeName))

def attempt (v : Arg) : Query.Predicate :=
  condition (call v)

/-! ## Pairs, positions and bounds -/

def pair (v : Arg) : Action (Arg × Arg) := do
  match (← get).items? v with
  | none => throw (.operation (.noItems v.typeName))
  | some [x, y] => return (x, y)
  | some xs =>
    if xs.length < 2 then throw (.operation (.tooFewItems xs.length))
    else throw (.operation .tooManyItems)

def bound (v : Arg) : Action (Option Int) :=
  match v with
  | .null => return none
  | v =>
    match v.asInt? with
    | some n => return some n
    | none => throw (.operation .badBound)

def slice (start stop step : Arg) : Action Slice := do
  let step := (← bound step).getD 1
  if step = 0 then throw (.operation .zeroStep)
  let start ← bound start
  let stop ← bound stop
  return { start, stop, step }

end Arg

end Biblio
