import Biblio.Pattern.Search
import Biblio.Template.Fill

/-!
# Filters

A filter chain is a list of steps that a value runs through in order. A step
replaces the value by a nonempty text, keeps it, or drops it, and the chain stops
at the first drop. `Chain.build` turns a loose definition into a chain: a
definition is missing, a chain, a step, a callback, a table of options, or a list
of definitions, whose chains are joined from left to right.
-/

namespace Biblio

abbrev Chain := List (Step Callback)

inductive Verdict where
  | replace (s : String)
  | keep
  | drop
  deriving DecidableEq, Repr

namespace Verdict

/-- The verdict that the answer of a step gives: only a nonempty text and the
truth keep a value. -/
def ofDatum : Datum → Verdict
  | .text s => if s = "" then drop else replace s
  | .bool true => keep
  | _ => drop

def apply : Verdict → String → Option String
  | replace s, _ => some s
  | keep, v => some v
  | drop, _ => none

end Verdict

namespace Step

/-- The answer of a step of a kind that cannot serve. A chain in the place of a template
is extended by the value. -/
def callIdle (kind : StepKind) (arg : Arg) (v : Datum) : Action Datum :=
  match kind, arg with
  | .pattern, a => throw (.operation (.noMember a.typeName "search"))
  | .format, .chain c =>
    return .chain (Value.mapSteps (fun _ => ()) c ++ [Step.ofKind .format v])
  | .format, a => throw (.operation (.noMember a.typeName "format"))
  | .custom, a => throw (.operation (.notCallable a.typeName))

def call (v : Datum) : Step Callback → Action Datum
  | .find x =>
    match v with
    | .text t =>
      match x.search t with
      | none => return .bool false
      | some place =>
        if x.groups = 0 then return .bool true
        else return .ofOption .text (place.group? 1)
    | _ => throw (.operation (.notText v.typeName))
  | .format template => .text <$> Template.fill template v
  | .each f => f v
  | .nested step => step.call v
  | .idle kind arg => callIdle kind arg v

end Step

namespace Chain

/-- Runs a value through a chain; `none` if a step drops it. -/
def apply : Chain → String → Action (Option String)
  | [], v => return some v
  | step :: steps, v => do
    match (Verdict.ofDatum (← step.call (.text v))).apply v with
    | none => return none
    | some w => apply steps w

def applyAll (c : Chain) : List String → Action (List String)
  | [] => return []
  | v :: vs => do
    match ← c.apply v with
    | none => c.applyAll vs
    | some w => return w :: (← c.applyAll vs)

/-- The first value that a chain keeps; the values behind it are not looked at. -/
def firstKept (c : Chain) : List String → Action (Option String)
  | [] => return none
  | v :: vs => do
    match ← c.apply v with
    | none => c.firstKept vs
    | some w => return some w

def sieve (c : Chain) : Query.Sieve where
  all := c.applyAll
  first := c.firstKept

/-! ## Definitions -/

def findStep : Arg → Except Fault (Step Callback)
  | .text source =>
    match Pattern.parse source with
    | .ok x => .ok (.find x)
    | .error e => .error (.pattern e)
  | v => .ok (Step.ofKind .pattern v)

def callable? : Arg → Option Callback
  | .callback f => some f
  | .step st => some st.call
  | _ => none

def optionNames : List String := ["find", "format", "each"]

def option? (name : String) : List (Arg × Arg) → Option Arg
  | [] => none
  | (.text k, v) :: es => if k = name then some v else option? name es
  | _ :: es => option? name es

def isOption : Arg → Bool
  | .text k => optionNames.contains k
  | _ => false

/-- The names in increasing order of the keys that are no options. A key that is no text
cannot be listed. The fault tells this of the key itself; where keys of several types are
to be ordered, one about their order may come before it. -/
def unknownNames (es : List (Arg × Arg)) : Except Fault (List String) := do
  let names ← (es.map Prod.fst).filter (fun k => !isOption k) |>.mapM fun
    | .text k => pure k
    | k => throw (Fault.operation (.badItem 0 "str instance" k.typeName))
  return names.mergeSort

def given? (name : String) (es : List (Arg × Arg)) : Option Arg :=
  (option? name es).filter fun v => !v.isNull

def findSteps : Option Arg → Except Fault Chain
  | none => .ok []
  | some v => do return [← findStep v]

def formatSteps : Option Arg → Except Fault Chain
  | none => .ok []
  | some (.text t) => .ok [.format t]
  | some _ => .error (.argument .formatOption)

def eachSteps : Option Arg → Except Fault Chain
  | none => .ok []
  | some v =>
    if (callable? v).isNone then .error (.argument .eachOption)
    else .ok [Step.ofKind .custom v]

def ofOptions (es : List (Arg × Arg)) : Except Fault Chain := do
  let unknown ← unknownNames es
  if !unknown.isEmpty then throw (.content (.options unknown))
  let find ← findSteps (given? "find" es)
  let format ← formatSteps (given? "format" es)
  let each ← eachSteps (given? "each" es)
  return find ++ format ++ each

mutual

def build (s : Store) : Arg → Except Fault Chain
  | .null => .ok []
  | .chain c => .ok c
  | .step st => .ok [st]
  | .callback f => .ok [.each f]
  | .table es => ofOptions es
  | .list xs | .tuple xs => buildAll s xs
  | .subfield sf => .error (.argument (.filter (Text.quote sf.code)))
  | v => .error (.argument (.filter (s.shown v)))

def buildAll (s : Store) : List Arg → Except Fault Chain
  | [] => .ok []
  | x :: xs => do
    let c ← build s x
    let d ← buildAll s xs
    return c ++ d

end

def ofArg (v : Arg) : Action Chain := do
  Action.ofExcept id (build (← get) v)

end Chain

end Biblio
