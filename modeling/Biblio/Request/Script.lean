import Biblio.Request.Literal

/-!
# Scripts

A script is a list of steps that share one store. A step creates an object or
applies an operation to a stored one, and may store what it gets under a name. The
entries of a script report the outcome of each step together with the store at that
moment; a step that ends with a fault stores nothing, and the script goes on.
-/

namespace Biblio

structure ScriptStep where
  name : String
  target : Option String := none
  args : List Literal := []
  result : Option String := none

structure ScriptEntry where
  outcome : Except Fault Datum
  target : Option Datum
  store : Store

namespace ScriptStep

def object (scope : Literal.Scope) (step : ScriptStep) : Option Datum :=
  step.target.bind fun name => scope.lookup name

def action (scope : Literal.Scope) (step : ScriptStep) : Action Datum := do
  let args ← Literal.evalList scope step.args
  match step.target with
  | none => Request.create step.name args
  | some name =>
    match scope.lookup name with
    | some x => Request.call x step.name args
    | none => throw (.operation (.unbound name))

def rescope (scope : Literal.Scope) (step : ScriptStep) : Except Fault Datum → Literal.Scope
  | .ok v =>
    match step.result with
    | some name => (name, v) :: scope
    | none => scope
  | .error _ => scope

end ScriptStep

def runScript (scope : Literal.Scope) (s : Store) : List ScriptStep → List ScriptEntry
  | [] => []
  | step :: steps =>
    let (outcome, s') := (step.action scope).exec s
    { outcome, target := step.object scope, store := s' } ::
      runScript (step.rescope scope outcome) s' steps

end Biblio
