import Biblio.Request.Literal

/-!
# Compositions of chains

Chains are composed step by step from the empty chain. A step extends a chain that
is there already by one filter step, or adds another chain to it, and gives a new
chain; the old one stays as it is. A step that ends with a fault gives the chain
that it started from.
-/

namespace Biblio

inductive Extension where
  | step (arg : Literal)
  | find (arg : Literal)
  | format (arg : Literal)
  | each (arg : Literal)
  | own (index : Nat)
  | chain (arg : Literal)

structure Composition where
  base : Nat
  extension : Extension

namespace Extension

def made (kind : StepKind) (arg : Literal) : Action Chain := do
  let v ← arg.eval []
  return [← Action.ofExcept id (Literal.toStep kind v)]

def steps (chains : List Chain) : Extension → Action Chain
  | step arg => do return [← Literal.asStep (← arg.eval [])]
  | find arg => made .pattern arg
  | format arg => made .format arg
  | each arg => made .custom arg
  | own index => return chains.getD index []
  | chain arg => do
    match ← arg.eval [] with
    | .chain c => return c
    | v => throw (.operation (.notAddable "FilterChain" v.typeName))

end Extension

namespace Composition

def start (chains : List Chain) (x : Composition) : Chain :=
  chains.getD x.base []

def extended (chains : List Chain) (x : Composition) : Action Chain := do
  return x.start chains ++ (← x.extension.steps chains)

end Composition

/-- Runs compositions in order, starting with the empty chain. Gives the outcome of
each and all chains. -/
def compose (s : Store) (xs : List Composition) : List (Except Fault Chain) × List Chain :=
  xs.foldl
    (fun (outcomes, chains) x =>
      let outcome := ((x.extended chains).exec s).1
      let next := match outcome with
        | .ok c => c
        | .error _ => x.start chains
      (outcomes ++ [outcome], chains ++ [next]))
    ([], [[]])

end Biblio
