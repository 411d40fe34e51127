/-!
# Positions and slices

A list is read by signed positions: those below zero count from its end. A slice
takes every `step`-th element from a start up to a stop. Bounds beyond the ends are
clipped, missing ones are the ends, and a step below zero walks backwards.
-/

namespace Biblio

def fromFront (n : Nat) (i : Int) : Int :=
  if i < 0 then i + n else i

def atPosition? {α : Type} (xs : List α) (i : Int) : Option α :=
  let j := fromFront xs.length i
  if j < 0 then none else xs[j.toNat]?

structure Slice where
  start : Option Int := none
  stop : Option Int := none
  step : Int := 1
  deriving DecidableEq, Repr

namespace Slice

def lowest (s : Slice) : Int :=
  if s.step < 0 then -1 else 0

def highest (s : Slice) (n : Nat) : Int :=
  if s.step < 0 then n - 1 else n

def clip (s : Slice) (n : Nat) (i : Int) : Int :=
  max s.lowest (min (s.highest n) (fromFront n i))

def first (s : Slice) (n : Nat) : Int :=
  match s.start with
  | some i => s.clip n i
  | none => if s.step < 0 then s.highest n else s.lowest

def last (s : Slice) (n : Nat) : Int :=
  match s.stop with
  | some i => s.clip n i
  | none => if s.step < 0 then s.lowest else s.highest n

def count (s : Slice) (n : Nat) : Nat :=
  let span := if s.step < 0 then s.first n - s.last n else s.last n - s.first n
  if span ≤ 0 then 0 else ((span - 1) / s.step.natAbs + 1).toNat

def positions (s : Slice) (n : Nat) : List Nat :=
  (List.range (s.count n)).map fun (i : Nat) => (s.first n + (i : Int) * s.step).toNat

def take {α : Type} (s : Slice) (xs : List α) : List α :=
  (s.positions xs.length).filterMap fun i => xs[i]?

example : ({ start := some (-2) } : Slice).take [1, 2, 3] = [2, 3] := by decide

example : ({ stop := some 9 } : Slice).take [1, 2, 3] = [1, 2, 3] := by decide

example : ({ step := -2 } : Slice).take [1, 2, 3, 4] = [4, 2] := by decide

end Slice

end Biblio
