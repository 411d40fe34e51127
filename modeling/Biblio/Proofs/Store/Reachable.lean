import Biblio.Proofs.Run.Script

/-!
# Reachable stores

The stores that requests lead to from the empty one. A request may fail; what it did
before stays. Its arguments may hold whatever is in the store, so that fields are shared
and repeated, and any callbacks that act by steps, so that a query may change the store
in which it looks. All of it is steps, and therefore the records of a reachable store are
indexed.
-/

namespace Biblio

open Biblio.Action

namespace Store

/-- The stores that requests lead to. -/
inductive Reachable : Store → Prop
  | empty : Reachable {}
  | write {s : Store} (h : Reachable s) {scope : Literal.Scope} (hscope : scope.IsIn s)
    (xs : List Literal) : Reachable ((Literal.evalList scope xs).exec s).2
  | create {s : Store} (h : Reachable s) (name : String) {args : List Arg}
    (hargs : ∀ v ∈ args, Arg.IsIn True s v) : Reachable ((Request.create name args).exec s).2
  | call {s : Store} (h : Reachable s) {x : Datum} (hx : x.IsIn s) (name : String)
    {args : List Arg} (hargs : ∀ v ∈ args, Arg.IsIn True s v) :
    Reachable ((Request.call x name args).exec s).2

variable {s t : Store}

/-- A run of steps of a store that the empty one leads to leads to another one. -/
theorem Leads.exec {α : Type} {a : Action α} {Q : α → Store → Prop}
    (h : ({} : Store).Leads True s) (ha : a.Runs True s Q) :
    ({} : Store).Leads True (a.exec s).2 :=
  h.trans (ha (isIndexed_empty.mono h)).1

namespace Reachable

theorem leads (h : s.Reachable) : ({} : Store).Leads True s := by
  induction h with
  | empty => exact .refl {}
  | write _ hscope xs ih => exact ih.exec (Literal.runs_evalList trivial xs hscope)
  | create _ name hargs ih => exact ih.exec (Request.runs_create trivial name hargs)
  | call _ hx _ hargs ih => exact ih.exec (Request.runs_call hx (fun _ => trivial) hargs)

/-- The records of a reachable store are indexed. -/
theorem isIndexed (h : s.Reachable) : s.IsIndexed :=
  isIndexed_empty.mono h.leads

/-- A step of a script leads from a reachable store to another one. -/
theorem script (h : s.Reachable) {scope : Literal.Scope} (hscope : scope.IsIn s)
    (step : ScriptStep) : ((step.action scope).exec s).2.Reachable := by
  have hargs := Literal.runs_evalList trivial step.args hscope h.isIndexed
  have hwrite := h.write hscope step.args
  rw [ScriptStep.action, exec_bind]
  -- A fault among the arguments leaves what was written before it.
  rcases hrun : (Literal.evalList scope step.args).exec s with ⟨e | vs, t⟩
  · rw [hrun] at hwrite
    exact hwrite
  · rw [hrun] at hargs hwrite
    have hvs := hargs.2 vs rfl
    dsimp only
    split
    · exact hwrite.create _ hvs
    · split
      · next x hx => exact hwrite.call ((hscope.lookup hx).mono hargs.1) _ hvs
      · exact hwrite

end Reachable

/-- All stores of a script are reachable, whatever its steps are and which of them fail. -/
theorem reachable_of_mem_runScript (steps : List ScriptStep) {scope : Literal.Scope}
    (hscope : scope.IsIn s) (h : s.Reachable) :
    ∀ entry ∈ runScript scope s steps, entry.store.Reachable := by
  induction steps generalizing scope s with
  | nil => simp [runScript]
  | cons step steps ih =>
      have hnext := h.script hscope step
      have hrun := step.runs_action trivial hscope h.isIndexed
      have hrescope := step.isIn_rescope (hscope.mono hrun.1) hrun.2
      intro entry hentry
      rcases List.mem_cons.mp hentry with rfl | hentry
      · exact hnext
      · exact ih hrescope hnext entry hentry

end Store

end Biblio
