import Biblio.Proofs.Query.Template
import Biblio.Proofs.Store.Contents

/-!
# Deterministic filters

A callback is deterministic if what it answers is told by what it is called with: for equal
fields the answers count as true or not alike, and for equal texts they give the same
verdict, whenever it is called. It may create objects meanwhile and may fail. Filters are
deterministic if they are always read as the same conditions and the same chain, and these
are deterministic. Steps and lists of steps are such filters if their callbacks are
deterministic.
-/

namespace Biblio

open Biblio.Action

variable {s t u : Store}

/-- Whether the answers of a callback are told by the fields and the texts that it is called
with, as far as conditions and chains look at answers. -/
structure Callback.Deterministic (s : Store) (c : Callback) : Prop where
  onFields : ∀ t u, s.Leads False t → s.Leads False u → ∀ f g, t.Twins u f g →
    Agrees t u (c (.field f)) (c (.field g)) fun t u x y => t.isTrue x = u.isTrue y
  onTexts : ∀ t u, s.Leads False t → s.Leads False u → ∀ x : String,
    Agrees t u (c (.text x)) (c (.text x)) fun _ _ x y => Verdict.ofDatum x = Verdict.ofDatum y

/-- Whether the verdicts of a callback on texts are told by the texts. -/
def Callback.JudgesTexts (s : Store) (c : Callback) : Prop :=
  ∀ t u, s.Leads False t → s.Leads False u → ∀ x : String,
    Agrees t u (c (.text x)) (c (.text x)) fun _ _ x y => Verdict.ofDatum x = Verdict.ofDatum y

/-- Whether filters are read in the same way whenever they are read, as conditions on fields
and as a chain, and these are deterministic. -/
structure Arg.Deterministic (s : Store) (filters : Arg) : Prop where
  conditions : ∀ t u, s.Leads False t → s.Leads False u →
    Agrees t u filters.predicates filters.predicates fun _ _ ps qs =>
      ps = qs ∧ ∀ p ∈ ps, p.Deterministic s
  chain : ∀ t u, s.Leads False t → s.Leads False u →
    Agrees t u (Chain.ofArg filters) (Chain.ofArg filters) fun _ _ c d =>
      c = d ∧ c.sieve.Deterministic s

theorem Arg.deterministic_condition {f : Callback} (hf : f.Deterministic s) :
    (condition f).Deterministic s := by
  intro t u ht hu x y hxy
  refine (hf.onFields t u ht hu x y hxy).bind fun v w _ _ _ _ h => ?_
  exact agrees_get_bind (agrees_pure h)

/-! ## Chains -/

namespace Chain

variable {c : Chain}

theorem determined_apply (hc : ∀ st ∈ c, Callback.JudgesTexts s st.call) (x : String) :
    Determined s (apply c x) := by
  induction c generalizing x with
  | nil => exact determined_pure (some x)
  | cons st c ih =>
      intro t u ht hu
      have hst := hc st (by simp) t u ht hu x
      refine hst.bind fun v w t' u' ht' hu' h => ?_
      rw [h]
      cases (Verdict.ofDatum w).apply x with
      | none => exact agrees_pure rfl
      | some y =>
          exact ih (fun st hst => hc st (by simp [hst])) y t' u' (ht.trans ht') (hu.trans hu')

theorem deterministic_sieve (hc : ∀ st ∈ c, Callback.JudgesTexts s st.call) :
    c.sieve.Deterministic s where
  all := by
    intro vs
    induction vs with
    | nil => exact determined_pure []
    | cons v vs ih =>
        refine (determined_apply hc v).bind fun w => ?_
        cases w with
        | none => exact ih
        | some w => exact Determined.bind ih fun ws => determined_pure (w :: ws)
  first := by
    intro vs
    induction vs with
    | nil => exact determined_pure none
    | cons v vs ih =>
        refine (determined_apply hc v).bind fun w => ?_
        cases w with
        | none => exact ih
        | some w => exact determined_pure (some w)

end Chain

/-! ## Arguments -/

namespace Arg

def IsDeterministic (s : Store) (v : Arg) : Prop :=
  ∃ f, Chain.callable? v = some f ∧ Callback.Deterministic s f

variable {v : Arg} {xs : List Arg}

/-- A callback or a step is read as the chain of one step that does the same. -/
theorem IsDeterministic.build (hv : v.IsDeterministic s) :
    ∃ st : Step Callback, Callback.Deterministic s st.call ∧
      ∀ t : Store, Chain.build t v = .ok [st] := by
  obtain ⟨f, hcall, hf⟩ := hv
  cases v with
  | callback g =>
      obtain rfl := Option.some.inj hcall
      exact ⟨.each g, ⟨hf.onFields, hf.onTexts⟩, fun _ => rfl⟩
  | step st =>
      obtain rfl := Option.some.inj hcall
      exact ⟨st, hf, fun _ => rfl⟩
  | _ => cases hcall

/-- A chain that is built alike in two stores is read alike there. -/
theorem agrees_ofArg_of_eq (hbuild : Chain.build t v = Chain.build u v)
    (hc : ∀ c, Chain.build u v = .ok c → ∀ st ∈ c, Callback.JudgesTexts s st.call) :
    Agrees t u (Chain.ofArg v) (Chain.ofArg v) fun _ _ c d =>
      c = d ∧ c.sieve.Deterministic s := by
  rw [Chain.ofArg]
  refine agrees_get_bind ?_
  rw [hbuild]
  exact agrees_ofExcept fun c h => ⟨rfl, Chain.deterministic_sieve (hc c h)⟩

/-- A chain that does not depend on the store is read in the same way everywhere. -/
theorem agrees_ofArg {c : Chain} (hbuild : ∀ t : Store, Chain.build t v = .ok c)
    (hc : ∀ st ∈ c, Callback.Deterministic s st.call) :
    Agrees t u (Chain.ofArg v) (Chain.ofArg v) fun _ _ c d =>
      c = d ∧ c.sieve.Deterministic s := by
  refine agrees_ofArg_of_eq (by rw [hbuild, hbuild]) fun d hd st hst => ?_
  obtain rfl := Except.ok.inj ((hbuild u).symm.trans hd)
  exact (hc st hst).onTexts

theorem mapM_predicate (hxs : ∀ x ∈ xs, Arg.IsDeterministic s x) :
    ∃ ps, xs.mapM predicate = pure ps ∧ ∀ p ∈ ps, p.Deterministic s := by
  induction xs with
  | nil => exact ⟨[], rfl, by simp⟩
  | cons x xs ih =>
      obtain ⟨f, hcall, hf⟩ := hxs x (by simp)
      obtain ⟨ps, hmap, hps⟩ := ih fun y hy => hxs y (by simp [hy])
      refine ⟨condition f :: ps, ?_, by simpa [deterministic_condition hf] using hps⟩
      rw [List.mapM_cons, predicate, hcall, hmap]
      rfl

theorem deterministic_null : Arg.Deterministic s .null where
  conditions := fun _ _ _ _ => agrees_pure ⟨rfl, by simp⟩
  chain := fun _ _ _ _ => agrees_ofArg (fun _ => rfl) (by simp)

theorem deterministic_one (hv : v.IsDeterministic s) : v.Deterministic s where
  conditions := by
    intro t u _ _
    obtain ⟨f, hcall, hf⟩ := hv
    have hread : v.predicates = pure [condition f] := by
      have hnull : v.isNull = false := by
        cases v <;> first | rfl | cases hcall
      rw [predicates, hnull, if_neg Bool.false_ne_true, hcall]
    rw [hread]
    exact agrees_pure ⟨rfl, by simpa using deterministic_condition hf⟩
  chain := by
    intro t u _ _
    obtain ⟨st, hst, hbuild⟩ := hv.build
    exact agrees_ofArg hbuild (by simpa using hst)

/-- Items are read one by one as conditions and as parts of a chain. -/
theorem deterministic_of_items {c : Chain} (hnull : v.isNull = false)
    (hcall : Chain.callable? v = none) (hitems : ∀ t : Store, t.items? v = some xs)
    (hxs : ∀ x ∈ xs, Arg.IsDeterministic s x) (hbuild : ∀ t : Store, Chain.build t v = .ok c)
    (hc : ∀ st ∈ c, Callback.Deterministic s st.call) : v.Deterministic s where
  conditions := by
    intro t u _ _
    obtain ⟨ps, hmap, hps⟩ := mapM_predicate hxs
    have hread : ∀ t : Store, v.predicates.exec t = (.ok ps, t) := by
      intro t
      have hread : v.items.exec t = (.ok xs, t) := by
        rw [items, exec_get_bind, hitems]
        rfl
      rw [predicates, hnull, if_neg Bool.false_ne_true, hcall]
      dsimp only
      rw [exec_bind_of hread, hmap, exec_pure]
    exact agrees_of_exec (hread t) (hread u) (.refl t) (.refl u) ⟨rfl, hps⟩
  chain := fun _ _ _ _ => agrees_ofArg hbuild hc

theorem deterministic_chain {c : Chain} (hc : ∀ st ∈ c, Callback.Deterministic s st.call) :
    Arg.Deterministic s (.chain c) := by
  have hsteps : ∀ x ∈ c.map Value.step, Arg.IsDeterministic s x := by
    intro x hx
    obtain ⟨st, hst, rfl⟩ := List.mem_map.mp hx
    exact ⟨st.call, rfl, hc st hst⟩
  exact deterministic_of_items rfl rfl (fun _ => rfl) hsteps (fun _ => rfl) hc

end Arg

/-! ## Steps -/

namespace Step

theorem determined_find (x : Pattern) (text : String) :
    Determined s ((find x).call (.text text)) := by
  rw [call]
  cases x.search text with
  | none => exact determined_pure _
  | some place =>
      dsimp only
      split
      · exact determined_pure _
      · exact determined_pure _

/-- A pattern is searched for in texts only. -/
theorem deterministic_find (x : Pattern) : Callback.Deterministic s (find x).call where
  onFields := fun _ _ _ _ _ _ _ => agrees_throw _
  onTexts := fun t u ht hu text =>
    (determined_find x text t u ht hu).imp fun _ _ _ _ _ _ h => congrArg Verdict.ofDatum h

theorem agrees_format (hs : s.KeepsBuilt) (ht : s.Leads False t) (hu : s.Leads False u)
    {x y : Datum} (h : Datum.Seen t u x y) (template : String) :
    Agrees t u ((format template).call x) ((format template).call y) fun _ _ v w =>
      ∃ a, v = .text a ∧ w = .text a := by
  rw [call, call, map_eq_pure_bind, map_eq_pure_bind]
  exact (Template.agrees_fill hs ht hu h template).bind_same fun a _ _ _ _ =>
    agrees_pure ⟨a, rfl, rfl⟩

/-- A template shows of fields only what equal ones have in common. -/
theorem deterministic_format (hs : s.KeepsBuilt) (template : String) :
    Callback.Deterministic s (format template).call where
  onFields := by
    intro t u ht hu f g hfg
    refine (agrees_format hs ht hu (.field hfg) template).imp fun v w t' u' _ _ h => ?_
    obtain ⟨a, rfl, rfl⟩ := h
    rfl
  onTexts := by
    intro t u ht hu x
    refine (agrees_format hs ht hu (.text x) template).imp fun v w _ _ _ _ h => ?_
    obtain ⟨a, rfl, rfl⟩ := h
    rfl

/-- A step that cannot serve fails, or extends a chain by what it is called with. -/
theorem agrees_idle (kind : StepKind) (arg : Arg) (x y : Datum) :
    Agrees t u ((idle kind arg).call x) ((idle kind arg).call y) fun t u v w =>
      t.isTrue v = u.isTrue w ∧ Verdict.ofDatum v = Verdict.ofDatum w := by
  rw [call, call]
  unfold callIdle
  split
  · exact agrees_throw _
  · exact agrees_pure ⟨by simp [Store.isTrue, Store.length?], rfl⟩
  · exact agrees_throw _
  · exact agrees_throw _

theorem deterministic_idle (kind : StepKind) (arg : Arg) :
    Callback.Deterministic s (idle kind arg).call where
  onFields := fun _ _ _ _ f g _ =>
    (agrees_idle kind arg (.field f) (.field g)).imp fun _ _ _ _ _ _ h => h.1
  onTexts := fun _ _ _ _ x =>
    (agrees_idle kind arg (.text x) (.text x)).imp fun _ _ _ _ _ _ h => h.2

/-- A step is deterministic if the callbacks in it are. -/
theorem deterministic_call (hs : s.KeepsBuilt) : ∀ st : Step Callback,
    Value.AllStep (fun _ => True) (Callback.Deterministic s) st → Callback.Deterministic s st.call
  | .find x, _ => deterministic_find x
  | .format template, _ => deterministic_format hs template
  | .each _, hf => ⟨hf.onFields, hf.onTexts⟩
  | .nested st, hst => deterministic_call hs st hst
  | .idle kind arg, _ => deterministic_idle kind arg

end Step

end Biblio
