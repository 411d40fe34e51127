import Biblio.Filter
import Biblio.Proofs.Run.Query

/-!
# Filters as runs of steps

A filter step over what is in a store makes steps only when it is called, and so do the
chains of such steps. The chain that a definition gives consists of steps over what the
definition has.
-/

namespace Biblio

open Biblio.Action

variable {s t : Store} {growth : Prop}

/-! ## Templates -/

namespace Template

theorem runs_member (fuel : Nat) {v : Datum} (hv : v.IsIn s) (path : List Char) :
    (member fuel v path).Runs growth s fun x t => x.IsIn t := by
  induction fuel generalizing s v path with
  | zero =>
      rw [member]
      exact runs_pure fun _ => hv
  | succ fuel ih =>
      unfold member
      split
      · exact runs_pure fun _ => hv
      · exact runs_pure fun _ => hv
      · next fuel' cs hfuel =>
        obtain rfl : fuel = fuel' := Nat.succ.inj hfuel
        refine runs_ofExcept_bind fun k => ?_
        exact (Value.runs_item hv k).bind fun x t _ hx => ih hx _
      · next fuel' cs hfuel =>
        obtain rfl : fuel = fuel' := Nat.succ.inj hfuel
        dsimp only
        split
        · exact runs_throw_bind _
        · exact (Value.runs_member v _).bind fun x u _ hx => ih hx _
      · exact runs_throw _

theorem steps_select {v : Datum} (hv : v.IsIn s) (numbering : Numbering) (p : Placeholder) :
    (select v numbering p).Steps growth s := by
  unfold select
  refine runs_ofExcept_bind fun x => ?_
  dsimp only
  split
  · exact runs_throw_bind _
  · refine (runs_member _ hv _).bind fun y t _ _ => runs_get_bind fun _ => ?_
    exact runs_ofExcept_bind fun _ => runs_pure fun _ => trivial

theorem steps_fillFrom {v : Datum} (hv : v.IsIn s) (depth : Nat) (numbering : Numbering)
    (cs : List Char) : (fillFrom v depth numbering cs).Steps growth s := by
  induction depth generalizing s numbering cs with
  | zero => exact runs_throw _
  | succ depth ih =>
      rw [fillFrom]
      refine runs_foldlM fun acc piece _ t hst => ?_
      cases piece with
      | char c => exact runs_pure fun _ => trivial
      | fault e => exact runs_throw _
      | hole p =>
          refine (steps_select (hv.mono hst) _ p).bind fun x u htu _ => ?_
          dsimp only
          split
          · refine (ih (hv.mono (hst.trans htu)) _ _).bind fun l w _ _ => ?_
            exact runs_get_bind fun _ => runs_ofExcept_bind fun _ => runs_pure fun _ => trivial
          · rw [pure_bind]
            exact runs_get_bind fun _ => runs_ofExcept_bind fun _ => runs_pure fun _ => trivial

theorem steps_fill {v : Datum} (hv : v.IsIn s) (template : String) :
    (fill template v).Steps growth s :=
  (steps_fillFrom hv _ _ _).bind fun _ _ _ _ => runs_pure fun _ => trivial

end Template

/-! ## Steps -/

namespace Step

theorem allStep_ofKind {F : FieldRef → Prop} {C : Callback → Prop} (kind : StepKind) {v : Arg}
    (hv : v.All F C) : Value.AllStep F C (ofKind kind v) := by
  unfold ofKind
  split
  · trivial
  · trivial
  · exact hv
  · exact hv
  · exact hv

theorem runs_callIdle (kind : StepKind) {arg : Arg} (harg : arg.IsIn growth s) {v : Datum}
    (hv : v.IsIn s) : (callIdle kind arg v).Runs growth s fun x t => x.IsIn t := by
  unfold callIdle
  split
  · exact runs_throw _
  · next c =>
    refine runs_pure fun _ => ?_
    have hsteps := Value.AllSteps.map (fun _ hf => hf) (D := fun _ : Unit => True)
      (g := fun _ => ()) (fun _ _ => trivial) c harg
    have hlast : Value.AllStep s.HasField (fun _ : Unit => True) (ofKind .format v) := by
      unfold ofKind
      split <;> trivial
    simp only [Datum.IsIn, Value.all_chain, List.mem_append, List.mem_singleton]
    rintro st (hst | rfl)
    · exact Value.allSteps_iff.mp hsteps st hst
    · exact hlast
  · exact runs_throw _
  · exact runs_throw _

/-- A step over what is in the store gives a value of the store where it ends. -/
theorem runs_call {v : Datum} : ∀ (st : Step Callback) {s : Store}, st.IsIn growth s → v.IsIn s →
    (st.call v).Runs growth s fun x t => x.IsIn t
  | .find x, s, _, _ => by
    unfold call
    split
    · split
      · exact runs_pure fun _ => trivial
      · split
        · exact runs_pure fun _ => trivial
        · exact runs_pure fun _ => Datum.isIn_ofOption_text _
    · exact runs_throw _
  | .format template, s, _, hv => by
    unfold call
    exact (Template.steps_fill hv template).map fun _ _ _ _ _ => trivial
  | .each f, s, hf, hv => by
    unfold call
    exact hf s (.refl s) v hv
  | .nested st, s, hst, hv => by
    unfold call
    exact runs_call st hst hv
  | .idle kind arg, s, harg, hv => by
    unfold call
    exact runs_callIdle kind harg hv

end Step

/-! ## Chains -/

namespace Chain

def IsIn (growth : Prop) (s : Store) (c : Chain) : Prop :=
  ∀ st ∈ c, st.IsIn growth s

def All (F : FieldRef → Prop) (C : Callback → Prop) (c : Chain) : Prop :=
  ∀ st ∈ c, Value.AllStep F C st

variable {c d : Chain} {F : FieldRef → Prop} {C : Callback → Prop}

theorem IsIn.mono (h : IsIn growth s c) (hst : s.Leads growth t) : IsIn growth t c :=
  fun st hmem => (h st hmem).mono hst

theorem all_nil : All F C [] := by
  simp [All]

theorem all_singleton {st : Step Callback} : All F C [st] ↔ Value.AllStep F C st := by
  simp [All]

theorem all_append : All F C (c ++ d) ↔ All F C c ∧ All F C d := by
  simp [All, or_imp, forall_and]

theorem steps_apply (hc : IsIn growth s c) (v : String) : (apply c v).Steps growth s := by
  induction c generalizing s v with
  | nil => exact runs_pure fun _ => trivial
  | cons st c ih =>
      refine (Step.runs_call st (hc st (by simp)) (Datum.isIn_text v)).bind fun x t hst _ => ?_
      split
      · exact runs_pure fun _ => trivial
      · exact ih (fun st' h => (hc st' (by simp [h])).mono hst) _

theorem steps_applyAll (hc : IsIn growth s c) (vs : List String) :
    (c.applyAll vs).Steps growth s := by
  induction vs generalizing s with
  | nil => exact runs_pure fun _ => trivial
  | cons v vs ih =>
      refine (steps_apply hc v).bind fun w t hst _ => ?_
      cases w with
      | none => exact ih (hc.mono hst)
      | some w => exact (ih (hc.mono hst)).bind fun _ _ _ _ => runs_pure fun _ => trivial

theorem steps_firstKept (hc : IsIn growth s c) (vs : List String) :
    (c.firstKept vs).Steps growth s := by
  induction vs generalizing s with
  | nil => exact runs_pure fun _ => trivial
  | cons v vs ih =>
      refine (steps_apply hc v).bind fun w t hst _ => ?_
      cases w with
      | none => exact ih (hc.mono hst)
      | some w => exact runs_pure fun _ => trivial

theorem acts_sieve (hc : IsIn growth s c) : c.sieve.Acts growth s :=
  ⟨fun _ hst => steps_applyAll (hc.mono hst), fun _ hst => steps_firstKept (hc.mono hst)⟩

/-! ## Definitions -/

theorem exists_of_bind_eq_ok {ε α β : Type} {x : Except ε α} {f : α → Except ε β} {b : β}
    (h : x >>= f = .ok b) : ∃ a, x = .ok a ∧ f a = .ok b := by
  cases x with
  | error e => cases h
  | ok a => exact ⟨a, rfl, h⟩

theorem option?_mem {name : String} {es : List (Arg × Arg)} {v : Arg}
    (h : option? name es = some v) : ∃ k, (k, v) ∈ es := by
  fun_induction option? name es with
  | case1 => exact absurd h (by simp)
  | case2 w es =>
      obtain rfl : w = v := by simpa using h
      exact ⟨_, List.mem_cons_self⟩
  | case3 k w es _ ih =>
      obtain ⟨k', hk'⟩ := ih h
      exact ⟨k', List.mem_cons_of_mem _ hk'⟩
  | case4 e es _ ih =>
      obtain ⟨k', hk'⟩ := ih h
      exact ⟨k', List.mem_cons_of_mem _ hk'⟩

theorem allStep_findStep {v : Arg} {st : Step Callback} (hv : v.All F C)
    (h : findStep v = .ok st) : Value.AllStep F C st := by
  unfold findStep at h
  split at h
  · split at h
    · obtain rfl := Except.ok.inj h
      trivial
    · exact absurd h (by simp)
  · obtain rfl := Except.ok.inj h
    exact Step.allStep_ofKind _ hv

theorem all_given? {es : List (Arg × Arg)} (hes : ∀ e ∈ es, e.2.All F C)
    (name : String) : ∀ v ∈ given? name es, Value.All F C v := by
  intro v hv
  obtain ⟨k, hk⟩ := option?_mem (Option.filter_eq_some_iff.mp hv).1
  exact hes _ hk

theorem all_findSteps {v : Option Arg} (hv : ∀ w ∈ v, Value.All F C w)
    (h : findSteps v = .ok c) : All F C c := by
  cases v with
  | none =>
      obtain rfl := Except.ok.inj h
      exact all_nil
  | some w =>
      obtain ⟨st, hst, h⟩ := exists_of_bind_eq_ok h
      obtain rfl := Except.ok.inj h
      exact all_singleton.mpr (allStep_findStep (hv w rfl) hst)

theorem all_formatSteps {v : Option Arg} (h : formatSteps v = .ok c) : All F C c := by
  unfold formatSteps at h
  split at h
  · obtain rfl := Except.ok.inj h
    exact all_nil
  · obtain rfl := Except.ok.inj h
    exact all_singleton.mpr trivial
  · cases h

theorem all_eachSteps {v : Option Arg} (hv : ∀ w ∈ v, Value.All F C w)
    (h : eachSteps v = .ok c) : All F C c := by
  unfold eachSteps at h
  split at h
  · obtain rfl := Except.ok.inj h
    exact all_nil
  · split at h
    · cases h
    · obtain rfl := Except.ok.inj h
      exact all_singleton.mpr (Step.allStep_ofKind _ (hv _ rfl))

theorem all_ofOptions {es : List (Arg × Arg)} (hes : ∀ e ∈ es, e.2.All F C)
    (h : ofOptions es = .ok c) : All F C c := by
  obtain ⟨unknown, -, h⟩ := exists_of_bind_eq_ok h
  split at h
  · cases h
  · obtain ⟨find, hfind, h⟩ := exists_of_bind_eq_ok h
    obtain ⟨format, hformat, h⟩ := exists_of_bind_eq_ok h
    obtain ⟨each, heach, h⟩ := exists_of_bind_eq_ok h
    obtain rfl := Except.ok.inj h
    simp only [all_append]
    exact ⟨⟨all_findSteps (all_given? hes _) hfind, all_formatSteps hformat⟩,
      all_eachSteps (all_given? hes _) heach⟩

mutual

theorem all_build (s' : Store) :
    ∀ (v : Arg) {c : Chain}, v.All F C → build s' v = .ok c → All F C c
  | .null, _, _, h => by
    obtain rfl := Except.ok.inj h
    exact all_nil
  | .chain d, _, hd, h => by
    obtain rfl := Except.ok.inj h
    exact (Value.all_chain d).mp hd
  | .step st, _, hst, h => by
    obtain rfl := Except.ok.inj h
    exact all_singleton.mpr hst
  | .callback f, _, hf, h => by
    obtain rfl := Except.ok.inj h
    exact all_singleton.mpr hf
  | .table es, _, hes, h =>
    all_ofOptions (fun e he => ((Value.all_table es).mp hes e he).2) h
  | .list xs, _, hxs, h => all_buildAll s' xs ((Value.all_list xs).mp hxs) h
  | .tuple xs, _, hxs, h => all_buildAll s' xs ((Value.all_tuple xs).mp hxs) h
  | .bool _, _, _, h | .int _, _, _, h | .real _, _, _, h | .text _, _, _, h
  | .bytes _, _, _, h | .subfield _, _, _, h | .field _, _, _, h | .record _, _, _, h
  | .locator _, _, _, h | .selector _, _, _, h | .error _, _, _, h | .failure .., _, _, h
  | .pattern _, _, _, h | .operation _, _, _, h => by cases h

theorem all_buildAll (s' : Store) :
    ∀ (xs : List Arg) {c : Chain}, (∀ x ∈ xs, Value.All F C x) → buildAll s' xs = .ok c →
      All F C c
  | [], _, _, h => by
    obtain rfl := Except.ok.inj h
    exact all_nil
  | x :: xs, _, hxs, h => by
    obtain ⟨d, hd, h⟩ := exists_of_bind_eq_ok h
    obtain ⟨e, he, h⟩ := exists_of_bind_eq_ok h
    obtain rfl := Except.ok.inj h
    exact all_append.mpr ⟨all_build s' x (hxs x (by simp)) hd,
      all_buildAll s' xs (fun y hy => hxs y (by simp [hy])) he⟩

end

theorem runs_ofArg {v : Arg} (hv : v.IsIn growth s) :
    (ofArg v).Runs growth s fun c t => IsIn growth t c :=
  runs_get_bind fun _ => runs_ofExcept fun _ h => all_build s v hv h

end Chain

end Biblio
