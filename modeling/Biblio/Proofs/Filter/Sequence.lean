import Biblio.Proofs.Query.Deterministic
import Biblio.Request.Composition
import Mathlib.Data.List.ReduceOption

/-!
# Chains in sequence

A chain that goes on as another one treats a value as the two do in turn: what the first one
keeps is put to the second one, what it drops stays dropped, and a fault of it ends
everything. For lists of values the two orders of work, all values through one chain after
the other or one value after the other through both, come to the same if no step fails and
what the steps make of a value does not depend on when they are asked.
-/

namespace Biblio

open Biblio.Action

/-! ## Actions whose value is settled -/

namespace Action

variable {α β : Type} {P : Store → Prop} {a : Action α} {f : α → Action β} {x : α} {y : β}

/-- Whether an action gives a value in all stores of a kind and ends in a store of that
kind. -/
def Yields (P : Store → Prop) (a : Action α) (x : α) : Prop :=
  ∀ s, P s → ∃ t, a.exec s = (.ok x, t) ∧ P t

/-- Whether an action never fails and always gives the same, as long as the store is of a
kind, and leaves it so. -/
def Settled (P : Store → Prop) (a : Action α) : Prop :=
  ∃ x, a.Yields P x

theorem yields_pure (x : α) : (pure x : Action α).Yields P x :=
  fun s hs => ⟨s, rfl, hs⟩

theorem Yields.bind (ha : a.Yields P x) (hf : (f x).Yields P y) : (a >>= f).Yields P y := by
  intro s hs
  obtain ⟨t, hrun, ht⟩ := ha s hs
  rw [exec_bind_of_eq hrun]
  exact hf t ht

/-- An action that is determined gives in all stores what it gives in one. -/
theorem Determined.yields {s t u : Store} (h : Determined s a) (hst : s.Leads False t)
    (hrun : a.exec t = (.ok x, u)) : a.Yields (s.Leads False) x := by
  intro v hv
  have hends := h t v hst hv
  rw [Agrees, hrun] at hends
  generalize hend : a.exec v = e at hends
  cases hends with
  | value _ hw hxy => exact ⟨_, by rw [hxy], hv.trans hw⟩

end Action

namespace Chain

variable {c d : Chain} {s t : Store}

/-! ## One value -/

def applyNext (d : Chain) : Option String → Action (Option String)
  | none => return none
  | some v => d.apply v

theorem apply_append (c d : Chain) (v : String) :
    (c ++ d).apply v = c.apply v >>= d.applyNext := by
  induction c generalizing v with
  | nil => rfl
  | cons st c ih =>
      rw [List.cons_append, apply, apply, bind_assoc]
      congr 1
      funext x
      cases (Verdict.ofDatum x).apply v with
      | none => rfl
      | some w => exact ih w

/-- A chain fails as the first step does that fails on what the steps in front of it have made
of the value. -/
theorem exec_apply_eq_error_iff {v : String} {e : Fault} :
    (c.apply v).exec s = (.error e, t) ↔
      ∃ (front behind : Chain) (st : Step Callback) (w : String) (u : Store),
        c = front ++ st :: behind ∧ (front.apply v).exec s = (.ok (some w), u) ∧
        (st.call (.text w)).exec u = (.error e, t) := by
  constructor
  · intro h
    induction c generalizing v s with
    | nil => cases h
    | cons st c ih =>
        rw [apply, exec_bind] at h
        rcases hst : (st.call (.text v)).exec s with ⟨e' | x, u⟩
        · rw [hst] at h
          cases h
          exact ⟨[], c, st, v, s, rfl, rfl, hst⟩
        · rw [hst] at h
          dsimp only at h
          cases hx : (Verdict.ofDatum x).apply v with
          | none =>
              rw [hx] at h
              cases h
          | some w =>
              rw [hx] at h
              obtain ⟨front, behind, st', w', u', rfl, hfront, hlast⟩ := ih h
              refine ⟨st :: front, behind, st', w', u', rfl, ?_, hlast⟩
              rw [apply, exec_bind_of_eq hst, hx]
              exact hfront
  · rintro ⟨front, behind, st, w, u, rfl, hfront, hlast⟩
    rw [apply_append, exec_bind_of_eq hfront, applyNext, apply, exec_bind, hlast]

/-! ## Lists of values -/

theorem applyAll_cons (c : Chain) (v : String) (vs : List String) :
    c.applyAll (v :: vs) = do
      let w ← c.apply v
      return w.toList ++ (← c.applyAll vs) := by
  rw [applyAll]
  congr 1
  funext w
  cases w with
  | none => simp
  | some w => simp

/-- The values that are kept, in order. -/
theorem applyAll_eq_mapM (c : Chain) (vs : List String) :
    c.applyAll vs = List.reduceOption <$> vs.mapM c.apply := by
  induction vs with
  | nil => rfl
  | cons v vs ih =>
      rw [applyAll_cons, ih, List.mapM_cons]
      simp only [map_bind, bind_map_left, map_pure]
      congr 1
      funext w
      congr 1
      funext ws
      cases w <;> simp

/-- The empty chain keeps everything. -/
theorem applyAll_empty (vs : List String) : applyAll [] vs = pure vs := by
  induction vs with
  | nil => rfl
  | cons v vs ih =>
      rw [applyAll_cons, ih]
      rfl

variable {P : Store → Prop} {vs ws : List String}

theorem yields_applyAll_cons {v : String} {w : Option String} (hv : (c.apply v).Yields P w)
    (hvs : (c.applyAll vs).Yields P ws) :
    (c.applyAll (v :: vs)).Yields P (w.toList ++ ws) := by
  rw [applyAll_cons]
  exact hv.bind (hvs.bind (yields_pure _))

/-- All values through one chain and what it keeps through the other, or each value through
both: if what the chains make of single values is settled, it comes to the same. -/
theorem yields_applyAll_append (hc : ∀ v ∈ vs, (c.apply v).Settled P)
    (hd : ∀ v ∈ vs, ∀ w, (c.apply v).Yields P (some w) → (d.apply w).Settled P) :
    ∃ ws xs, (c.applyAll vs).Yields P ws ∧ (d.applyAll ws).Yields P xs ∧
      ((c ++ d).applyAll vs).Yields P xs := by
  induction vs with
  | nil => exact ⟨[], [], yields_pure [], yields_pure [], yields_pure []⟩
  | cons v vs ih =>
      rw [List.forall_mem_cons] at hc hd
      obtain ⟨ws, xs, hws, hxs, hboth⟩ := ih hc.2 hd.2
      obtain ⟨w, hw⟩ := hc.1
      cases w with
      | none =>
          have hv : ((c ++ d).apply v).Yields P none := by
            rw [apply_append]
            exact hw.bind (yields_pure none)
          exact ⟨ws, xs, yields_applyAll_cons hw hws, hxs, yields_applyAll_cons hv hboth⟩
      | some w =>
          obtain ⟨x, hx⟩ := hd.1 w hw
          have hv : ((c ++ d).apply v).Yields P x := by
            rw [apply_append]
            exact hw.bind hx
          exact ⟨w :: ws, x.toList ++ xs, yields_applyAll_cons hw hws,
            yields_applyAll_cons hx hxs, yields_applyAll_cons hv hboth⟩

/-- If the steps judge texts by what the texts are, it is enough that none fails. -/
theorem exec_applyAll_append (hsteps : ∀ st ∈ c ++ d, Callback.JudgesTexts s st.call)
    (hruns : ∀ v ∈ vs, ∃ w t, ((c ++ d).apply v).exec s = (.ok w, t)) :
    ∃ ws xs t u u', (c.applyAll vs).exec s = (.ok ws, t) ∧
      (d.applyAll ws).exec t = (.ok xs, u) ∧ ((c ++ d).applyAll vs).exec s = (.ok xs, u') := by
  have hc := determined_apply fun st hst => hsteps st (List.mem_append_left d hst)
  have hd := determined_apply fun st hst => hsteps st (List.mem_append_right c hst)
  have hself : s.Leads False s := .refl s
  have hbefore : ∀ v ∈ vs, (c.apply v).Settled (s.Leads False) := by
    intro v hv
    obtain ⟨w, t, hrun⟩ := hruns v hv
    rw [apply_append] at hrun
    obtain ⟨x, u, hx, -⟩ := exec_bind_eq_ok hrun
    exact ⟨x, (hc v).yields hself hx⟩
  have hbehind : ∀ v ∈ vs, ∀ w, (c.apply v).Yields (s.Leads False) (some w) →
      (d.apply w).Settled (s.Leads False) := by
    intro v hv w hw
    obtain ⟨x, t, hrun⟩ := hruns v hv
    obtain ⟨u, hfirst, hsu⟩ := hw s hself
    rw [apply_append, exec_bind_of_eq hfirst] at hrun
    exact ⟨x, (hd w).yields hsu hrun⟩
  obtain ⟨ws, xs, hws, hxs, hboth⟩ := yields_applyAll_append hbefore hbehind
  obtain ⟨t, hfirst, ht⟩ := hws s hself
  obtain ⟨u, hsecond, -⟩ := hxs t ht
  obtain ⟨u', htogether, -⟩ := hboth s hself
  exact ⟨ws, xs, t, u, u', hfirst, hsecond, htogether⟩

/-! ## Two chains as one -/

/-- What a chain that goes on as another one does, and how it is made. -/
structure GoesOnAs (c d : Chain) : Prop where
  added : ∀ s, (Composition.extended [c, d] ⟨0, .own 1⟩).exec s = (.ok (c ++ d), s)
  assoc : ∀ e : Chain, c ++ d ++ e = c ++ (d ++ e)
  unit : [] ++ c = c ∧ c ++ [] = c
  kept : ∀ v s w t, (c.apply v).exec s = (.ok (some w), t) →
    ((c ++ d).apply v).exec s = (d.apply w).exec t
  dropped : ∀ v s t, (c.apply v).exec s = (.ok none, t) →
    ((c ++ d).apply v).exec s = (.ok none, t)
  failed : ∀ v s e t, ((c ++ d).apply v).exec s = (.error e, t) ↔
    ∃ (front behind : Chain) (st : Step Callback) (w : String) (u : Store),
      c ++ d = front ++ st :: behind ∧ (front.apply v).exec s = (.ok (some w), u) ∧
      (st.call (.text w)).exec u = (.error e, t)
  applyAll_eq : ∀ vs, c.applyAll vs = List.reduceOption <$> vs.mapM c.apply
  applyAll_empty : ∀ vs, applyAll [] vs = pure vs
  /-- What is settled for single values, for stores of any kind, is settled for lists. -/
  settled : ∀ (P : Store → Prop) vs, (∀ v ∈ vs, (c.apply v).Settled P) →
    (∀ v ∈ vs, ∀ w, (c.apply v).Yields P (some w) → (d.apply w).Settled P) →
    ∃ ws xs, (c.applyAll vs).Yields P ws ∧ (d.applyAll ws).Yields P xs ∧
      ((c ++ d).applyAll vs).Yields P xs
  /-- The same where steps judge texts by what the texts are, if none of them fails. -/
  inTurn : ∀ s vs, (∀ st ∈ c ++ d, Callback.JudgesTexts s st.call) →
    (∀ v ∈ vs, ∃ w t, ((c ++ d).apply v).exec s = (.ok w, t)) →
    ∃ ws xs t u u', (c.applyAll vs).exec s = (.ok ws, t) ∧
      (d.applyAll ws).exec t = (.ok xs, u) ∧ ((c ++ d).applyAll vs).exec s = (.ok xs, u')

theorem goesOnAs (c d : Chain) : c.GoesOnAs d where
  added := fun _ => rfl
  assoc := List.append_assoc c d
  unit := ⟨List.nil_append c, List.append_nil c⟩
  kept := fun v s w t h => by rw [apply_append, exec_bind_of_eq h, applyNext]
  dropped := fun v s t h => by rw [apply_append, exec_bind_of_eq h, applyNext, exec_pure]
  failed := fun _ _ _ _ => exec_apply_eq_error_iff
  applyAll_eq := c.applyAll_eq_mapM
  applyAll_empty := Chain.applyAll_empty
  settled := fun _ _ => yields_applyAll_append
  inTurn := fun _ _ => exec_applyAll_append

end Chain

end Biblio
