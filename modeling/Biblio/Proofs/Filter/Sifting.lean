import Biblio.Proofs.Query.Quiet
import Biblio.Proofs.Run.Filter

/-!
# Sifting

A chain sifts a list of values by taking them up one after the other: some it keeps, possibly
replaced by others, and the rest it drops. `Sifts` relates the values to what is kept of them
and to the stores where this starts and ends. It has no step for a value on which the chain
fails, so that a list is sifted if the chain fails on none of its values.

Asking for all values sifts the list, up to the first value on which the chain fails. Asking
for the first one sifts the values in front of it, all of which are dropped, and never gets to
the values behind it.
-/

namespace Biblio

open Biblio.Action

/-- The values that a flag looks at of those that are left: the first one alone for `?`, and
all of them otherwise. -/
def Query.lookedAt (k : Option Flag) (left : List String) : List String :=
  if k = some .optional then left.take 1 else left

namespace Chain

/-- Whether a chain keeps these of certain values, which it takes up one after the other. -/
inductive Sifts (c : Chain) : Store → List String → List String → Store → Prop
  | nil (s : Store) : Sifts c s [] [] s
  | keep {s t u : Store} {v w : String} {vs ws : List String}
    (hv : (c.apply v).exec s = (.ok (some w), t)) (hvs : Sifts c t vs ws u) :
    Sifts c s (v :: vs) (w :: ws) u
  | drop {s t u : Store} {v : String} {vs ws : List String}
    (hv : (c.apply v).exec s = (.ok none, t)) (hvs : Sifts c t vs ws u) :
    Sifts c s (v :: vs) ws u

variable {c : Chain} {s t u : Store} {v : String} {vs ws : List String} {growth : Prop}
  {k : Option Flag}

/-! ## All values -/

theorem exec_applyAll_eq_ok_iff :
    (c.applyAll vs).exec s = (.ok ws, t) ↔ c.Sifts s vs ws t := by
  constructor
  · intro h
    induction vs generalizing s ws with
    | nil =>
        obtain ⟨rfl, rfl⟩ := exec_pure_eq_ok h
        exact .nil s
    | cons v vs ih =>
        obtain ⟨w, u, hv, h⟩ := exec_bind_eq_ok h
        cases w with
        | none => exact .drop hv (ih h)
        | some w =>
            obtain ⟨xs, u', hvs, h⟩ := exec_bind_eq_ok h
            obtain ⟨rfl, rfl⟩ := exec_pure_eq_ok h
            exact .keep hv (ih hvs)
  · intro h
    induction h with
    | nil s => rfl
    | keep hv _ ih =>
        rw [applyAll, exec_bind_of_eq hv]
        dsimp only
        rw [exec_bind_of_eq ih, exec_pure]
    | drop hv _ ih =>
        rw [applyAll, exec_bind_of_eq hv]
        exact ih

/-- Asking for all values fails on the first value on which the chain fails, behind values
that it sifts. -/
theorem exists_of_exec_applyAll_eq_error {e : Fault}
    (h : (c.applyAll vs).exec s = (.error e, t)) :
    ∃ front v behind ws u, vs = front ++ v :: behind ∧ c.Sifts s front ws u ∧
      (c.apply v).exec u = (.error e, t) := by
  induction vs generalizing s with
  | nil => cases h
  | cons v vs ih =>
      rw [applyAll, exec_bind] at h
      rcases hv : (c.apply v).exec s with ⟨e' | w, u⟩
      · rw [hv] at h
        obtain ⟨he, rfl⟩ := Prod.mk.inj h
        obtain rfl := Except.error.inj he
        exact ⟨[], v, vs, [], s, rfl, .nil s, hv⟩
      · rw [hv] at h
        dsimp only at h
        cases w with
        | none =>
            obtain ⟨front, x, behind, ws, u', rfl, hfront, hx⟩ := ih h
            exact ⟨v :: front, x, behind, ws, u', rfl, .drop hv hfront, hx⟩
        | some w =>
            dsimp only at h
            rw [exec_bind] at h
            rcases hvs : (c.applyAll vs).exec u with ⟨e' | xs, u'⟩
            · rw [hvs] at h
              obtain ⟨he, rfl⟩ := Prod.mk.inj h
              obtain rfl := Except.error.inj he
              obtain ⟨front, x, behind, ws, u'', rfl, hfront, hx⟩ := ih hvs
              exact ⟨v :: front, x, behind, w :: ws, u'', rfl, .keep hv hfront, hx⟩
            · rw [hvs] at h
              cases h

/-! ## The first value -/

/-- Values that are dropped make no difference to which value is the first. -/
theorem Sifts.exec_firstKept_append (h : c.Sifts s vs [] t) (behind : List String) :
    (c.firstKept (vs ++ behind)).exec s = (c.firstKept behind).exec t := by
  generalize hws : ([] : List String) = ws at h
  induction h with
  | nil => rfl
  | keep => cases hws
  | drop hv _ ih =>
      rw [List.cons_append, firstKept, exec_bind_of_eq hv]
      exact ih hws

/-- The first value that is not dropped decides, be it kept or one on which the chain
fails. -/
theorem exec_firstKept_eq_iff {x : Except Fault (Option String)} (hx : x ≠ .ok none) :
    (c.firstKept vs).exec s = (x, t) ↔
      ∃ front v behind u, vs = front ++ v :: behind ∧ c.Sifts s front [] u ∧
        (c.apply v).exec u = (x, t) := by
  constructor
  · intro h
    induction vs generalizing s with
    | nil => exact absurd (Prod.mk.inj h).1.symm hx
    | cons v vs ih =>
        rw [firstKept, exec_bind] at h
        rcases hv : (c.apply v).exec s with ⟨e | w, u⟩
        · rw [hv] at h
          exact ⟨[], v, vs, s, rfl, .nil s, hv.trans h⟩
        · rw [hv] at h
          cases w with
          | none =>
              obtain ⟨front, y, behind, u', rfl, hfront, hy⟩ := ih h
              exact ⟨v :: front, y, behind, u', rfl, .drop hv hfront, hy⟩
          | some w => exact ⟨[], v, vs, s, rfl, .nil s, hv.trans h⟩
  · rintro ⟨front, v, behind, u, rfl, hfront, hv⟩
    rw [hfront.exec_firstKept_append, firstKept, exec_bind, hv]
    cases x with
    | error e => rfl
    | ok w =>
        cases w with
        | none => exact absurd rfl hx
        | some w => rfl

/-- There is no first value if all are dropped, and only then. -/
theorem exec_firstKept_eq_none_iff :
    (c.firstKept vs).exec s = (.ok none, t) ↔ c.Sifts s vs [] t := by
  constructor
  · intro h
    induction vs generalizing s with
    | nil =>
        obtain ⟨-, rfl⟩ := exec_pure_eq_ok h
        exact .nil s
    | cons v vs ih =>
        obtain ⟨w, u, hv, h⟩ := exec_bind_eq_ok h
        cases w with
        | none => exact .drop hv (ih h)
        | some w => cases h
  · intro h
    have hnil := h.exec_firstKept_append []
    rwa [List.append_nil] at hnil

/-- A value that is kept is the first one whatever stands behind it. -/
theorem Sifts.exists_exec_firstKept_append {w : String} (h : c.Sifts s vs (w :: ws) t)
    (behind : List String) : ∃ u, (c.firstKept (vs ++ behind)).exec s = (.ok (some w), u) := by
  generalize hws : w :: ws = xs at h
  induction h with
  | nil => cases hws
  | keep hv _ _ =>
      obtain ⟨rfl, -⟩ := List.cons.inj hws
      rw [List.cons_append, firstKept, exec_bind_of_eq hv]
      exact ⟨_, rfl⟩
  | drop hv _ ih =>
      rw [List.cons_append, firstKept, exec_bind_of_eq hv]
      exact ih hws

/-- Of values that are sifted the first one is the head of those that are kept. -/
theorem Sifts.exists_exec_firstKept (h : c.Sifts s vs ws t) :
    ∃ u, (c.firstKept vs).exec s = (.ok ws.head?, u) := by
  cases ws with
  | nil => exact ⟨t, exec_firstKept_eq_none_iff.mpr h⟩
  | cons w ws =>
      have hkept := h.exists_exec_firstKept_append []
      rwa [List.append_nil] at hkept

/-! ## What is kept -/

/-- A value that is not empty is replaced by such values only. -/
theorem ne_empty_of_exec_apply {w : String} (h : (c.apply v).exec s = (.ok (some w), t))
    (hv : v ≠ "") : w ≠ "" := by
  induction c generalizing s v with
  | nil =>
      obtain ⟨hw, -⟩ := exec_pure_eq_ok h
      rwa [← Option.some.inj hw]
  | cons st c ih =>
      obtain ⟨x, u, -, h⟩ := exec_bind_eq_ok h
      cases hx : (Verdict.ofDatum x).apply v with
      | none =>
          rw [hx] at h
          cases h
      | some y =>
          rw [hx] at h
          refine ih h ?_
          -- Only a text that is not empty takes the place of a value.
          unfold Verdict.ofDatum at hx
          split at hx
          · split at hx
            · cases hx
            · next hne => rwa [← Option.some.inj hx]
          · rwa [← Option.some.inj hx]
          · cases hx

theorem Sifts.ne_empty (h : c.Sifts s vs ws t) (hvs : ∀ v ∈ vs, v ≠ "") :
    ∀ w ∈ ws, w ≠ "" := by
  induction h with
  | nil => simp
  | keep hv _ ih =>
      rw [List.forall_mem_cons] at hvs ⊢
      exact ⟨ne_empty_of_exec_apply hv hvs.1, ih hvs.2⟩
  | drop _ _ ih => exact ih (List.forall_mem_cons.mp hvs).2

/-! ## Chains that act by steps -/

theorem leads_of_exec_apply {w : Option String} (hc : IsIn growth s c) (hs : s.IsIndexed)
    (h : (c.apply v).exec s = (.ok w, t)) : s.Leads growth t :=
  ((steps_apply hc v).of_exec_eq_ok hs h).1

theorem Sifts.leads (h : c.Sifts s vs ws t) (hc : IsIn growth s c) (hs : s.IsIndexed) :
    s.Leads growth t := by
  induction h with
  | nil s => exact .refl s
  | keep hv _ ih | drop hv _ ih =>
      have hst := leads_of_exec_apply hc hs hv
      exact hst.trans (ih (hc.mono hst) (hs.mono hst))

/-- A list is sifted if the chain fails on none of its values, whenever it gets to them. -/
theorem exists_sifts (hc : IsIn growth s c) (hs : s.IsIndexed)
    (hsafe : ∀ u, s.Leads growth u → ∀ v ∈ vs, ∀ e u', (c.apply v).exec u ≠ (.error e, u')) :
    ∃ ws t, c.Sifts s vs ws t := by
  induction vs generalizing s with
  | nil => exact ⟨[], s, .nil s⟩
  | cons v vs ih =>
      rcases hv : (c.apply v).exec s with ⟨e | w, t⟩
      · exact absurd hv (hsafe s (.refl s) v (by simp) e t)
      · have hst := leads_of_exec_apply hc hs hv
        obtain ⟨ws, u, hvs⟩ := ih (hc.mono hst) (hs.mono hst) fun u htu x hx =>
          hsafe u (hst.trans htu) x (by simp [hx])
        cases w with
        | none => exact ⟨ws, u, .drop hv hvs⟩
        | some w => exact ⟨w :: ws, u, .keep hv hvs⟩

/-! ## Flags -/

/-- What a chain leaves of values if a flag asks for them. The flag `?` asks up to the first
value that is kept. -/
inductive Leaves (c : Chain) (k : Option Flag) (vs : List String) (s : Store) :
    List String → Store → Prop
  | all {left : List String} {t : Store} (hk : k ≠ some .optional) (h : c.Sifts s vs left t) :
    Leaves c k vs s left t
  | first {front behind : List String} {v w : String} {t u : Store} (hk : k = some .optional)
    (hsplit : vs = front ++ v :: behind) (hfront : c.Sifts s front [] u)
    (hv : (c.apply v).exec u = (.ok (some w), t)) : Leaves c k vs s [w] t
  | none {t : Store} (hk : k = some .optional) (h : c.Sifts s vs [] t) : Leaves c k vs s [] t

theorem exec_firstKept_eq_ok_iff {w : Option String} :
    (c.firstKept vs).exec s = (.ok w, t) ↔ c.Leaves (some .optional) vs s w.toList t := by
  cases w with
  | none =>
      rw [exec_firstKept_eq_none_iff]
      constructor
      · exact .none rfl
      · intro h
        cases h with
        | all hk => exact absurd rfl hk
        | none _ h => exact h
  | some w =>
      rw [exec_firstKept_eq_iff (by simp)]
      constructor
      · rintro ⟨front, v, behind, u, hsplit, hfront, hv⟩
        exact .first rfl hsplit hfront hv
      · intro h
        generalize hw : (some w).toList = ws at h
        cases h with
        | all hk => exact absurd rfl hk
        | first _ hsplit hfront hv =>
            obtain ⟨rfl, -⟩ := List.cons.inj hw
            exact ⟨_, _, _, _, hsplit, hfront, hv⟩
        | none => cases hw

/-- The flag looks at all values that are left. -/
theorem Leaves.lookedAt_eq (h : c.Leaves k vs s ws t) : Query.lookedAt k ws = ws := by
  cases h with
  | all hk => exact if_neg hk
  | first hk => exact if_pos hk
  | none hk => exact if_pos hk

theorem Leaves.leads (h : c.Leaves k vs s ws t) (hc : IsIn growth s c) (hs : s.IsIndexed) :
    s.Leads growth t := by
  cases h with
  | all _ h | none _ h => exact h.leads hc hs
  | first _ _ hfront hv =>
      have hu := hfront.leads hc hs
      exact hu.trans (leads_of_exec_apply (hc.mono hu) (hs.mono hu) hv)

theorem Leaves.ne_empty (h : c.Leaves k vs s ws t) (hvs : ∀ v ∈ vs, v ≠ "") :
    ∀ w ∈ ws, w ≠ "" := by
  cases h with
  | all _ h | none _ h => exact h.ne_empty hvs
  | first _ hsplit _ hv =>
      simp only [List.mem_singleton, forall_eq]
      exact ne_empty_of_exec_apply hv (hvs _ (by simp [hsplit]))

/-- Of values that are sifted those are left that the flag looks at. -/
theorem Sifts.exists_leaves (h : c.Sifts s vs ws t) (k : Option Flag) :
    ∃ u, c.Leaves k vs s (Query.lookedAt k ws) u ∧ (k ≠ some .optional → u = t) := by
  by_cases hk : k = some .optional
  · subst hk
    obtain ⟨u, hfirst⟩ := h.exists_exec_firstKept
    have hhead : Query.lookedAt (some .optional) ws = ws.head?.toList := by
      cases ws <;> rfl
    rw [hhead]
    exact ⟨u, exec_firstKept_eq_ok_iff.mp hfirst, fun hne => absurd rfl hne⟩
  · rw [Query.lookedAt, if_neg hk]
    exact ⟨t, .all hk h, fun _ => rfl⟩

end Chain

end Biblio
