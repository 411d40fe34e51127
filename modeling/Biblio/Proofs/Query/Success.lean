import Biblio.Filter
import Biblio.Proofs.Store.Success

/-!
# Queries that succeed

Conditions and steps serve if they give an answer whenever they are asked about a field or a
text. A query with such conditions and steps succeeds, whatever the record holds: no field may
match, or many; fields may be without tag and values may be missing. It takes a selector in
each alternative of a plan for values, as any plan has that was read.
-/

namespace Biblio

open Biblio.Action

variable {x : References} {s t : Store}

/-! ## Callbacks -/

/-- Whether a callback gives an answer for each text, now and later, and spares certain
objects. -/
def Callback.ServesTexts (x : References) (s : Store) (c : Callback) : Prop :=
  ∀ t, s.LeadsSparing x t → ∀ y : String, (c (.text y)).Succeeds x t fun _ _ => True

def Callback.ServesFields (x : References) (s : Store) (c : Callback) : Prop :=
  ∀ t, s.LeadsSparing x t → ∀ f, t.HasField f → (c (.field f)).Succeeds x t fun _ _ => True

namespace Query

def Predicate.Serves (x : References) (s : Store) (p : Predicate) : Prop :=
  ∀ t, s.LeadsSparing x t → ∀ f, t.HasField f → (p f).Succeeds x t fun _ _ => True

structure Sieve.Serves (x : References) (s : Store) (v : Sieve) : Prop where
  all : ∀ t, s.LeadsSparing x t → ∀ vs, (v.all vs).Succeeds x t fun _ _ => True
  first : ∀ t, s.LeadsSparing x t → ∀ vs, (v.first vs).Succeeds x t fun _ _ => True

theorem Predicate.Serves.mono {p : Predicate} (h : p.Serves x s) (hst : s.LeadsSparing x t) :
    p.Serves x t :=
  fun u htu => h u (hst.trans htu)

theorem Sieve.Serves.mono {v : Sieve} (h : v.Serves x s) (hst : s.LeadsSparing x t) :
    v.Serves x t :=
  ⟨fun u htu => h.all u (hst.trans htu), fun u htu => h.first u (hst.trans htu)⟩

theorem serves_pass : Sieve.pass.Serves x s :=
  ⟨fun _ _ _ => succeeds_pure trivial, fun _ _ _ => succeeds_pure trivial⟩

variable {ps : List Predicate} {v : Sieve}

/-! ## Fields -/

theorem succeeds_satisfies (hps : ∀ p ∈ ps, p.Serves x s) {f : FieldRef} (hf : s.HasField f) :
    (satisfies ps f).Succeeds x s fun _ _ => True := by
  induction ps generalizing s with
  | nil => exact succeeds_pure trivial
  | cons p ps ih =>
      refine (hps p (by simp) s (.refl x s) f hf).bind fun b t hst _ => ?_
      cases b with
      | false => exact succeeds_pure trivial
      | true => exact ih (fun q hq => (hps q (by simp [hq])).mono hst) (hf.mono hst.leads)

theorem succeeds_keepFields (hps : ∀ p ∈ ps, p.Serves x s) {fs : List FieldRef}
    (hfs : ∀ f ∈ fs, s.HasField f) :
    (keepFields ps fs).Succeeds x s fun gs t => ∀ g ∈ gs, t.HasField g := by
  induction fs generalizing s with
  | nil => exact succeeds_pure (by simp)
  | cons f fs ih =>
      have hf := hfs f (by simp)
      refine (succeeds_satisfies hps hf).bind fun b t hst _ => ?_
      have hrest := ih (fun p hp => (hps p hp).mono hst)
        fun g hg => (hfs g (by simp [hg])).mono hst.leads
      cases b with
      | false => exact hrest
      | true =>
          refine hrest.bind fun gs u htu hgs => succeeds_pure ?_
          simpa [(hf.mono hst.leads).mono htu.leads] using hgs

theorem succeeds_firstField (hps : ∀ p ∈ ps, p.Serves x s) {fs : List FieldRef}
    (hfs : ∀ f ∈ fs, s.HasField f) :
    (firstField ps fs).Succeeds x s fun g t => ∀ f ∈ g, t.HasField f := by
  induction fs generalizing s with
  | nil => exact succeeds_pure (by simp)
  | cons f fs ih =>
      have hf := hfs f (by simp)
      refine (succeeds_satisfies hps hf).bind fun b t hst _ => ?_
      cases b with
      | false =>
          exact ih (fun p hp => (hps p hp).mono hst)
            fun g hg => (hfs g (by simp [hg])).mono hst.leads
      | true => exact succeeds_pure (by simpa using hf.mono hst.leads)

/-! ## Values -/

/-- The cardinality of a selector is no matter of faults: an error is part of the answer. -/
theorem succeeds_queryField (hv : v.Serves x s) (f : Field) (sel : Selector) :
    (queryField f sel v).Succeeds x s fun _ _ => True := by
  rw [queryField]
  cases sel.code with
  | none => exact (hv.all s (.refl x s) _).bind fun _ _ _ _ => succeeds_pure trivial
  | some code =>
      dsimp only
      split
      · have hfirst := (hv.first s (.refl x s) (f.valuesFor code)).map (h := Option.toList)
          (Q := fun _ _ => True) fun _ _ _ => trivial
        exact hfirst.bind fun _ _ _ _ => succeeds_pure trivial
      · exact (hv.all s (.refl x s) _).bind fun _ _ _ _ => succeeds_pure trivial

theorem succeeds_selectorOf {a : Alternative} (ha : a.subfield ≠ none) (part : String) :
    (selectorOf part a).Succeeds x s fun _ _ => True :=
  ⟨_, s, exec_selectorOf ha part, .refl x s, trivial⟩

theorem succeeds_collectValues (hv : v.Serves x s) {ms : List Match}
    (hms : ∀ m ∈ ms, m.1.subfield ≠ none) :
    (collectValues v ms).Succeeds x s fun _ _ => True := by
  induction ms generalizing s with
  | nil => exact succeeds_pure trivial
  | cons m ms ih =>
      refine succeeds_field_bind ?_
      refine (succeeds_selectorOf (hms m (by simp)) "code").bind fun sel t hst _ => ?_
      refine (succeeds_queryField (hv.mono hst) _ sel).bind fun _ u htu _ => ?_
      have hrest := ih (hv.mono (hst.trans htu)) fun m hm => hms m (by simp [hm])
      exact hrest.bind fun _ _ _ _ => succeeds_pure trivial

/-- The store `s'` is that in which the alternatives were looked up. -/
theorem succeeds_firstValue (hv : v.Serves x s) (s' : Store) (lookup : Lookup)
    {as : List Alternative} (has : ∀ a ∈ as, a.subfield ≠ none) :
    (firstValue s' lookup v as).Succeeds x s fun _ _ => True := by
  induction as generalizing s with
  | nil => exact succeeds_pure trivial
  | cons a as ih =>
      refine (succeeds_selectorOf (has a (by simp)) "with_default").bind fun sel t hst _ => ?_
      dsimp only
      cases (lookup a.tag).find? (accepts s' a) with
      | none => exact ih (hv.mono hst) fun b hb => has b (by simp [hb])
      | some f =>
          refine succeeds_field_bind ?_
          refine (succeeds_queryField (hv.mono hst) _ _).bind fun _ _ _ _ => ?_
          exact succeeds_pure trivial

/-! ## Cardinality -/

theorem subfield_ne_none_of_mem_matching (s : Store) (lookup : Lookup) {as : List Alternative}
    (has : ∀ a ∈ as, a.subfield ≠ none) : ∀ m ∈ matching s lookup as, m.1.subfield ≠ none := by
  intro m hm
  simp only [matching, List.mem_flatMap, List.mem_map] at hm
  obtain ⟨a, ha, f, -, rfl⟩ := hm
  exact has a ha

theorem succeeds_evaluateFields (hps : ∀ p ∈ ps, p.Serves x s) (hs : s.IsIndexed) (r : RecordRef)
    (l : Locator) :
    (evaluateFields s (s.record r).lookup l ps).Succeeds x s fun answer t =>
      ∀ f ∈ answer.outcome.toList, t.HasField f := by
  have hfound : ∀ f ∈ (matching s (s.record r).lookup l.alternatives).map Prod.snd,
      s.HasField f := fun f => hasField_of_mem_matching hs
  rw [evaluateFields]
  split
  · refine (succeeds_firstField hps hfound).bind fun g t _ hg => succeeds_pure fun f hf => ?_
    exact hg f (Option.mem_toList.mp hf)
  · refine (succeeds_keepFields hps hfound).bind fun fs t _ hfs => succeeds_pure fun f hf => ?_
    exact hfs f (toList_settle_subset _ _ _ _ _ f hf)

theorem succeeds_evaluateValues (hv : v.Serves x s) (s' : Store) (lookup : Lookup) {l : Locator}
    (hl : ∀ a ∈ l.alternatives, a.subfield ≠ none) :
    (evaluateValues s' lookup l v).Succeeds x s fun _ _ => True := by
  rw [evaluateValues]
  split
  · exact (succeeds_firstValue hv s' lookup hl).bind fun _ _ _ _ => succeeds_pure trivial
  · have hms := subfield_ne_none_of_mem_matching s' lookup hl
    exact (succeeds_collectValues hv hms).bind fun _ _ _ _ => succeeds_pure trivial

end Query

/-! ## Chains -/

namespace Chain

variable {c : Chain}

def Serves (x : References) (s : Store) (c : Chain) : Prop :=
  ∀ st ∈ c, Callback.ServesTexts x s st.call

theorem Serves.mono (h : c.Serves x s) (hst : s.LeadsSparing x t) : c.Serves x t :=
  fun st hmem u htu => h st hmem u (hst.trans htu)

theorem succeeds_apply (hc : c.Serves x s) (v : String) :
    (c.apply v).Succeeds x s fun _ _ => True := by
  induction c generalizing s v with
  | nil => exact succeeds_pure trivial
  | cons st c ih =>
      refine (hc st (by simp) s (.refl x s) v).bind fun d t hst _ => ?_
      cases (Verdict.ofDatum d).apply v with
      | none => exact succeeds_pure trivial
      | some w => exact ih (Serves.mono (fun st' hmem => hc st' (by simp [hmem])) hst) w

theorem succeeds_applyAll (hc : c.Serves x s) (vs : List String) :
    (c.applyAll vs).Succeeds x s fun _ _ => True := by
  induction vs generalizing s with
  | nil => exact succeeds_pure trivial
  | cons v vs ih =>
      refine (succeeds_apply hc v).bind fun w t hst _ => ?_
      have hrest := ih (hc.mono hst)
      cases w with
      | none => exact hrest
      | some w => exact hrest.bind fun _ _ _ _ => succeeds_pure trivial

theorem succeeds_firstKept (hc : c.Serves x s) (vs : List String) :
    (c.firstKept vs).Succeeds x s fun _ _ => True := by
  induction vs generalizing s with
  | nil => exact succeeds_pure trivial
  | cons v vs ih =>
      refine (succeeds_apply hc v).bind fun w t hst _ => ?_
      cases w with
      | none => exact ih (hc.mono hst)
      | some w => exact succeeds_pure trivial

theorem serves_sieve (hc : c.Serves x s) : c.sieve.Serves x s :=
  ⟨fun _ hst => succeeds_applyAll (hc.mono hst), fun _ hst => succeeds_firstKept (hc.mono hst)⟩

end Chain

/-- A condition that asks a callback serves if the callback does. -/
theorem Arg.serves_condition {c : Callback} (hc : c.ServesFields x s) :
    (condition c).Serves x s :=
  fun t hst f hf => (hc t hst f hf).bind fun _ _ _ _ =>
    succeeds_get_bind (succeeds_pure trivial)

/-! ## Records -/

namespace RecordRef

variable {r : RecordRef} {l : Locator} {ps : List Query.Predicate} {v : Query.Sieve}

theorem succeeds_firstMatch (hs : s.IsIndexed) (hps : ∀ p ∈ ps, p.Serves x s)
    (hv : v.Serves x s) (hl : l.wantField = false → ∀ a ∈ l.alternatives, a.subfield ≠ none) :
    (r.firstMatch l ps v).Succeeds x s fun _ _ => True := by
  refine succeeds_get_bind ?_
  dsimp only
  split
  · exact (Query.succeeds_firstField hps fun f => Query.hasField_of_mem_matching hs).bind
      fun _ _ _ _ => succeeds_pure trivial
  · next hfield =>
    exact (Query.succeeds_firstValue hv s _ (hl (by simpa using hfield))).bind
      fun _ _ _ _ => succeeds_pure trivial

theorem succeeds_filter (hs : s.IsIndexed) (hps : ∀ p ∈ ps, p.Serves x s) :
    (r.filter ps).Succeeds x s fun _ _ => True :=
  succeeds_record_bind ((Query.succeeds_keepFields hps (hs.hasField r)).bind
    fun _ _ _ hfs => succeeds_newRecord hfs)

end RecordRef

end Biblio
