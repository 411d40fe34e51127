import Biblio.Proofs.Query.First
import Biblio.Proofs.Store.Always

/-!
# Located fields

The fields that the alternatives of a locator locate in a list of fields, alternative by
alternative, depend on the labels of the fields only. So it does not matter in which store, at
what time and in which record the fields are looked for, and what a call finds in the result of
another call is told by lists of fields alone.
-/

namespace Biblio

open Biblio.Action

variable {s t : Store}

/-! ## Lists of located fields -/

/-- Alternatives match a field by its label, which never changes. -/
theorem Store.HasField.matches_iff {f : FieldRef} (hf : s.HasField f) {growth : Prop}
    (hst : s.Leads growth t) (a : Alternative) : a.Matches (t.field f) ↔ a.Matches (s.field f) := by
  obtain ⟨htag, hoccurrence⟩ := hf.sameLabel hst
  rw [Alternative.Matches, Alternative.Matches, htag, hoccurrence]

namespace Store

variable {as : List Alternative} {fs gs : List FieldRef} {f : FieldRef}

/-- The fields that alternatives locate among fields, one alternative after the other. -/
def located (s : Store) (as : List Alternative) (fs : List FieldRef) : List FieldRef :=
  as.flatMap fun a => fs.filter fun f => a.Matches (s.field f)

theorem map_snd_scan (s : Store) (r : RecordRef) (as : List Alternative) :
    (s.scan r as).map Prod.snd = s.located as (s.record r).fields := by
  rw [scan, located, List.map_flatMap]
  congr 1
  funext a
  rw [List.map_map]
  exact List.map_id _

theorem mem_located : f ∈ s.located as fs ↔ f ∈ fs ∧ ∃ a ∈ as, a.Matches (s.field f) := by
  simp only [located, List.mem_flatMap, List.mem_filter, decide_eq_true_eq]
  constructor
  · rintro ⟨a, ha, hf, hmatch⟩
    exact ⟨hf, a, ha, hmatch⟩
  · rintro ⟨hf, a, ha, hmatch⟩
    exact ⟨a, ha, hf, hmatch⟩

theorem located_subset (s : Store) (as : List Alternative) (fs : List FieldRef) :
    s.located as fs ⊆ fs :=
  fun _ hf => (mem_located.mp hf).1

/-- It does not matter whether fields are dropped before they are located or afterwards. -/
theorem filter_located (s : Store) (as : List Alternative) (fs : List FieldRef)
    (p : FieldRef → Bool) : (s.located as fs).filter p = s.located as (fs.filter p) := by
  rw [located, located, List.filter_flatMap]
  congr 1
  funext a
  rw [List.filter_filter, List.filter_filter]
  simp only [Bool.and_comm]

theorem located_congr (hfs : ∀ f ∈ fs, s.HasField f) {growth : Prop} (hst : s.Leads growth t)
    (as : List Alternative) : t.located as fs = s.located as fs := by
  rw [located, located]
  congr 1
  funext a
  exact List.filter_congr fun f hf => decide_eq_decide.mpr ((hfs f hf).matches_iff hst a)

end Store

/-! ## Conditions with a verdict -/

namespace Query

variable {ps : List Predicate} {fs gs : List FieldRef} {f : FieldRef}

/-- Whether a condition always comes to the same verdict on each of certain fields. -/
def Predicate.Judges (s : Store) (fs : List FieldRef) (p : Predicate) : Prop :=
  ∀ f ∈ fs, ∃ b, (p f).AlwaysGives s fun x _ => x = b

theorem meets_nil (s : Store) : meets s [] = fun _ => true := rfl

theorem alwaysGives_satisfies (hps : ∀ p ∈ ps, ∃ b, (p f).AlwaysGives s fun x _ => x = b) :
    (satisfies ps f).AlwaysGives s fun x _ => x = meets s ps f := by
  induction ps with
  | nil => exact alwaysGives_pure fun _ _ => rfl
  | cons p ps ih =>
      obtain ⟨b, hb⟩ := hps p (by simp)
      refine hb.bind fun x u hsu hx => ?_
      subst hx
      rw [meets, List.all_cons, hb.value?_eq]
      cases x with
      | false => exact gives_pure rfl
      | true => simpa [meets] using ih (fun q hq => hps q (by simp [hq])) u hsu

section

variable (hps : ∀ p ∈ ps, p.Judges s fs)
include hps

theorem alwaysGives_keepFields (hgs : gs ⊆ fs) :
    (keepFields ps gs).AlwaysGives s fun x _ => x = gs.filter (meets s ps) := by
  induction gs with
  | nil => exact alwaysGives_pure fun _ _ => rfl
  | cons f gs ih =>
      rw [List.cons_subset] at hgs
      refine (alwaysGives_satisfies fun p hp => hps p hp f hgs.1).bind fun x u hsu hx => ?_
      subst hx
      cases hf : meets s ps f with
      | false => simpa [hf] using ih hgs.2 u hsu
      | true =>
          refine (ih hgs.2 u hsu).bind fun ys v _ hys => ?_
          exact gives_pure (by rw [hys, List.filter_cons_of_pos hf])

theorem alwaysGives_firstField (hgs : gs ⊆ fs) :
    (firstField ps gs).AlwaysGives s fun x _ => x = (gs.filter (meets s ps)).head? := by
  induction gs with
  | nil => exact alwaysGives_pure fun _ _ => rfl
  | cons f gs ih =>
      rw [List.cons_subset] at hgs
      refine (alwaysGives_satisfies fun p hp => hps p hp f hgs.1).bind fun x u hsu hx => ?_
      subst hx
      cases hf : meets s ps f with
      | false => simpa [hf] using ih hgs.2 u hsu
      | true => exact gives_pure (by rw [List.filter_cons_of_pos hf]; rfl)

end

end Query

/-! ## Calls on results -/

/-- A record that exists is, now and at any later time, a record of its fields. -/
theorem RecordRef.isRecordOf {r : RecordRef} (hr : s.HasRecord r) (hst : s.Leads False t) :
    Datum.IsRecordOf (s.record r).fields (.record r) t :=
  (Datum.isRecordOf_record_iff.mpr ⟨hr, rfl⟩).mono hst

theorem RecordRef.exec_filtersFor_of_read {l : Locator} {filters : Arg}
    {ps : List Query.Predicate} (hl : l.wantField = true)
    (hread : filters.predicates.exec t = (.ok ps, t)) :
    (filtersFor l filters).exec t = (.ok (ps, .pass), t) := by
  rw [filtersFor, if_pos hl, exec_bind_of hread, exec_pure]

namespace Request

def all (l filters : Arg) (v : Datum) : Action Datum :=
  call v "all" [l, .null, filters]

def first (l filters : Arg) (v : Datum) : Action Datum :=
  call v "first" [l, .null, filters]

def filter (vs : List Arg) (v : Datum) : Action Datum :=
  call v "filter" vs

theorem exec_all_record (l filters : Arg) (r : RecordRef) (s : Store) :
    (all l filters (.record r)).exec s = (r.all l .null filters).exec s := rfl

theorem exec_filter_record (vs : List Arg) (r : RecordRef) (s : Store) :
    (filter vs (.record r)).exec s = (Value.record <$> r.filter (vs.map Arg.attempt)).exec s := rfl

variable {fs gs : List FieldRef} {v : Datum} {l : Locator} {filters : Arg}
  {ps : List Query.Predicate} {vs : List Arg}

section

variable (hfs : ∀ f ∈ fs, s.HasField f) (hst : s.Leads False t) (hgs : gs ⊆ fs)
include hfs hst hgs

/-- Which fields are left does not depend on the time. -/
theorem gives_filter (hv : v.IsRecordOf gs t) (hvs : ∀ v ∈ vs, v.attempt.Judges s fs) :
    (filter vs v).Gives t
      (Datum.IsRecordOf (gs.filter (Query.meets s (vs.map Arg.attempt)))) := by
  obtain ⟨r, rfl, -, rfl⟩ := hv
  have hps : ∀ p ∈ vs.map Arg.attempt, p.Judges s fs := by simpa using hvs
  rw [Gives, exec_filter_record]
  refine Gives.map (P := fun q u => u.HasRecord q ∧ (u.record q).fields = _) ?_
    fun q u hq => ⟨q, rfl, hq⟩
  refine gives_bind_of (exec_record r t) ((Query.alwaysGives_keepFields hps hgs t hst).bind ?_)
  rintro _ u htu rfl
  exact gives_newRecord fun f hf => (hfs f (hgs (List.mem_of_mem_filter hf))).mono (hst.trans htu)

variable (hs : s.IsIndexed)
include hs

theorem map_snd_matching {r : RecordRef} (hr : (t.record r).fields = gs) (l : Locator) :
    (Query.matching t (t.record r).lookup l.alternatives).map Prod.snd =
      s.located l.alternatives gs := by
  rw [(hs.mono hst).matching_eq_scan, Store.map_snd_scan, hr]
  exact Store.located_congr (fun f hf => hfs f (hgs hf)) hst _

variable (hv : v.IsRecordOf gs t) (hl : l.wantField = true)
  (hread : filters.predicates.exec t = (.ok ps, t)) (hps : ∀ p ∈ ps, p.Judges s fs)
include hv hl hread hps

/-- Which fields are found does not depend on the time. -/
theorem gives_all :
    (all (.locator l) filters v).Gives t
      (Datum.IsRecordOf (s.located l.alternatives (gs.filter (Query.meets s ps)))) := by
  obtain ⟨r, rfl, -, hr⟩ := hv
  have hsub : s.located l.alternatives gs ⊆ fs := List.Subset.trans (s.located_subset _ gs) hgs
  change (r.allMatches l filters).Gives t _
  rw [RecordRef.allMatches, ← s.filter_located]
  refine gives_bind_of (RecordRef.exec_filtersFor_of_read hl hread) (gives_bind_of (x := t) rfl ?_)
  dsimp only
  rw [if_pos hl, map_snd_matching hfs hst hgs hs hr l]
  refine (Query.alwaysGives_keepFields hps hsub t hst).bind ?_
  rintro _ u htu rfl
  refine (gives_newRecord fun f hf => ?_).bind fun q w _ hq => gives_pure ⟨q, rfl, hq⟩
  exact (hfs f (hsub (List.mem_of_mem_filter hf))).mono (hst.trans htu)

/-- Which field is found first does not depend on the time. -/
theorem gives_first :
    (first (.locator l) filters v).Gives t fun x _ =>
      x = .ofOption .field (s.located l.alternatives (gs.filter (Query.meets s ps))).head? := by
  obtain ⟨r, rfl, -, hr⟩ := hv
  have hsub : s.located l.alternatives gs ⊆ fs := List.Subset.trans (s.located_subset _ gs) hgs
  change (RecordRef.filtersFor l filters >>= fun x => r.firstMatch l x.1 x.2).Gives t _
  refine gives_bind_of (RecordRef.exec_filtersFor_of_read hl hread) ?_
  rw [RecordRef.firstMatch, ← s.filter_located]
  refine gives_bind_of (x := t) rfl ?_
  dsimp only
  rw [if_pos hl, map_snd_matching hfs hst hgs hs hr l]
  refine (Query.alwaysGives_firstField hps hsub t hst).bind ?_
  rintro _ u _ rfl
  exact gives_pure rfl

end

section

variable (hfs : ∀ f ∈ fs, s.HasField f) (hst : s.Leads False t) (hgs : gs ⊆ fs)
  (hs : s.IsIndexed) (hv : v.IsRecordOf gs t) (hl : l.wantField = true)
include hfs hst hgs hs hv hl

theorem gives_all_null :
    (all (.locator l) .null v).Gives t (Datum.IsRecordOf (s.located l.alternatives gs)) := by
  have hall : (all (.locator l) .null v).Gives t
      (Datum.IsRecordOf (s.located l.alternatives (gs.filter (Query.meets s [])))) :=
    gives_all hfs hst hgs hs hv hl rfl (by simp)
  rwa [Query.meets_nil, List.filter_true] at hall

theorem gives_first_null :
    (first (.locator l) .null v).Gives t fun x _ =>
      x = .ofOption .field (s.located l.alternatives gs).head? := by
  have hfirst : (first (.locator l) .null v).Gives t fun x _ =>
      x = .ofOption .field (s.located l.alternatives (gs.filter (Query.meets s []))).head? :=
    gives_first hfs hst hgs hs hv hl rfl (by simp)
  rwa [Query.meets_nil, List.filter_true] at hfirst

end

end Request

end Biblio
