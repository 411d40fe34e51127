import Biblio.Request.Record
import Biblio.Proofs.Run.Field

/-!
# Operations on records as runs of steps

Every operation on a record makes steps only, and what it answers with is in the store
where it ends: a field that is found is one of the record or was created on the way, and
a new record is one of fields that exist.
-/

namespace Biblio

open Biblio.Action

variable {s t : Store} {growth : Prop}

theorem Slice.mem_of_mem_take {α : Type} (x : Slice) {xs : List α} {a : α} (h : a ∈ x.take xs) :
    a ∈ xs := by
  rw [take, List.mem_filterMap] at h
  obtain ⟨i, -, hi⟩ := h
  exact List.mem_of_getElem? hi

namespace RecordRef

variable (r : RecordRef)

/-! ## Growth -/

theorem runs_fieldOf {v : Arg} (hv : v.IsIn growth s) :
    (fieldOf v).Runs growth s fun f t => t.HasField f := by
  unfold fieldOf
  split
  · exact runs_pure fun _ => hv
  · exact runs_parseField _
  · exact runs_throw _

theorem steps_append (hg : growth) {v : Arg} (hv : v.IsIn growth s) :
    (r.append v).Steps growth s :=
  (runs_fieldOf hv).bind fun _ _ _ hf => steps_pushField hg r hf

/-! ## Plain access -/

theorem runs_fieldsByTag (tag : Arg) :
    (r.fieldsByTag tag).Runs growth s fun fs t => ∀ f ∈ fs, t.HasField f := by
  unfold fieldsByTag
  split
  · exact runs_record_bind fun hs => runs_pure fun _ _ hf => hs.hasField_of_mem_lookup hf
  · exact (steps_checkKey _).bind fun _ _ _ _ => runs_pure fun _ => by simp

theorem runs_filtersFor (l : Locator) {filters : Arg} (hfilters : filters.IsIn growth s) :
    (filtersFor l filters).Runs growth s fun x t =>
      (∀ p ∈ x.1, Query.Predicate.Acts growth t p) ∧ x.2.Acts growth t := by
  unfold filtersFor
  split
  · exact (Arg.runs_predicates hfilters).bind fun ps t _ hps =>
      runs_pure fun _ => ⟨hps, Query.acts_pass⟩
  · exact (Chain.runs_ofArg hfilters).bind fun c t _ hc =>
      runs_pure fun _ => ⟨by simp, Chain.acts_sieve hc⟩

/-! ## Queries -/

theorem runs_allMatches (l : Locator) {filters : Arg} (hfilters : filters.IsIn growth s) :
    (r.allMatches l filters).Runs growth s fun x t => x.IsIn t := by
  refine (runs_filtersFor l hfilters).bind fun x t _ hx => ?_
  refine runs_get_bind fun ht => ?_
  split
  · refine (Query.runs_keepFields hx.1 fun f hf => Query.hasField_of_mem_matching ht hf).bind
      fun fs u htu hfs => ?_
    refine (steps_newRecord fun f hf => ?_).bind fun _ _ _ _ => runs_pure fun _ => trivial
    exact (Query.hasField_of_mem_matching ht (hfs hf)).mono htu
  · exact (Query.steps_collectValues hx.2 _).bind fun _ _ _ _ =>
      runs_pure fun _ => Datum.isIn_texts _

theorem runs_fieldResult {x : Query.Outcome FieldRef} (hx : ∀ f ∈ x.toList, s.HasField f) :
    (fieldResult x).Runs growth s fun v t => v.IsIn t := by
  cases x with
  | single f =>
      exact runs_pure fun _ => Datum.isIn_ofOption_field fun g hg =>
        hx g (Option.mem_toList.mpr hg)
  | several fs =>
      exact (steps_newRecord hx).bind fun _ _ _ _ => runs_pure fun _ => trivial

theorem isIn_valueResult (x : Query.Outcome String) : (valueResult x).IsIn s := by
  cases x with
  | single v => exact Datum.isIn_ofOption_text v
  | several vs => exact Datum.isIn_texts vs

theorem runs_evaluate (l : Locator) {filters : Arg} (hfilters : filters.IsIn growth s) :
    (r.evaluate l filters).Runs growth s fun x t => x.1.IsIn t := by
  refine (runs_filtersFor l hfilters).bind fun x t _ hx => ?_
  refine runs_get_bind fun ht => ?_
  split
  · refine (Query.runs_evaluateFields hx.1 ht r l).bind fun answer u htu hanswer => ?_
    have hfields : ∀ f ∈ answer.outcome.toList, u.HasField f :=
      fun f hf => (ht.hasField r f (hanswer hf)).mono htu
    exact (runs_fieldResult hfields).bind fun v w _ hv => runs_pure fun _ => hv
  · exact (Query.steps_evaluateValues hx.2 _ _ l).bind fun answer u _ _ =>
      runs_pure fun _ => isIn_valueResult _

theorem steps_filter {ps : List Query.Predicate} (hps : ∀ p ∈ ps, p.Acts growth s) :
    (r.filter ps).Steps growth s :=
  runs_record_bind fun hs => (Query.runs_keepFields hps (hs.hasField r)).bind
    fun _ _ hst hfs => steps_newRecord fun f hf => (hs.hasField r f (hfs hf)).mono hst

theorem runs_first (locator subfield : Arg) {filters : Arg} (hfilters : filters.IsIn growth s) :
    (r.first locator subfield filters).Runs growth s fun x t => x.IsIn t :=
  (Arg.steps_toLocator locator subfield).bind fun l _ hst _ =>
    (runs_filtersFor l (hfilters.mono hst)).bind fun _ _ _ hx => r.runs_firstMatch l hx.1 hx.2

theorem runs_all {locator : Arg} (hlocator : locator.IsIn growth s) (subfield : Arg)
    {filters : Arg} (hfilters : filters.IsIn growth s) :
    (r.all locator subfield filters).Runs growth s fun x t => x.IsIn t := by
  unfold all
  split
  · refine (Arg.runs_predicates hfilters).bind fun ps t _ hps => ?_
    exact (r.steps_filter hps).bind fun _ _ _ _ => runs_pure fun _ => trivial
  · split
    · next f hf =>
      refine (Arg.runs_predicates hfilters).bind fun ps t hst hps => ?_
      have hcondition := Arg.acts_condition ((Arg.acts_of_callable? hlocator f hf).mono hst)
      refine (r.steps_filter ?_).bind fun _ _ _ _ => runs_pure fun _ => trivial
      simpa [hcondition] using hps
    · exact (Arg.steps_toLocator locator subfield).bind fun l _ hst _ =>
        r.runs_allMatches l (hfilters.mono hst)

theorem runs_query (locator subfield : Arg) {filters : Arg} (hfilters : filters.IsIn growth s) :
    (r.query locator subfield filters).Runs growth s fun x t => x.1.IsIn t :=
  (Arg.steps_toLocator locator subfield).bind fun l _ hst _ =>
    r.runs_evaluate l (hfilters.mono hst)

theorem steps_has (locator subfield : Arg) : (r.has locator subfield).Steps growth s := by
  have hnull : Arg.IsIn growth s .null := trivial
  exact (r.runs_first locator subfield hnull).bind fun _ _ _ _ => runs_pure fun _ => trivial

theorem acts_resolve : Mapping.Resolver.Acts growth s r.resolve :=
  fun _ _ _ hentry => (Mapping.runs_recordQuery hentry).bind fun q _ _ hq =>
    r.runs_query (.text q.locator) q.subfield hq.2

theorem runs_map {mapping : Arg} (hmapping : mapping.IsIn growth s) :
    (r.map mapping).Runs growth s fun x t => x.IsIn t := by
  have htarget : ∀ t, Datum.IsIn t (.record r) := fun _ => trivial
  exact (Mapping.runs_entries hmapping).bind fun _ t _ hes =>
    Mapping.runs_collect r.acts_resolve (htarget t) hes

/-! ## Fields and slices -/

theorem steps_apply {gs : List Query.Predicate} (hgs : ∀ g ∈ gs, g.Acts growth s) :
    (r.apply gs).Steps growth s := by
  refine runs_record_bind fun hs => runs_forM fun f hf t hst => runs_forM fun g hg u htu => ?_
  have hst := hst.trans htu
  exact (((hgs g hg).mono hst) u (.refl u) f ((hs.hasField r f hf).mono hst)).map
    fun _ _ _ _ _ => trivial

theorem steps_slice (start stop step : Arg) : (r.slice start stop step).Steps growth s :=
  (Arg.steps_slice start stop step).bind fun x _ _ _ => runs_record_bind fun ht =>
    steps_newRecord fun f hf => ht.hasField r f (x.mem_of_mem_take hf)

theorem steps_contains (v : Arg) : (r.contains v).Steps growth s := by
  unfold contains
  split
  · exact runs_get_bind fun _ => runs_pure fun _ => trivial
  · exact r.steps_has _ _

end RecordRef

/-! ## Creation -/

namespace Action

theorem steps_createRecord {fields : Arg} (hfields : fields.IsIn growth s) :
    (createRecord fields).Steps growth s := by
  unfold createRecord
  split
  · exact steps_newRecord (by simp)
  · refine (Arg.runs_items hfields).bind fun xs t _ hxs => ?_
    refine (runs_mapM (R := fun f u => u.HasField f)
      (fun x hx u htu => RecordRef.runs_fieldOf ((hxs x hx).mono htu))
      fun f u w huw hf => hf.mono huw).bind fun fs u _ hfs => steps_newRecord hfs

theorem steps_readRecord (hg : growth) (text : Arg) : (readRecord text).Steps growth s := by
  unfold readRecord
  split
  · exact steps_parseRecord hg _
  · exact runs_throw _

end Action

end Biblio
