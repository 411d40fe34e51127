import Biblio.Proofs.Query.Bucket
import Biblio.Proofs.Store.Twins

/-!
# Steady arguments

A callback is repeatable if calling it once more with what it was called with ends alike, with
the same fault or with twin values, and leaves what exists as it is; it may create objects. An
argument is steady if what it refers to exists and its callbacks are repeatable. A query with
steady filters is repeatable then: whatever objects have been created meanwhile, it ends as it
did before.
-/

namespace Biblio

open Biblio.Action

variable {s t u : Store}

/-- Whether a callback ends alike whenever it is called with the same object or value. -/
def Callback.IsRepeatable (s : Store) (c : Callback) : Prop :=
  ∀ x : Datum, x.IsHeld s → ∀ t u, s.Leads False t → s.Leads False u →
    Agrees t u (c x) (c x) Store.TwinValues

/-- Whether the objects that an argument refers to exist and its callbacks are repeatable. -/
structure Arg.IsSteady (s : Store) (v : Arg) : Prop where
  held : v.IsHeld s
  repeatable : v.All (fun _ => True) (Callback.IsRepeatable s)

theorem Datum.Alike.twins {x y : Datum} (h : Datum.Alike t u x y) : t.TwinValues u x y := by
  cases h with
  | null => exact .atom trivial
  | text x => exact .atom trivial
  | texts xs =>
      refine .list (Value.relList_self.mpr fun x hx => ?_)
      obtain ⟨text, -, rfl⟩ := List.mem_map.mp hx
      exact .atom trivial
  | field h => exact .field h
  | record hr hq h => exact .record ⟨hr, hq, h⟩

/-! ## Steps -/

structure Datum.CountAlike (t u : Store) (v w : Datum) : Prop where
  isTrue : t.isTrue v = u.isTrue w
  verdict : Verdict.ofDatum v = Verdict.ofDatum w

namespace Step

theorem agrees_find (x : Pattern) (v : Datum) :
    Agrees t u ((find x).call v) ((find x).call v) Datum.CountAlike := by
  unfold call
  split
  · next text =>
    cases x.search text with
    | none => exact agrees_pure ⟨rfl, rfl⟩
    | some place =>
        dsimp only
        split
        · exact agrees_pure ⟨rfl, rfl⟩
        · exact agrees_pure ⟨by cases place.group? 1 <;> rfl, rfl⟩
  · exact agrees_throw _

/-- A step with repeatable callbacks is repeatable, as far as its answers count. -/
theorem agrees_call (hs : s.KeepsBuilt) {v : Datum} (hv : v.IsHeld s)
    (hseen : ∀ t u, s.Leads False t → s.Leads False u → Datum.Seen t u v v) :
    ∀ st : Step Callback, Value.AllStep (fun _ => True) (Callback.IsRepeatable s) st →
      ∀ t u, s.Leads False t → s.Leads False u →
        Agrees t u (st.call v) (st.call v) Datum.CountAlike
  | .find x, _, _, _, _, _ => agrees_find x v
  | .format template, _, t, u, ht, hu => by
    refine (agrees_format hs ht hu (hseen t u ht hu) template).imp fun _ _ _ _ _ _ h => ?_
    obtain ⟨a, rfl, rfl⟩ := h
    exact ⟨rfl, rfl⟩
  | .each _, hf, t, u, ht, hu =>
    (hf v hv t u ht hu).imp fun _ _ _ _ _ _ h => ⟨h.isTrue_eq, h.ofDatum_eq⟩
  | .nested st, hst, t, u, ht, hu => agrees_call hs hv hseen st hst t u ht hu
  | .idle kind arg, _, _, _, _, _ =>
    (agrees_idle kind arg v v).imp fun _ _ _ _ _ _ h => ⟨h.1, h.2⟩

theorem judgesTexts_call (hs : s.KeepsBuilt) {st : Step Callback}
    (hst : Value.AllStep (fun _ => True) (Callback.IsRepeatable s) st) :
    Callback.JudgesTexts s st.call :=
  fun t u ht hu x =>
    (agrees_call hs (Value.isHeld_text x) (fun _ _ _ _ => .text x) st hst t u ht hu).imp
      fun _ _ _ _ _ _ h => h.verdict

end Step

/-! ## Filters -/

namespace Arg

variable {v : Arg} {xs : List Arg}

theorem IsSteady.shown_eq (hs : s.IsIndexed) (hv : v.IsSteady s) (ht : s.Leads False t)
    (hu : s.Leads False u) : t.shown v = u.shown v :=
  Store.shown_eq (hv.held.twins hs ht hu)

theorem isSteady_null : Arg.IsSteady s .null where
  held := .atom trivial
  repeatable := trivial

theorem isSteady_text (x : String) : Arg.IsSteady s (.text x) where
  held := .atom trivial
  repeatable := trivial

theorem isSteady_list (hxs : ∀ x ∈ xs, Arg.IsSteady s x) : Arg.IsSteady s (.list xs) where
  held := Value.isHeld_list.mpr fun x hx => (hxs x hx).held
  repeatable := (Value.all_list xs).mpr fun x hx => (hxs x hx).repeatable

/-- The items of a steady argument are the same as before, and steady. -/
theorem agrees_items (hs : s.IsIndexed) (hv : v.IsSteady s) (ht : s.Leads False t)
    (hu : s.Leads False u) :
    Agrees t u (items v) (items v) fun _ _ xs ys => xs = ys ∧ ∀ x ∈ xs, Arg.IsSteady s x := by
  rw [items]
  refine agrees_get_bind ?_
  rw [hv.held.items?_eq ht, hv.held.items?_eq hu]
  cases hitems : s.items? v with
  | none => exact agrees_throw _
  | some xs =>
      refine agrees_pure ⟨rfl, fun x hx => ⟨hv.held.of_items? hs hitems x hx, ?_⟩⟩
      exact Value.all_of_items? (fun _ _ _ => trivial) hv.repeatable hitems x hx

theorem deterministicOn_condition {c : Callback}
    (hc : ∀ f, s.HasField f → ∀ t u, s.Leads False t → s.Leads False u →
      Agrees t u (c (.field f)) (c (.field f)) Datum.CountAlike) :
    (condition c).DeterministicOn s.OneField s := by
  rintro t u ht hu f _ ⟨rfl, hf⟩ -
  refine (hc f hf t u ht hu).bind fun v w _ _ _ _ h => ?_
  exact agrees_get_bind (agrees_pure h.isTrue)

/-- A callback or a step among steady filters is a deterministic condition. -/
theorem IsSteady.deterministicOn_condition (hs : s.KeepsBuilt) (hv : v.IsSteady s)
    {c : Callback} (hc : Chain.callable? v = some c) :
    (condition c).DeterministicOn s.OneField s := by
  refine Arg.deterministicOn_condition fun f hf t u ht hu => ?_
  cases v with
  | callback c' =>
      obtain rfl := Option.some.inj hc
      exact (hv.repeatable _ (Value.isHeld_field.mpr hf) t u ht hu).imp fun _ _ _ _ _ _ h =>
        ⟨h.isTrue_eq, h.ofDatum_eq⟩
  | step st =>
      obtain rfl := Option.some.inj hc
      exact Step.agrees_call hs (Value.isHeld_field.mpr hf)
        (fun t u ht hu => .field (hf.twins ht hu)) st hv.repeatable t u ht hu
  | _ => cases hc

theorem agrees_predicate (hs : s.IsIndexed) (hb : s.KeepsBuilt) (hv : v.IsSteady s)
    (ht : s.Leads False t) (hu : s.Leads False u) :
    Agrees t u (predicate v) (predicate v) fun _ _ p q =>
      p = q ∧ p.DeterministicOn s.OneField s := by
  rw [predicate]
  cases hcall : Chain.callable? v with
  | some c => exact agrees_pure ⟨rfl, hv.deterministicOn_condition hb hcall⟩
  | none =>
      refine agrees_get_bind ?_
      rw [hv.shown_eq hs ht hu]
      exact agrees_throw _

theorem agrees_predicates (hs : s.IsIndexed) (hb : s.KeepsBuilt) (hv : v.IsSteady s)
    (ht : s.Leads False t) (hu : s.Leads False u) :
    Agrees t u (predicates v) (predicates v) fun _ _ ps qs =>
      ps = qs ∧ ∀ p ∈ ps, p.DeterministicOn s.OneField s := by
  rw [predicates]
  split
  · exact agrees_pure ⟨rfl, by simp⟩
  · cases hcall : Chain.callable? v with
    | some c =>
        exact agrees_pure ⟨rfl, by simpa using hv.deterministicOn_condition hb hcall⟩
    | none =>
        refine (agrees_items hs hv ht hu).bind fun xs ys t' u' ht' hu' hxs => ?_
        obtain ⟨rfl, hxs⟩ := hxs
        exact agrees_mapM fun x hx t'' u'' ht'' hu'' =>
          agrees_predicate hs hb (hxs x hx) (ht.trans (ht'.trans ht'')) (hu.trans (hu'.trans hu''))

end Arg

namespace Chain

mutual

/-- A definition that is its own twin gives the same chain, or is refused alike. -/
theorem build_eq : ∀ {v : Arg}, t.TwinValues u v v → build t v = build u v
  | .list xs, .list h => buildAll_eq h
  | .tuple xs, .tuple h => buildAll_eq h
  | .null, _ | .chain _, _ | .step _, _ | .callback _, _ | .table _, _ | .subfield _, _ => rfl
  | .bool _, h | .int _, h | .real _, h | .text _, h | .bytes _, h | .field _, h | .record _, h
  | .locator _, h | .selector _, h | .error _, h | .failure .., h | .pattern _, h
  | .operation _, h => by rw [build, build, Store.shown_eq h] <;> simp

theorem buildAll_eq : ∀ {xs : List Arg}, Value.RelList (t.Twins u) (t.TwinRecords u) xs xs →
    buildAll t xs = buildAll u xs
  | [], _ => rfl
  | x :: xs, .cons h hs => by rw [buildAll, buildAll, build_eq h, buildAll_eq hs]

end

theorem agrees_ofArg (hs : s.IsIndexed) (hb : s.KeepsBuilt) {v : Arg} (hv : v.IsSteady s)
    (ht : s.Leads False t) (hu : s.Leads False u) :
    Agrees t u (ofArg v) (ofArg v) fun _ _ c d => c = d ∧ c.sieve.Deterministic s :=
  Arg.agrees_ofArg_of_eq (build_eq (hv.held.twins hs ht hu)) fun _ hc st hst =>
    Step.judgesTexts_call hb (all_build u v hv.repeatable hc st hst)

end Chain

/-! ## Queries of records -/

namespace RecordRef

variable {r : RecordRef} {filters : Arg}

theorem agrees_filtersFor_of_isSteady (hs : s.IsIndexed) (hb : s.KeepsBuilt)
    (hf : filters.IsSteady s) (ht : s.Leads False t) (hu : s.Leads False u) (l : Locator) :
    Agrees t u (filtersFor l filters) (filtersFor l filters) fun _ _ x y =>
      x = y ∧ (∀ p ∈ x.1, p.DeterministicOn s.OneField s) ∧ x.2.Deterministic s := by
  rw [filtersFor]
  split
  · refine (Arg.agrees_predicates hs hb hf ht hu).bind fun ps qs _ _ _ _ h => agrees_pure ?_
    exact ⟨by rw [h.1], h.2, deterministic_pass⟩
  · refine (Chain.agrees_ofArg hs hb hf ht hu).bind fun c d _ _ _ _ h => agrees_pure ?_
    exact ⟨by rw [h.1], by simp, h.2⟩

theorem forall₂_lookup (hs : s.IsIndexed) (hr : s.HasRecord r) (ht : s.Leads False t)
    (hu : s.Leads False u) (tag : String) :
    List.Forall₂ (t.TwinsOn u s.OneField) ((t.record r).lookup tag) ((u.record r).lookup tag) := by
  rw [hr.record_eq ht, hr.record_eq hu, List.forall₂_same]
  intro f hf
  have hf := hs.hasField_of_mem_lookup hf
  exact ⟨⟨rfl, hf⟩, hf.twins ht hu⟩

/-- A query with steady filters ends as it did before, whatever has been created since. -/
theorem agrees_query_of_isSteady (hs : s.IsIndexed) (hb : s.KeepsBuilt) (hr : s.HasRecord r)
    (hf : filters.IsSteady s) (ht : s.Leads False t) (hu : s.Leads False u) (text : String)
    (subfield : Arg) :
    Agrees t u (r.query (.text text) subfield filters) (r.query (.text text) subfield filters)
      fun t u x y => Datum.Alike t u x.1 y.1 ∧ x.2 = y.2 := by
  refine (Arg.agrees_toLocator text subfield).bind fun l m t₁ u₁ ht₁ hu₁ hl => ?_
  obtain ⟨rfl, -⟩ := hl
  have hread := agrees_filtersFor_of_isSteady hs hb hf (ht.trans ht₁) (hu.trans hu₁) l
  exact agrees_evaluate_of hb (ht.trans ht₁) (hu.trans hu₁) hread fun t' u' ht' hu' a _ =>
    forall₂_lookup hs hr ht' hu' a.tag

end RecordRef

/-! ## Queries of fields -/

namespace FieldRef

variable {f : FieldRef} {filters : Arg}

theorem agrees_query_of_isSteady (hs : s.IsIndexed) (hb : s.KeepsBuilt) (hfield : s.HasField f)
    (hf : filters.IsSteady s) (ht : s.Leads False t) (hu : s.Leads False u) (sel : Selector) :
    Agrees t u (f.query sel filters) (f.query sel filters) fun _ _ x y => x = y := by
  refine (Chain.agrees_ofArg hs hb hf ht hu).bind fun c d t₁ u₁ ht₁ hu₁ hc => ?_
  obtain ⟨rfl, hc⟩ := hc
  refine agrees_field_bind ?_
  rw [hfield.field_eq (ht.trans ht₁), hfield.field_eq (hu.trans hu₁)]
  exact Query.determined_queryField hc _ sel t₁ u₁ (ht.trans ht₁) (hu.trans hu₁)

theorem agrees_fieldSelector (hs : s.IsIndexed) {marks : Arg} (hm : marks.IsSteady s)
    (ht : s.Leads False t) (hu : s.Leads False u) (code : String) :
    Agrees t u (Arg.fieldSelector (.text code) marks) (Arg.fieldSelector (.text code) marks)
      fun _ _ x y => x = y := by
  have hread : Agrees t u (Arg.toSelector (.text code)) (Arg.toSelector (.text code))
      fun _ _ x y => x = y := agrees_ofExcept fun _ _ => rfl
  refine hread.bind_same fun sel t' u' ht' hu' => ?_
  refine agrees_get_bind ?_
  rw [(hm.held.twins hs (ht.trans ht') (hu.trans hu')).isTrue_eq]
  split
  · exact agrees_pure rfl
  · cases marks with
    | text marks => exact agrees_ofExcept fun _ _ => rfl
    | _ => exact agrees_throw _

end FieldRef

end Biblio
