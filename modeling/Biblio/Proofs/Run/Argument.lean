import Biblio.Proofs.Run.Filter
import Biblio.Request.Mapping

/-!
# Arguments and mappings as runs of steps

What an argument of a store is read as is of that store too: its items exist, the
conditions that it puts on fields act by steps. The entries of a mapping are run one after
the other, and the findings are of the store in which the last one ends.
-/

namespace Biblio

open Biblio.Action

variable {s t : Store} {growth : Prop}

namespace Arg

/-! ## Selectors and locators -/

theorem steps_toSelector (v : Arg) : v.toSelector.Steps growth s := by
  unfold toSelector
  split
  · exact runs_pure fun _ => trivial
  · exact runs_ofExcept fun _ _ => trivial
  · exact runs_throw _

theorem steps_fieldSelector (code marks : Arg) : (fieldSelector code marks).Steps growth s := by
  unfold fieldSelector
  split
  · exact runs_pure fun _ => trivial
  · refine (steps_toSelector code).bind fun sel t _ _ => runs_get_bind fun _ => ?_
    split
    · exact runs_pure fun _ => trivial
    · split
      · exact runs_ofExcept fun _ _ => trivial
      · exact runs_throw _

theorem steps_refined (l : Locator) (subfield : Arg) : (refined l subfield).Steps growth s := by
  unfold refined
  split
  · exact runs_ofExcept fun _ _ => trivial
  · exact runs_ofExcept fun _ _ => trivial
  · refine runs_get_bind fun _ => ?_
    dsimp only
    split
    · exact runs_throw_bind _
    · refine (steps_checkKey subfield).bind fun _ t _ _ => runs_ofExcept_bind fun plan => ?_
      split <;> exact runs_throw _

theorem steps_parsed (text : Arg) (subfield : Option String) :
    (parsed text subfield).Steps growth s := by
  unfold parsed
  split
  · exact runs_ofExcept fun _ _ => trivial
  · exact (steps_checkKey _).bind fun _ _ _ _ => runs_throw _

theorem steps_toLocator (text subfield : Arg) : (toLocator text subfield).Steps growth s := by
  unfold toLocator
  split
  · exact steps_refined _ _
  · split
    · exact steps_parsed _ _
    · exact steps_parsed _ _
    · exact runs_throw _

/-- Reading a class of codes does nothing to the store. -/
theorem runs_toCodeClass (codes : Arg) :
    codes.toCodeClass.Runs growth s fun _ t => t = s := by
  unfold toCodeClass
  split
  · exact runs_pure fun _ => rfl
  · split
    · exact runs_pure fun _ => rfl
    · exact runs_throw _
  · exact runs_get_bind fun _ => runs_throw _

/-! ## Items and predicates -/

theorem runs_items {v : Arg} (hv : v.IsIn growth s) :
    v.items.Runs growth s fun xs t => ∀ x ∈ xs, Arg.IsIn growth t x := by
  refine runs_get_bind fun hs => ?_
  split
  · next xs h => exact runs_pure fun _ => Value.all_of_items? hs.hasField hv h
  · exact runs_throw _

theorem acts_condition {f : Callback} (hf : f.Acts growth s) :
    Query.Predicate.Acts growth s (condition f) :=
  fun t hst g hg => (hf t hst (.field g) hg).bind fun _ _ _ _ =>
    runs_get_bind fun _ => runs_pure fun _ => trivial

theorem acts_of_callable? {v : Arg} (hv : v.IsIn growth s) :
    ∀ f ∈ Chain.callable? v, Callback.Acts growth s f := by
  intro f hf
  unfold Chain.callable? at hf
  split at hf
  · obtain rfl := Option.some.inj hf
    exact hv
  · next st =>
    obtain rfl := Option.some.inj hf
    exact fun t hst x hx => Step.runs_call st (Step.IsIn.mono hv hst) hx
  · exact absurd hf (by simp)

theorem runs_predicate {v : Arg} (hv : v.IsIn growth s) :
    v.predicate.Runs growth s fun p t => p.Acts growth t := by
  unfold predicate
  split
  · next f hf => exact runs_pure fun _ => acts_condition (acts_of_callable? hv f hf)
  · exact runs_get_bind fun _ => runs_throw _

theorem runs_predicates {v : Arg} (hv : v.IsIn growth s) :
    v.predicates.Runs growth s fun ps t => ∀ p ∈ ps, Query.Predicate.Acts growth t p := by
  unfold predicates
  split
  · exact runs_pure fun _ => by simp
  · split
    · next f hf =>
      exact runs_pure fun _ => by simpa using acts_condition (acts_of_callable? hv f hf)
    · refine (runs_items hv).bind fun xs t _ hxs => ?_
      exact runs_mapM (fun x hx u htu => runs_predicate ((hxs x hx).mono htu))
        fun p t u htu hp => hp.mono htu

theorem acts_call {v : Arg} (hv : v.IsIn growth s) : v.call.Acts growth s := by
  unfold call
  split
  · next f hf => exact acts_of_callable? hv f hf
  · exact fun _ _ _ _ => runs_throw _

theorem acts_attempt {v : Arg} (hv : v.IsIn growth s) :
    Query.Predicate.Acts growth s v.attempt :=
  acts_condition (acts_call hv)

/-! ## Pairs and bounds -/

theorem runs_pair {v : Arg} (hv : v.IsIn growth s) :
    v.pair.Runs growth s fun xy t => xy.1.IsIn growth t ∧ xy.2.IsIn growth t := by
  refine runs_get_bind fun hs => ?_
  split
  · exact runs_throw _
  · next x y h =>
    have hxy := Value.all_of_items? hs.hasField hv h
    exact runs_pure fun _ => ⟨hxy x (by simp), hxy y (by simp)⟩
  · split <;> exact runs_throw _

theorem steps_bound (v : Arg) : v.bound.Steps growth s := by
  unfold bound
  split
  · exact runs_pure fun _ => trivial
  · split
    · exact runs_pure fun _ => trivial
    · exact runs_throw _

theorem steps_slice (start stop step : Arg) : (slice start stop step).Steps growth s := by
  refine (steps_bound step).bind fun k t _ _ => ?_
  dsimp only
  split
  · exact runs_throw_bind _
  · refine (steps_bound start).bind fun i u _ _ => (steps_bound stop).bind fun j w _ _ => ?_
    exact runs_pure fun _ => trivial

end Arg

/-! ## Mappings -/

namespace Mapping

/-- Whether a property of arguments is one of texts and of the missing value, and passes from
items to their list. -/
structure IsInherited (P : Arg → Prop) : Prop where
  null : P .null
  text : ∀ t, P (.text t)
  list : ∀ xs, (∀ x ∈ xs, P x) → P (.list xs)

namespace IsInherited

variable {P : Arg → Prop} {xs : List Arg}

theorem filtersOf (hP : IsInherited P) (h : ∀ x ∈ xs, P x) : P (filtersOf xs) := by
  unfold Mapping.filtersOf
  split
  · exact hP.null
  · exact h _ (by simp)
  · exact hP.list _ h

/-- The query that arguments give has the property if they do. -/
theorem recordQuery? (hP : IsInherited P) (h : ∀ x ∈ xs, P x) {q : RecordQuery}
    (hq : recordQuery? xs = some q) : P q.subfield ∧ P q.filters := by
  unfold Mapping.recordQuery? at hq
  split at hq
  · next a ys =>
    split at hq
    next l rest hsplit =>
    have hys : ∀ y ∈ ys, P y := fun y hy => h y (by simp [hy])
    -- A text behind a flag is the locator; what is left is in the list either way.
    have hrest : ∀ y ∈ rest, P y := by
      split at hsplit
      · split at hsplit
        · obtain ⟨-, rfl⟩ := Prod.mk.inj hsplit
          exact fun y hy => hys y (by simp [hy])
        · obtain ⟨-, rfl⟩ := Prod.mk.inj hsplit
          exact hys
      · obtain ⟨-, rfl⟩ := Prod.mk.inj hsplit
        exact hys
    obtain rfl := Option.some.inj hq
    split
    · exact ⟨hP.null, hP.filtersOf fun z hz => hrest z (by simp [hz])⟩
    · exact ⟨hP.text _, hP.filtersOf fun z hz => hrest z (by simp [hz])⟩
    · exact ⟨hP.null, hP.filtersOf hrest⟩
  · exact absurd hq (by simp)

theorem fieldQuery? (hP : IsInherited P) (h : ∀ x ∈ xs, P x) {q : FieldQuery}
    (hq : fieldQuery? xs = some q) : P q.marks ∧ P q.filters := by
  unfold Mapping.fieldQuery? at hq
  split at hq
  · obtain rfl := Option.some.inj hq
    exact ⟨hP.text _, hP.filtersOf fun y hy => h y (by simp [hy])⟩
  · obtain rfl := Option.some.inj hq
    exact ⟨hP.null, hP.filtersOf fun y hy => h y (by simp [hy])⟩
  · exact absurd hq (by simp)

end IsInherited

theorem isInherited_isIn : IsInherited (Arg.IsIn growth s) where
  null := trivial
  text := fun _ => trivial
  list := fun xs h => (Value.all_list xs).mpr h

theorem runs_recordQuery {v : Arg} (hv : v.IsIn growth s) :
    (recordQuery v).Runs growth s fun q t =>
      q.subfield.IsIn growth t ∧ q.filters.IsIn growth t := by
  unfold recordQuery
  split
  · exact runs_pure fun _ => ⟨trivial, trivial⟩
  · refine (Arg.runs_items hv).bind fun xs t _ hxs => ?_
    split
    · next q hq => exact runs_pure fun _ => isInherited_isIn.recordQuery? hxs hq
    · exact runs_get_bind fun _ => runs_throw _

theorem runs_fieldQuery {v : Arg} (hv : v.IsIn growth s) :
    (fieldQuery v).Runs growth s fun q t => q.filters.IsIn growth t := by
  unfold fieldQuery
  split
  · exact runs_pure fun _ => trivial
  · refine (Arg.runs_items hv).bind fun xs t _ hxs => ?_
    split
    · next q hq => exact runs_pure fun _ => (isInherited_isIn.fieldQuery? hxs hq).2
    · exact runs_get_bind fun _ => runs_throw _

/-! ## Entries -/

def Findings.IsIn (s : Store) (x : Findings) : Prop :=
  ∀ e ∈ x.values ++ x.errors, e.1.IsIn s ∧ e.2.IsIn s

theorem Findings.IsIn.mono {x : Findings} (h : x.IsIn s) (hst : s.Leads growth t) : x.IsIn t :=
  fun e he => ⟨(h e he).1.mono hst, (h e he).2.mono hst⟩

theorem Findings.IsIn.append {x y : Findings} (hx : x.IsIn s) (hy : y.IsIn s) :
    (x.append y).IsIn s := by
  intro e he
  simp only [Findings.append, List.mem_append] at he
  rcases he with (he | he) | (he | he)
  · exact hx e (by simp [he])
  · exact hy e (by simp [he])
  · exact hx e (by simp [he])
  · exact hy e (by simp [he])

theorem Findings.IsIn.toDatum {x : Findings} (h : x.IsIn s) : x.toDatum.IsIn s := by
  simp only [Findings.IsIn, List.mem_append, or_imp, forall_and] at h
  simp only [Findings.toDatum, Datum.IsIn, Value.all_tuple, List.mem_cons, List.not_mem_nil,
    or_false, forall_eq_or_imp, forall_eq, Value.all_table]
  exact ⟨fun e he => ⟨h.1.1 e he, h.2.1 e he⟩, fun e he => ⟨h.1.2 e he, h.2.2 e he⟩⟩

theorem isIn_finding {key value : Datum} {error : Option Datum} (hkey : key.IsIn s)
    (hvalue : value.IsIn s) (herror : ∀ e ∈ error, Datum.IsIn s e) :
    (finding s key value error).IsIn s := by
  intro e he
  simp only [finding, List.mem_append, List.mem_map, Option.mem_toList] at he
  rcases he with he | ⟨x, hx, rfl⟩
  · split at he
    · exact absurd he (by simp)
    · obtain rfl := List.mem_singleton.mp he
      exact ⟨hkey, hvalue⟩
  · exact ⟨hkey, herror x hx⟩

variable {target : Datum} {resolve : Resolver}

/-- A callback that fails has made its steps before. -/
theorem runs_guarded {key : Arg} (hkey : key.IsIn growth s) {f : Callback}
    (hf : f.Acts growth s) (htarget : target.IsIn s) :
    (guarded key f target).Runs growth s fun x t =>
      x.1.IsIn t ∧ ∀ e ∈ x.2, Datum.IsIn t e := by
  refine Runs.tryCatch ?_ fun fault t hst => ?_
  · refine (hf s (.refl s) target htarget).bind fun x t _ hx => runs_pure fun _ => ?_
    exact ⟨hx, by simp⟩
  · refine runs_get_bind fun _ => (steps_note _).bind fun _ u htu _ => runs_pure fun _ => ?_
    refine ⟨trivial, ?_⟩
    rintro _ ⟨⟩
    exact (hkey.mono (hst.trans htu)).forget

def Resolver.Acts (growth : Prop) (s : Store) (resolve : Resolver) : Prop :=
  ∀ t, s.Leads growth t → ∀ entry, Arg.IsIn growth t entry →
    (resolve entry).Runs growth t fun x u => x.1.IsIn u

theorem Resolver.Acts.mono (h : Resolver.Acts growth s resolve) (hst : s.Leads growth t) :
    Resolver.Acts growth t resolve :=
  fun u htu => h u (hst.trans htu)

theorem runs_answer (hresolve : Resolver.Acts growth s resolve) (htarget : target.IsIn s)
    {key entry : Arg} (hkey : key.IsIn growth s) (hentry : entry.IsIn growth s) :
    (answer target resolve key entry).Runs growth s fun x t =>
      x.1.IsIn t ∧ ∀ e ∈ x.2, Datum.IsIn t e := by
  have hquery : (resolve entry).Runs growth s fun x t =>
      x.1.IsIn t ∧ ∀ e ∈ x.2.map Value.error, Datum.IsIn t e := by
    refine (hresolve s (.refl s) entry hentry).imp fun x t _ _ hx => ⟨hx, ?_⟩
    intro e he
    obtain ⟨y, -, rfl⟩ := Option.map_eq_some_iff.mp he
    trivial
  unfold answer
  split
  case h_5 =>
    split
    · next f hf => exact runs_guarded hkey (Arg.acts_of_callable? hentry f hf) htarget
    · exact runs_get_bind fun _ => runs_throw _
  all_goals exact hquery.bind fun _ _ _ hx => runs_pure fun _ => hx

/-- What a mapping finds is in the store that the last entry leaves. -/
theorem runs_collect (hresolve : Resolver.Acts growth s resolve) (htarget : target.IsIn s)
    {es : List (Arg × Arg)} (hes : ∀ e ∈ es, e.1.IsIn growth s ∧ e.2.IsIn growth s) :
    (collect target resolve es).Runs growth s fun x t => x.IsIn t := by
  induction es generalizing s with
  | nil => exact runs_pure fun _ => by simp [Findings.IsIn]
  | cons e es ih =>
      obtain ⟨key, entry⟩ := e
      obtain ⟨hkey, hentry⟩ := hes (key, entry) (by simp)
      refine (runs_answer hresolve htarget hkey hentry).bind fun x t hst hx => ?_
      refine runs_get_bind fun _ => ?_
      have hrest := ih (hresolve.mono hst) (htarget.mono hst) fun e he =>
        ⟨(hes e (by simp [he])).1.mono hst, (hes e (by simp [he])).2.mono hst⟩
      refine hrest.bind fun found u htu hfound => runs_pure fun _ => ?_
      exact ((isIn_finding (hkey.mono hst).forget hx.1 hx.2).mono htu).append hfound

theorem runs_entries {v : Arg} (hv : v.IsIn growth s) :
    (entries v).Runs growth s fun es t =>
      ∀ e ∈ es, e.1.IsIn growth t ∧ e.2.IsIn growth t := by
  unfold entries
  split
  · next es => exact runs_pure fun _ => (Value.all_table es).mp hv
  · exact runs_throw _

end Mapping

end Biblio
