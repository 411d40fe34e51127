import Biblio.Proofs.Query.Scan
import Biblio.Proofs.Store.Agree

/-!
# What calls leave as it is

Objects are shared: a field may be in several records and several times in one. A query
creates objects but leaves those that exist as they are, also when it fails. Growth changes
the object that it is asked of and no other one. The records that queries answer with are
new and have the very fields of the record that was queried, while a copy of a field is a
field of its own.
-/

namespace Biblio

open Biblio.Action

variable {s t u : Store}

/-! ## Stores that are the same in part -/

namespace Store

variable {F : FieldRef → Prop} {R : RecordRef → Prop}

/-- Whether the existing fields and records of which conditions hold stay as they are. -/
structure SameOn (F : FieldRef → Prop) (R : RecordRef → Prop) (s t : Store) : Prop where
  field : ∀ f, F f → s.HasField f → t.HasField f ∧ t.field f = s.field f
  record : ∀ r, R r → s.HasRecord r → t.HasRecord r ∧ t.record r = s.record r

abbrev Same (s t : Store) : Prop :=
  SameOn (fun _ => True) (fun _ => True) s t

namespace SameOn

theorem refl (s : Store) : SameOn F R s s :=
  ⟨fun _ _ h => ⟨h, rfl⟩, fun _ _ h => ⟨h, rfl⟩⟩

theorem trans (h : SameOn F R s t) (h' : SameOn F R t u) : SameOn F R s u where
  field := by
    intro f hF hf
    obtain ⟨ht, heq⟩ := h.field f hF hf
    obtain ⟨hu, heq'⟩ := h'.field f hF ht
    exact ⟨hu, heq'.trans heq⟩
  record := by
    intro r hR hr
    obtain ⟨ht, heq⟩ := h.record r hR hr
    obtain ⟨hu, heq'⟩ := h'.record r hR ht
    exact ⟨hu, heq'.trans heq⟩

end SameOn

/-- Steps without growth leave everything as it is. -/
theorem Leads.same (h : s.Leads False t) : s.Same t :=
  ⟨fun _ _ hf => ⟨hf.mono h, hf.field_eq h⟩, fun _ _ hr => ⟨hr.mono h, hr.record_eq h⟩⟩

theorem sameOn_withNote? (s : Store) (n : Option Note) : SameOn F R s (s.withNote? n) :=
  ⟨fun _ _ h => ⟨h, rfl⟩, fun _ _ h => ⟨h, rfl⟩⟩

theorem sameOn_withNewField (s : Store) (x : Field) : SameOn F R s (s.withNewField x) :=
  ⟨fun _ _ h => ⟨h.withNewField x, field_withNewField_of_hasField x h⟩, fun _ _ h => ⟨h, rfl⟩⟩

theorem sameOn_withField (s : Store) (f : FieldRef) (g : Field → Field) :
    SameOn (· ≠ f) R s (s.withField f g) where
  field := by
    intro f' hne h
    have hf : ¬(f = f' ∧ s.HasField f') := fun h => hne h.1.symm
    exact ⟨h.withField f g, by rw [field_withField, if_neg hf]⟩
  record := fun _ _ h => ⟨h, rfl⟩

theorem sameOn_withEntry (s : Store) (r : RecordRef) (f : FieldRef) :
    SameOn F (· ≠ r) s (s.withEntry r f) where
  field := fun _ _ h => ⟨h, rfl⟩
  record := by
    intro r' hne h
    have hr : ¬(r = r' ∧ r'.id < s.records.size) := fun h => hne h.1.symm
    exact ⟨h.withEntry r f, by rw [record_withEntry, if_neg hr]⟩

end Store

/-! ## Actions that change little -/

namespace Action

variable {α β : Type} {F : FieldRef → Prop} {R : RecordRef → Prop} {a : Action α}
  {f : α → Action β}

/-- Whether an action leaves, in every store, the fields and records of which conditions
hold as they are, however it ends. -/
def Spares (F : FieldRef → Prop) (R : RecordRef → Prop) (a : Action α) : Prop :=
  ∀ s, Store.SameOn F R s (a.exec s).2

theorem spares_pure (x : α) : (pure x : Action α).Spares F R :=
  fun s => .refl s

theorem spares_throw (e : Fault) : (throw e : Action α).Spares F R :=
  fun s => .refl s

theorem Spares.bind (ha : a.Spares F R) (hf : ∀ x, (f x).Spares F R) : (a >>= f).Spares F R := by
  intro s
  have hs := ha s
  rw [exec_bind]
  rcases hrun : a.exec s with ⟨e | x, t⟩
  · rw [hrun] at hs
    exact hs
  · rw [hrun] at hs
    exact hs.trans (hf x t)

theorem spares_throw_bind (e : Fault) : ((throw e : Action α) >>= f).Spares F R := by
  intro s
  rw [exec_bind, exec_throw]
  exact .refl s

theorem spares_get_bind {f : Store → Action β} (h : ∀ s, (f s).Spares F R) :
    ((get : Action Store) >>= f).Spares F R :=
  Spares.bind (fun s => .refl s) h

theorem spares_parseField (line : String) : (parseField line).Spares F R := by
  intro s
  rw [exec_parseField]
  exact (s.sameOn_withNote? _).trans (Store.sameOn_withNewField _ _)

end Action

/-! ## Growth -/

section Growth

variable {F : FieldRef → Prop} {R : RecordRef → Prop}

theorem Arg.spares_items (v : Arg) : v.items.Spares F R := by
  refine spares_get_bind fun s => ?_
  split
  · exact spares_pure _
  · exact spares_throw _

theorem Arg.spares_pair (v : Arg) : v.pair.Spares F R := by
  refine spares_get_bind fun s => ?_
  split
  · exact spares_throw _
  · exact spares_pure _
  · split <;> exact spares_throw _

namespace FieldRef

variable (f : FieldRef)

theorem spares_append (code value : Arg) : (f.append code value).Spares (· ≠ f) R := by
  unfold append
  split
  · next c =>
    by_cases hc : (!Field.isCodeForm c) = true
    · rw [if_pos hc]
      exact spares_throw_bind _
    · rw [if_neg hc]
      split
      · exact fun s => s.sameOn_withField f _
      · exact spares_throw _
  · exact spares_get_bind fun _ => spares_throw _

theorem spares_extendItems (xs : List Arg) : (f.extendItems xs).Spares (· ≠ f) R := by
  induction xs with
  | nil => exact spares_pure _
  | cons x xs ih => exact x.spares_pair.bind fun _ => (f.spares_append _ _).bind fun _ => ih

/-- Growth of a field changes no other field and no record. -/
theorem spares_extend (data : Arg) : (f.extend data).Spares (· ≠ f) R := by
  unfold extend
  split
  · split
    · exact fun s => s.sameOn_withField f _
    · exact spares_throw _
  · exact (Arg.spares_items _).bind fun xs => f.spares_extendItems xs

end FieldRef

/-- Growth of a record changes no field and no other record. -/
theorem RecordRef.spares_append (r : RecordRef) (v : Arg) : (r.append v).Spares F (· ≠ r) := by
  refine Spares.bind ?_ fun f s => s.sameOn_withEntry r f
  unfold fieldOf
  split
  · exact spares_pure _
  · exact spares_parseField _
  · exact spares_throw _

namespace Request

theorem spares_withArguments {α : Type} {name : String} {parameters : List String}
    {required : Nat} {args : List Arg} {body : (Nat → Arg) → Action α}
    (h : (body fun i => args.getD i .null).Spares F R) :
    (withArguments name parameters required args body).Spares F R := by
  unfold withArguments
  split
  · exact h
  · exact spares_throw _

theorem spares_callField (f : FieldRef) {name : String} (h : Grows name) (args : List Arg) :
    (call (.field f) name args).Spares (· ≠ f) R := by
  have hfield : (Action.field f).Spares (· ≠ f) R := fun s => .refl s
  rcases h with rfl | rfl
  · exact hfield.bind fun _ => spares_withArguments
      ((f.spares_append _ _).bind fun _ => spares_pure _)
  · exact hfield.bind fun _ => spares_withArguments
      ((f.spares_extend _).bind fun _ => spares_pure _)

theorem spares_callRecord (r : RecordRef) (args : List Arg) :
    (call (.record r) "append" args).Spares F (· ≠ r) := by
  have hrecord : (Action.record r).Spares F (· ≠ r) := fun s => .refl s
  exact hrecord.bind fun _ => spares_withArguments
    ((r.spares_append _).bind fun _ => spares_pure _)

end Request

end Growth

/-! ## New objects -/

namespace Store

/-- Whether a record of a later store is new and has fields of a given one only. -/
structure Derived (s : Store) (r q : RecordRef) (t : Store) : Prop where
  isNew : ¬s.HasRecord q
  hasRecord : t.HasRecord q
  fields_subset : (t.record q).fields ⊆ (s.record r).fields

end Store

section Derived

variable {r : RecordRef} (hs : s.IsIndexed) (hr : s.HasRecord r) (hsu : s.Leads False u)

include hs hsu

theorem Action.runs_newRecord_derived {fs : List FieldRef} (hfs : fs ⊆ (s.record r).fields) :
    (newRecord fs).Runs False u fun q t => s.Derived r q t := by
  have hfields : ∀ f ∈ fs, u.HasField f := fun f hf => (hs.hasField r f (hfs hf)).mono hsu
  refine runs_of_exec (exec_newRecord fs u) (fun _ => .single (.newRecord hfields)) fun _ => ?_
  refine ⟨fun h => ?_, u.hasRecord_nextRecord fs, ?_⟩
  · exact Nat.lt_irrefl _ (h.mono hsu)
  · rw [Store.record_withNewRecord, if_pos rfl, Store.fields_gather]
    exact hfs

namespace RecordRef

include hr

theorem runs_filter_derived {ps : List Query.Predicate} (hps : ∀ p ∈ ps, p.Acts False u) :
    (r.filter ps).Runs False u fun q t => s.Derived r q t := by
  refine runs_record_bind fun hu => ?_
  refine (Query.runs_keepFields hps (hu.hasField r)).bind fun fs v huv hfs => ?_
  rw [hr.record_eq hsu] at hfs
  exact runs_newRecord_derived hs (hsu.trans huv) hfs

theorem runs_slice_derived (start stop step : Arg) :
    (r.slice start stop step).Runs False u fun q t => s.Derived r q t := by
  refine (Arg.steps_slice start stop step).bind fun x v huv _ => runs_record_bind fun _ => ?_
  rw [hr.record_eq (hsu.trans huv)]
  exact runs_newRecord_derived hs (hsu.trans huv) fun f hf => x.mem_of_mem_take hf

theorem runs_allMatches_derived (l : Locator) {filters : Arg} (hfilters : filters.IsIn False u) :
    (r.allMatches l filters).Runs False u fun x t => ∀ q, x = .record q → s.Derived r q t := by
  refine (runs_filtersFor l hfilters).bind fun x v huv hx => runs_get_bind fun hv => ?_
  split
  · refine (Query.runs_keepFields hx.1 fun f => Query.hasField_of_mem_matching hv).bind
      fun fs w hvw hfs => ?_
    have hsub : fs ⊆ (s.record r).fields := by
      rw [← hr.record_eq (hsu.trans huv)]
      exact fun f hf => Query.mem_fields_of_mem_matching hv (hfs hf)
    refine (runs_newRecord_derived hs ((hsu.trans huv).trans hvw) hsub).bind
      fun q _ _ hq => runs_pure fun _ => ?_
    rintro _ ⟨⟩
    exact hq
  · exact (Query.steps_collectValues hx.2 _).bind fun _ _ _ _ => runs_pure fun _ _ h => by cases h

theorem runs_all_derived {locator : Arg} (hlocator : locator.IsIn False u) (subfield : Arg)
    {filters : Arg} (hfilters : filters.IsIn False u) :
    (r.all locator subfield filters).Runs False u
      fun x t => ∀ q, x = .record q → s.Derived r q t := by
  have hfilter : ∀ {ps : List Query.Predicate} {v : Store}, u.Leads False v →
      (∀ p ∈ ps, p.Acts False v) → (Value.record <$> r.filter ps : Action Datum).Runs False v
        fun x t => ∀ q, x = .record q → s.Derived r q t := by
    intro ps v huv hps
    refine (runs_filter_derived hs hr (hsu.trans huv) hps).map fun q _ _ _ hq => ?_
    rintro _ ⟨⟩
    exact hq
  unfold all
  split
  · exact (Arg.runs_predicates hfilters).bind fun ps v huv hps => hfilter huv hps
  · split
    · next f hf =>
      refine (Arg.runs_predicates hfilters).bind fun ps v huv hps => hfilter huv ?_
      have hcondition := Arg.acts_condition ((Arg.acts_of_callable? hlocator f hf).mono huv)
      simpa [hcondition] using hps
    · exact (Arg.steps_toLocator locator subfield).bind fun l v huv _ =>
        runs_allMatches_derived hs hr (hsu.trans huv) l (hfilters.mono huv)

theorem runs_query_derived (locator subfield : Arg) {filters : Arg}
    (hfilters : filters.IsIn False u) :
    (r.query locator subfield filters).Runs False u
      fun x t => ∀ q, x.1 = .record q → s.Derived r q t := by
  refine (Arg.steps_toLocator locator subfield).bind fun l v huv _ => ?_
  refine (runs_filtersFor l (hfilters.mono huv)).bind fun x w hvw hx => runs_get_bind fun hw => ?_
  have hsw := (hsu.trans huv).trans hvw
  split
  · refine (Query.runs_evaluateFields hx.1 hw r l).bind fun answer z hwz hanswer => ?_
    rw [hr.record_eq hsw] at hanswer
    cases hfound : answer.outcome with
    | single f =>
        refine runs_pure fun _ q h => ?_
        cases f <;> cases h
    | several fs =>
        rw [hfound] at hanswer
        refine Runs.bind (P := fun x t => ∀ q, x = .record q → s.Derived r q t) ?_
          fun _ _ _ h => runs_pure fun _ => h
        refine (runs_newRecord_derived hs (hsw.trans hwz) hanswer).bind
          fun q _ _ hq => runs_pure fun _ => ?_
        rintro _ ⟨⟩
        exact hq
  · refine (Query.steps_evaluateValues hx.2 _ _ l).bind
      fun answer _ _ _ => runs_pure fun _ q h => ?_
    cases hfound : answer.outcome with
    | single v => cases v <;> simp [valueResult, hfound, Value.ofOption] at h
    | several vs => simp [valueResult, hfound, Value.texts] at h

end RecordRef

end Derived

namespace Request

inductive Answers : String → Datum → RecordRef → Prop
  | all (q : RecordRef) : Answers "all" (.record q) q
  | get (q : RecordRef) (error : Datum) : Answers "get" (.tuple [.record q, error]) q
  | filter (q : RecordRef) : Answers "filter" (.record q) q
  | slice (q : RecordRef) : Answers "slice" (.record q) q

/-- A record that a record is asked for is new and has fields of that one only. -/
theorem derived_of_answers {r : RecordRef} (hs : s.IsIndexed) (hr : s.HasRecord r) {name : String}
    {args : List Arg} (hargs : ∀ v ∈ args, Arg.IsIn False s v) {x : Datum} {q : RecordRef}
    (hx : Answers name x q) (hrun : (call (.record r) name args).exec s = (.ok x, t)) :
    s.Leads False t ∧ s.Derived r q t := by
  have harg := isIn_getD hargs
  have hself : s.Leads False s := .refl s
  have hrecord : ∀ {a : Action RecordRef}, (a.Runs False s fun q t => s.Derived r q t) →
      (Value.record <$> a : Action Datum).Runs False s
        fun x t => ∀ q, x = .record q → s.Derived r q t := by
    intro a ha
    refine ha.map fun p _ _ _ hp => ?_
    rintro _ ⟨⟩
    exact hp
  have hend : ∀ {Q : Datum → Store → Prop}, (call (.record r) name args).Runs False s Q →
      s.Leads False t ∧ Q x t := fun h => h.of_exec_eq_ok hs hrun
  cases hx with
  | all =>
      obtain ⟨hst, h⟩ := hend (runs_record_bind fun _ => runs_withArguments
        (RecordRef.runs_all_derived hs hr hself (harg 0) _ (harg 2)))
      exact ⟨hst, h q rfl⟩
  | get _ error =>
      obtain ⟨hst, h⟩ := hend
        (Q := fun x t => ∀ q error, x = .tuple [.record q, error] → s.Derived r q t)
        (runs_record_bind fun _ => runs_withArguments
          ((RecordRef.runs_query_derived hs hr hself _ _ (harg 2)).bind fun y _ _ hy =>
            runs_pure fun _ q error h => hy q (List.cons.inj (Value.tuple.inj h)).1))
      exact ⟨hst, h q error rfl⟩
  | filter =>
      have hps : ∀ p ∈ args.map Arg.attempt, Query.Predicate.Acts False s p := by
        intro p hp
        obtain ⟨v, hv, rfl⟩ := List.mem_map.mp hp
        exact Arg.acts_attempt (hargs v hv)
      obtain ⟨hst, h⟩ := hend (runs_record_bind fun _ =>
        hrecord (RecordRef.runs_filter_derived hs hr hself hps))
      exact ⟨hst, h q rfl⟩
  | slice =>
      obtain ⟨hst, h⟩ := hend (runs_record_bind fun _ => runs_withArguments (hrecord (by
        split <;> exact RecordRef.runs_slice_derived hs hr hself _ _ _)))
      exact ⟨hst, h q rfl⟩

/-- A field that a field is asked for is new. -/
theorem isNew_of_copy {f g : FieldRef} (hs : s.IsIndexed) {args : List Arg}
    (hrun : (call (.field f) "copy" args).exec s = (.ok (.field g), t)) :
    s.Leads False t ∧ ¬s.HasField g ∧ t.HasField g := by
  have h : (call (.field f) "copy" args).Runs False s
      fun x t => ∀ g, x = .field g → ¬s.HasField g ∧ t.HasField g := by
    refine runs_field_bind (runs_withArguments ((f.runs_copy _ _).map fun g _ _ _ hg => ?_))
    rintro _ ⟨⟩
    exact hg
  obtain ⟨hst, hnew⟩ := h.of_exec_eq_ok hs hrun
  exact ⟨hst, hnew g rfl⟩

end Request

namespace Store

/-- In a store whose records are indexed, as they are in every reachable one: a call that
is not there to grow anything leaves all that exists as it is, however it ends, if its
callbacks grow nothing; a record that a query answers with is new and has the very fields
of the record that was queried, which no growth of the new record changes; a copy and its
original never change with each other; and growth of a field changes no other field and no
record. -/
theorem IsIndexed.mutation_local (hs : s.IsIndexed) :
    (∀ (x : Datum) (name : String) (args : List Arg), x.IsIn s → ¬Request.Grows name →
        (∀ v ∈ args, Arg.IsIn False s v) → s.Same ((Request.call x name args).exec s).2) ∧
      (∀ (r q : RecordRef) (name : String) (args : List Arg) (x : Datum) (t : Store),
        s.HasRecord r → (∀ v ∈ args, Arg.IsIn False s v) → Request.Answers name x q →
        (Request.call (.record r) name args).exec s = (.ok x, t) →
        s.Derived r q t ∧ ∀ u, t.Leads True u → ∀ more : List Arg,
          ((Request.call (.record q) "append" more).exec u).2.record r = u.record r) ∧
      (∀ (f g : FieldRef) (args : List Arg) (t : Store), s.HasField f →
        (Request.call (.field f) "copy" args).exec s = (.ok (.field g), t) →
        ¬s.HasField g ∧ ∀ u, t.Leads True u → ∀ name, Request.Grows name → ∀ more : List Arg,
          ((Request.call (.field g) name more).exec u).2.field f = u.field f ∧
            ((Request.call (.field f) name more).exec u).2.field g = u.field g) ∧
      ∀ (f : FieldRef) (name : String) (args : List Arg), Request.Grows name →
        SameOn (· ≠ f) (fun _ => True) s ((Request.call (.field f) name args).exec s).2 := by
  refine ⟨?_, ?_, ?_, ?_⟩
  · intro x name args hx hname hargs
    exact (Request.runs_call hx (fun h => absurd h hname) hargs hs).1.same
  · intro r q name args x t hr hargs hx hrun
    obtain ⟨hst, hq⟩ := Request.derived_of_answers hs hr hargs hx hrun
    refine ⟨hq, fun u htu more => ?_⟩
    have hne : r ≠ q := by
      rintro rfl
      exact hq.isNew hr
    have hgrowth := Request.spares_callRecord (F := fun _ => True) q more u
    exact (hgrowth.record r hne ((hr.mono hst).mono htu)).2
  · intro f g args t hf hrun
    obtain ⟨hst, hnew, hg⟩ := Request.isNew_of_copy hs hrun
    refine ⟨hnew, fun u htu name hname more => ?_⟩
    have hne : f ≠ g := by
      rintro rfl
      exact hnew hf
    have hcopy := Request.spares_callField (R := fun _ => True) g hname more u
    have hown := Request.spares_callField (R := fun _ => True) f hname more u
    exact ⟨(hcopy.field f hne ((hf.mono hst).mono htu)).2, (hown.field g hne.symm (hg.mono htu)).2⟩
  · exact fun f name args hname => Request.spares_callField f hname args s

theorem mutation_local_people :
    people.IsIndexed ∧
      people.Same ((Request.call (.record ⟨0⟩) "filter"
        [.callback (Builtin.tagStarts "028A").call, .int 1]).exec people).2 ∧
      (∃ q t, (Request.call (.record ⟨0⟩) "slice" [.int 1]).exec people = (.ok (.record q), t) ∧
        people.Derived ⟨0⟩ q t ∧
        ((Request.call (.record q) "append" [.text "003@ $0x"]).exec t).2.record ⟨0⟩ =
          t.record ⟨0⟩) ∧
      (∃ g t, (Request.call (.field ⟨0⟩) "copy" []).exec people = (.ok (.field g), t) ∧
        ((Request.call (.field g) "append" [.text "a", .text "Max"]).exec t).2.field ⟨0⟩ =
          t.field ⟨0⟩) ∧
      SameOn (· ≠ ⟨0⟩) (fun _ => True) people
        ((Request.call (.field ⟨0⟩) "append" [.text "a", .text "Max"]).exec people).2 := by
  have hs := reachable_people.isIndexed
  have hint : Arg.IsIn False people (.int 1) := trivial
  have hstarts : Arg.IsIn False people (.callback (Builtin.tagStarts "028A").call) :=
    Builtin.acts_call _
  obtain ⟨hsame, hderived, hcopy, hgrow⟩ := hs.mutation_local
  refine ⟨hs, hsame _ _ _ trivial (by decide) (by simp [hint, hstarts]), ?_, ?_,
    hgrow _ _ _ (by decide)⟩
  · have hrun : (Request.call (.record ⟨0⟩) "slice" [.int 1]).exec people =
        (.ok (.record ⟨1⟩), people.withNewRecord [⟨0⟩]) := by rfl
    obtain ⟨hnew, hlater⟩ := hderived ⟨0⟩ ⟨1⟩ _ _ _ _ (by decide) (by simp [hint]) (.slice _) hrun
    exact ⟨_, _, hrun, hnew, hlater _ (.refl _) _⟩
  · have hrun : (Request.call (.field ⟨0⟩) "copy" []).exec people =
        (.ok (.field ⟨2⟩), people.withNewField (people.field ⟨0⟩)) := by rfl
    obtain ⟨-, hlater⟩ := hcopy ⟨0⟩ ⟨2⟩ _ _ (by decide) hrun
    exact ⟨_, _, hrun, (hlater _ (.refl _) "append" (by decide) _).1⟩

end Store

end Biblio
