import Biblio.Proofs.Locator.Write
import Biblio.Proofs.Query.Steady
import Biblio.Proofs.Query.Success

/-!
# What queries read

Before a query looks at a record it reads its arguments: the plan, and the filters as the plan
asks for them. All that is wrong with arguments shows there, also if no field matches. So a
query of any record fails as the reading of its arguments does, if the conditions and the steps
that are read serve.
-/

namespace Biblio

open Biblio.Action

variable {x : References} {s t : Store}

/-! ## Plans that are read -/

namespace Locator

variable {l : Locator}

/-- Whether a plan is one that a text writes, possibly with a separate selector. -/
def IsParsed (l : Locator) : Prop :=
  ∃ text subfield, parse text subfield = .ok l

theorem IsParsed.subfield_ne_none (h : l.IsParsed) (hvalue : l.wantField = false) :
    ∀ a ∈ l.alternatives, a.subfield ≠ none := by
  obtain ⟨_, _, hparse⟩ := h
  exact (wellFormed_of_parse hparse).values hvalue

theorem IsParsed.refine (h : l.IsParsed) {subfield : Option String} {m : Locator}
    (hm : l.refine subfield = .ok m) : m.IsParsed := by
  unfold Locator.refine at hm
  split at hm
  · obtain rfl := Except.ok.inj hm
    exact h
  · split at hm
    · exact ⟨_, _, hm⟩
    · cases hm

end Locator

namespace Action

variable {α β : Type}

theorem exec_ofExcept_eq_ok {ε : Type} {fault : ε → Fault} {e : Except ε α} {y : α}
    (h : (ofExcept fault e).exec s = (.ok y, t)) : e = .ok y := by
  cases e with
  | error e => cases h
  | ok z => exact congrArg Except.ok (exec_pure_eq_ok h).1

theorem seesAlike_checkKey {φ : Type} (v : Value φ) : (checkKey v).SeesAlike s t := by
  unfold checkKey
  cases v.unhashable? with
  | none => exact seesAlike_pure ()
  | some type => exact seesAlike_throw _

end Action

namespace Arg

variable {v : Arg}

/-- What is read as a plan is one that a text writes, if a plan that is given is one. -/
theorem isParsed_of_toLocator {locator subfield : Arg} {l : Locator}
    (hlocator : ∀ l, locator = .locator l → l.IsParsed)
    (h : (toLocator locator subfield).exec s = (.ok l, t)) : l.IsParsed := by
  have hparsed : ∀ {v : Arg} {part : Option String},
      (parsed v part).exec s = (.ok l, t) → l.IsParsed := by
    intro v part h
    unfold parsed at h
    split at h
    · exact ⟨_, _, exec_ofExcept_eq_ok h⟩
    · obtain ⟨_, _, -, h⟩ := exec_bind_eq_ok h
      cases h
  unfold toLocator at h
  split at h
  · next m =>
    have hm := hlocator m rfl
    unfold refined at h
    split at h
    · exact hm.refine (exec_ofExcept_eq_ok h)
    · exact hm.refine (exec_ofExcept_eq_ok h)
    · -- A selector that is no text is refused, whatever the plan is.
      rw [exec_get_bind] at h
      dsimp only at h
      split at h
      · obtain ⟨_, _, hthrow, -⟩ := exec_bind_eq_ok h
        cases hthrow
      · obtain ⟨_, _, -, h⟩ := exec_bind_eq_ok h
        obtain ⟨plan, _, -, h⟩ := exec_bind_eq_ok h
        split at h <;> cases h
  · split at h
    · exact hparsed h
    · exact hparsed h
    · cases h

theorem seesAlike_toLocator (locator : Arg) {subfield : Arg}
    (h : t.shown subfield = s.shown subfield) : (toLocator locator subfield).SeesAlike s t := by
  have hparsed : ∀ (v : Arg) (part : Option String), (parsed v part).SeesAlike s t := by
    intro v part
    unfold parsed
    split
    · exact seesAlike_ofExcept _ _
    · exact (seesAlike_checkKey _).bind fun _ _ => seesAlike_throw _
  unfold toLocator
  split
  · next l =>
    unfold refined
    split
    · exact seesAlike_ofExcept _ _
    · exact seesAlike_ofExcept _ _
    · refine seesAlike_get_bind (by rw [h]) ?_
      dsimp only
      split
      · exact seesAlike_throw_bind _
      · refine (seesAlike_checkKey _).bind fun _ _ => (seesAlike_ofExcept _ _).bind fun _ _ => ?_
        split <;> exact seesAlike_throw _
  · split
    · exact hparsed _ _
    · exact hparsed _ _
    · exact seesAlike_throw _

/-! ## Filters that are read -/

/-- Whether an argument reads alike in two stores: it has the same items, they show alike, and
it gives the same chain. -/
structure ReadsAlike (s t : Store) (v : Arg) : Prop where
  items : t.items? v = s.items? v
  shown : ∀ ys, s.items? v = some ys → ∀ y ∈ ys, t.shown y = s.shown y
  chain : Chain.build t v = Chain.build s v

theorem readsAlike_self (s : Store) (v : Arg) : v.ReadsAlike s s :=
  ⟨rfl, fun _ _ _ _ => rfl, rfl⟩

/-- What an argument refers to is the same while it is spared, and so it reads alike. -/
theorem readsAlike_of_isWithin (hx : x.ExistIn s) (hst : s.LeadsSparing x t)
    (hv : v.IsWithin x) : v.ReadsAlike s t where
  items := hv.items?_eq (fun _ => hx.field_eq hst) fun _ => hx.record_eq hst
  shown := fun _ hys y hy =>
    (Store.shown_eq (hx.twinValues hst (hv.of_items? hx.fields hys y hy))).symm
  chain := (Chain.build_eq (hx.twinValues hst hv)).symm

theorem seesAlike_items (h : t.items? v = s.items? v) : v.items.SeesAlike s t := by
  refine seesAlike_get_bind (by rw [h]) ?_
  cases s.items? v with
  | none => exact seesAlike_throw _
  | some ys => exact seesAlike_pure ys

theorem exec_items_eq_ok {ys : List Arg} (h : v.items.exec s = (.ok ys, t)) :
    s.items? v = some ys := by
  rw [items, exec_get_bind] at h
  split at h
  · next zs hzs => rw [hzs, (exec_pure_eq_ok h).1]
  · cases h

theorem seesAlike_predicate (h : t.shown v = s.shown v) : v.predicate.SeesAlike s t := by
  unfold predicate
  split
  · exact seesAlike_pure _
  · exact seesAlike_get_bind (by rw [h]) (seesAlike_throw _)

theorem ReadsAlike.predicates (h : v.ReadsAlike s t) : v.predicates.SeesAlike s t := by
  unfold Arg.predicates
  split
  · exact seesAlike_pure []
  · split
    · exact seesAlike_pure _
    · refine (seesAlike_items h.items).bind fun ys hys => seesAlike_mapM fun y hy => ?_
      exact seesAlike_predicate (h.shown ys (exec_items_eq_ok hys) y hy)

theorem ReadsAlike.ofArg (h : v.ReadsAlike s t) : (Chain.ofArg v).SeesAlike s t :=
  seesAlike_get_bind (by rw [h.chain]) (seesAlike_ofExcept _ _)

theorem ReadsAlike.filtersFor (h : v.ReadsAlike s t) (l : Locator) :
    (RecordRef.filtersFor l v).SeesAlike s t := by
  unfold RecordRef.filtersFor
  split
  · exact h.predicates.bind fun _ _ => seesAlike_pure _
  · exact h.ofArg.bind fun _ _ => seesAlike_pure _

/-! ## Filters that serve -/

def ServesFields (x : References) (s : Store) (filters : Arg) : Prop :=
  ∀ ps, filters.predicates.exec s = (.ok ps, s) → ∀ p ∈ ps, Query.Predicate.Serves x s p

def ServesTexts (x : References) (s : Store) (filters : Arg) : Prop :=
  ∀ c, Chain.build s filters = .ok c → Chain.Serves x s c

/-- Whether filters serve as far as a plan asks for them: as conditions on fields, or as steps
for values. -/
structure ServesFor (x : References) (s : Store) (l : Locator) (filters : Arg) : Prop where
  fields : l.wantField = true → filters.ServesFields x s
  texts : l.wantField = false → filters.ServesTexts x s

theorem servesFields_null : Arg.ServesFields x s .null := by
  intro ps hps
  obtain ⟨rfl, -⟩ := exec_pure_eq_ok hps
  simp

theorem servesFor_null (l : Locator) : Arg.ServesFor x s l .null where
  fields := fun _ => servesFields_null
  texts := by
    rintro _ _ ⟨⟩
    simp [Chain.Serves]

theorem ServesFor.filtersFor {l : Locator} {filters : Arg} (h : filters.ServesFor x s l)
    {ps : List Query.Predicate} {v : Query.Sieve}
    (hread : (RecordRef.filtersFor l filters).exec s = (.ok (ps, v), s)) :
    (∀ p ∈ ps, p.Serves x s) ∧ v.Serves x s := by
  unfold RecordRef.filtersFor at hread
  split at hread
  · next hfield =>
    obtain ⟨qs, u, hqs, hread⟩ := exec_bind_eq_ok hread
    obtain ⟨⟨⟩, rfl⟩ := exec_pure_eq_ok hread
    exact ⟨h.fields hfield _ hqs, Query.serves_pass⟩
  · next hvalue =>
    obtain ⟨c, u, hc, hread⟩ := exec_bind_eq_ok hread
    obtain ⟨⟨⟩, rfl⟩ := exec_pure_eq_ok hread
    rw [Chain.ofArg, exec_get_bind] at hc
    exact ⟨by simp, Chain.serves_sieve (h.texts (by simpa using hvalue) c (exec_ofExcept_eq_ok hc))⟩

end Arg

/-! ## Queries -/

namespace RecordRef

variable {r : RecordRef} {l : Locator} {locator subfield filters : Arg}

/-- What a query reads of its arguments: a plan, and the conditions on fields and the sieve of
values that filters give for it. -/
def reading (locator subfield filters : Arg) : Action (List Query.Predicate × Query.Sieve) := do
  filtersFor (← Arg.toLocator locator subfield) filters

/-- Whether an argument stands for no plan: it is missing, or it is a condition itself. -/
def isNoPlan (locator : Arg) : Bool :=
  locator.isNull || (Chain.callable? locator).isSome

/-- What a query for all matches reads: conditions only, if there is no plan. -/
def readingAll (locator subfield filters : Arg) : Action (List Query.Predicate × Query.Sieve) := do
  if isNoPlan locator then return (← filters.predicates, .pass)
  else reading locator subfield filters

theorem succeeds_fieldResult {answer : Query.Outcome FieldRef}
    (h : ∀ f ∈ answer.toList, s.HasField f) :
    (fieldResult answer).Succeeds x s fun _ _ => True := by
  cases answer with
  | single f => exact succeeds_pure trivial
  | several fs => exact (succeeds_newRecord h).bind fun _ _ _ _ => succeeds_pure trivial

section

variable (hst : s.LeadsSparing x t) (ht : t.IsIndexed) (hl : l.IsParsed)
  (hread : filters.ReadsAlike s t) (hfilters : filters.ServesFor x s l)
include hst ht hl hread hfilters

theorem failsAs_evaluate :
    FailsAs x s t (filtersFor l filters) (r.evaluate l filters) := by
  refine (hread.filtersFor l).failsAs_bind (Q := fun _ _ => True) fun y hy => ?_
  obtain ⟨ps, v⟩ := y
  obtain ⟨hps, hv⟩ := hfilters.filtersFor hy
  refine succeeds_get_bind ?_
  dsimp only
  split
  · refine (Query.succeeds_evaluateFields (fun p hp => (hps p hp).mono hst) ht r l).bind
      fun answer u _ hanswer => ?_
    exact (succeeds_fieldResult hanswer).bind fun _ _ _ _ => succeeds_pure trivial
  · next hvalue =>
    exact (Query.succeeds_evaluateValues (hv.mono hst) t _
      (hl.subfield_ne_none (by simpa using hvalue))).bind fun _ _ _ _ => succeeds_pure trivial

theorem failsAs_allMatches :
    FailsAs x s t (filtersFor l filters) (r.allMatches l filters) := by
  refine (hread.filtersFor l).failsAs_bind (Q := fun _ _ => True) fun y hy => ?_
  obtain ⟨ps, v⟩ := y
  obtain ⟨hps, hv⟩ := hfilters.filtersFor hy
  refine succeeds_get_bind ?_
  dsimp only
  split
  · refine (Query.succeeds_keepFields (fun p hp => (hps p hp).mono hst)
      fun f => Query.hasField_of_mem_matching ht).bind fun fs u _ hfs => ?_
    exact (succeeds_newRecord hfs).bind fun _ _ _ _ => succeeds_pure trivial
  · next hvalue =>
    have hsel := hl.subfield_ne_none (by simpa using hvalue)
    exact (Query.succeeds_collectValues (hv.mono hst)
      (Query.subfield_ne_none_of_mem_matching t _ hsel)).bind fun _ _ _ _ => succeeds_pure trivial

end

section

variable (hst : s.LeadsSparing x t) (ht : t.IsIndexed)
  (hlocator : ∀ l, locator = .locator l → l.IsParsed)
  (hsubfield : t.shown subfield = s.shown subfield) (hread : filters.ReadsAlike s t)
  (hfilters : ∀ l, (Arg.toLocator locator subfield).exec s = (.ok l, s) → filters.ServesFor x s l)
include hst ht hlocator hsubfield hread hfilters

theorem failsAs_query :
    FailsAs x s t (reading locator subfield filters) (r.query locator subfield filters) :=
  (Arg.seesAlike_toLocator locator hsubfield).bind_failsAs fun l hl =>
    failsAs_evaluate hst ht (Arg.isParsed_of_toLocator hlocator hl) hread (hfilters l hl)

theorem failsAs_first :
    FailsAs x s t (reading locator subfield filters) (r.first locator subfield filters) := by
  refine (Arg.seesAlike_toLocator locator hsubfield).bind_failsAs fun l hl => ?_
  refine (hread.filtersFor l).failsAs_bind (Q := fun _ _ => True) fun y hy => ?_
  obtain ⟨hps, hv⟩ := (hfilters l hl).filtersFor hy
  exact succeeds_firstMatch ht (fun p hp => (hps p hp).mono hst) (hv.mono hst)
    (Arg.isParsed_of_toLocator hlocator hl).subfield_ne_none

/-- In place of a plan there may be a condition, or nothing. -/
theorem failsAs_all (hscan : isNoPlan locator = true → filters.ServesFields x s)
    (hcondition : ∀ c, Chain.callable? locator = some c → c.ServesFields x s) :
    FailsAs x s t (readingAll locator subfield filters) (r.all locator subfield filters) := by
  have hfilter : ∀ {ps : List Query.Predicate}, (∀ p ∈ ps, p.Serves x s) →
      ((do return .record (← r.filter ps)) : Action Datum).Succeeds x t fun _ _ => True :=
    fun hps => (succeeds_filter ht fun p hp => (hps p hp).mono hst).bind fun _ _ _ _ =>
      succeeds_pure trivial
  have hconditions : ∀ {f : List Query.Predicate → Action Datum},
      (∀ ps, filters.predicates.exec s = (.ok ps, s) → (f ps).Succeeds x t fun _ _ => True) →
      FailsAs x s t (do return (← filters.predicates, Query.Sieve.pass))
        (filters.predicates >>= f) :=
    fun hf => hread.predicates.bind_failsAs fun ps hps => (hf ps hps).failsAs _
  unfold readingAll all
  cases hnull : locator.isNull with
  | true =>
      have hscan := hscan (by rw [isNoPlan, hnull, Bool.true_or])
      rw [isNoPlan, hnull, Bool.true_or, if_pos rfl, if_pos rfl]
      exact hconditions fun ps hps => hfilter (hscan ps hps)
  | false =>
      rw [if_neg Bool.false_ne_true]
      cases hcall : Chain.callable? locator with
      | some c =>
          have hscan := hscan (by rw [isNoPlan, hcall, Option.isSome_some, Bool.or_true])
          rw [isNoPlan, hcall, Option.isSome_some, Bool.or_true, if_pos rfl]
          refine hconditions fun ps hps => hfilter ?_
          simpa [Arg.serves_condition (hcondition c hcall)] using hscan ps hps
      | none =>
          rw [isNoPlan, hnull, hcall]
          exact (Arg.seesAlike_toLocator locator hsubfield).bind_failsAs fun l hl =>
            failsAs_allMatches hst ht (Arg.isParsed_of_toLocator hlocator hl) hread (hfilters l hl)

end

theorem failsAs_has (hst : s.LeadsSparing x t) (ht : t.IsIndexed)
    (hlocator : ∀ l, locator = .locator l → l.IsParsed)
    (hsubfield : t.shown subfield = s.shown subfield) :
    FailsAs x s t (reading locator subfield .null) (r.has locator subfield) := by
  have hread : Arg.ReadsAlike s t .null := ⟨rfl, nofun, rfl⟩
  have hfirst := failsAs_first (r := r) hst ht hlocator hsubfield hread
    fun l _ => Arg.servesFor_null l
  exact hfirst.bind_succeeds (Q := fun _ _ => True) fun _ _ _ => succeeds_pure trivial

end RecordRef

end Biblio
