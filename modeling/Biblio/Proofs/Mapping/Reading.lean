import Biblio.Proofs.Mapping.Pointwise
import Biblio.Proofs.Query.First
import Biblio.Proofs.Query.Reading

/-!
# What mappings read

A mapping reads its entries one after the other: an entry has to be a query that can be read,
or something that can be called. What a call raises is kept as an error. So a mapping fails as
the reading of its entries does, on whatever record it is run, if the calls in it spare the
objects that the mapping refers to. A call that lets one of these grow may spoil an entry
behind it.
-/

namespace Biblio

open Biblio.Action

variable {x : References} {s t : Store}

namespace Mapping

/-! ## Entries that are read -/

def isQuery : Arg → Bool
  | .text _ | .list _ | .tuple _ | .subfield _ => true
  | _ => false

def queryReading (entry : Arg) : Action (List Query.Predicate × Query.Sieve) := do
  let q ← recordQuery entry
  RecordRef.reading (.text q.locator) q.subfield q.filters

def readEntry (key entry : Arg) : Action Unit := do
  if isQuery entry then
    let _ ← queryReading entry
  else if (Chain.callable? entry).isNone then
    let s ← get
    throw (.argument (.query (s.shown key) (s.shown entry)))

def reading (mapping : Arg) : Action Unit := do
  (← entries mapping).forM fun e => readEntry e.1 e.2

/-- Whether an entry refers to certain objects only, the filters of its query serve, and its
calls with a record spare the objects, also if they fail. -/
structure ServesEntry (x : References) (s : Store) (r : RecordRef) (e : Arg × Arg) : Prop where
  key : e.1.IsWithin x
  entry : e.2.IsWithin x
  filters : isQuery e.2 = true → ∀ q l, (recordQuery e.2).exec s = (.ok q, s) →
    (Arg.toLocator (.text q.locator) q.subfield).exec s = (.ok l, s) → q.filters.ServesFor x s l
  callback : ∀ c, Chain.callable? e.2 = some c → ∀ t, s.LeadsSparing x t →
    t.LeadsSparing x ((c (.record r)).exec t).2

theorem isInherited_isWithin : IsInherited (Value.IsWithin x) where
  null := .atom trivial
  text := Value.isWithin_text
  list := fun _ h => Value.isWithin_list.mpr h

/-- A fault of a callback is kept as an error, and what it did before it is part of the
mapping. -/
theorem succeeds_guarded {c : Callback} {target : Datum}
    (h : s.LeadsSparing x ((c target).exec s).2) (key : Arg) :
    (guarded key c target).Succeeds x s fun _ _ => True := by
  rw [Succeeds, exec_guarded]
  rcases hrun : (c target).exec s with ⟨fault | v, t⟩
  · rw [hrun] at h
    exact ⟨_, _, rfl, h.trans (Store.Leads.sparing (.single (.note t _))), trivial⟩
  · rw [hrun] at h
    exact ⟨_, _, rfl, h, trivial⟩

theorem answer_of_isQuery {target : Datum} {resolve : Resolver} {entry : Arg}
    (h : isQuery entry = true) (key : Arg) :
    answer target resolve key entry =
      resolve entry >>= fun y => pure (y.1, y.2.map Value.error) := by
  cases entry with
  | text | list | tuple | subfield => rfl
  | _ => cases h

theorem answer_of_not_callable {target : Datum} {resolve : Resolver} {entry : Arg}
    (h : isQuery entry = false) (hcall : Chain.callable? entry = none) (key : Arg) :
    answer target resolve key entry =
      get >>= fun s => throw (.argument (.query (s.shown key) (s.shown entry))) := by
  cases entry with
  | text | list | tuple | subfield => cases h
  | callback | step => cases hcall
  | _ => rfl

section

variable {r : RecordRef} (hs : s.IsIndexed) (hx : x.ExistIn s) (hst : s.LeadsSparing x t)
include hx hst

theorem seesAlike_recordQuery {entry : Arg} (hentry : entry.IsWithin x) :
    (recordQuery entry).SeesAlike s t := by
  unfold recordQuery
  split
  · exact seesAlike_pure _
  · refine (Arg.seesAlike_items (Arg.readsAlike_of_isWithin hx hst hentry).items).bind
      fun ys _ => ?_
    split
    · exact seesAlike_pure _
    · have hshown := Store.shown_eq (hx.twinValues hst hentry)
      exact seesAlike_get_bind (by rw [hshown]) (seesAlike_throw _)

omit hst in
/-- A query refers to what its entry refers to. -/
theorem isWithin_of_recordQuery {entry : Arg} (hentry : entry.IsWithin x) {q : RecordQuery}
    (h : (recordQuery entry).exec s = (.ok q, t)) :
    q.subfield.IsWithin x ∧ q.filters.IsWithin x := by
  unfold recordQuery at h
  split at h
  · obtain ⟨rfl, -⟩ := exec_pure_eq_ok h
    exact ⟨.atom trivial, .atom trivial⟩
  · obtain ⟨ys, u, hys, h⟩ := exec_bind_eq_ok h
    have hwithin := hentry.of_items? hx.fields (Arg.exec_items_eq_ok hys)
    split at h
    · next p hp =>
      obtain ⟨rfl, -⟩ := exec_pure_eq_ok h
      exact isInherited_isWithin.recordQuery? hwithin hp
    · rw [exec_get_bind] at h
      cases h

include hs

theorem failsAs_answer {key entry : Arg} (he : ServesEntry x s r (key, entry)) :
    FailsAs x s t (readEntry key entry) (answer (.record r) r.resolve key entry) := by
  unfold readEntry
  cases hquery : isQuery entry with
  | true =>
      rw [if_pos rfl, answer_of_isQuery hquery]
      have hresolve : FailsAs x s t (queryReading entry) (r.resolve entry) := by
        refine (seesAlike_recordQuery hx hst he.entry).bind_failsAs fun q hq => ?_
        obtain ⟨hsubfield, hfilters⟩ := isWithin_of_recordQuery hx he.entry hq
        exact RecordRef.failsAs_query hst (hs.mono hst.leads) nofun
          (Store.shown_eq (hx.twinValues hst hsubfield)).symm
          (Arg.readsAlike_of_isWithin hx hst hfilters) fun l hl => he.filters hquery q l hq hl
      exact hresolve.bind fun _ y u _ =>
        (succeeds_pure (Q := fun _ _ => True) trivial).failsAs ()
  | false =>
      rw [if_neg Bool.false_ne_true]
      cases hcall : Chain.callable? entry with
      | some c =>
          rw [answer_of_callable hcall]
          exact (succeeds_guarded (he.callback c hcall t hst) key).failsAs ()
      | none =>
          rw [answer_of_not_callable hquery hcall]
          have hkey := Store.shown_eq (hx.twinValues hst he.key)
          have hentry := Store.shown_eq (hx.twinValues hst he.entry)
          exact .fault (u := t) rfl (by rw [exec_get_bind, hkey, hentry, exec_throw])

/-- Each entry is read alike in the store that the entries in front of it leave. -/
theorem failsAs_collect {es : List (Arg × Arg)} (hes : ∀ e ∈ es, ServesEntry x s r e) :
    FailsAs x s t (es.forM fun e => readEntry e.1 e.2) (collect (.record r) r.resolve es) := by
  induction es generalizing t with
  | nil => exact (succeeds_pure (Q := fun _ _ => True) trivial).failsAs ()
  | cons e es ih =>
      obtain ⟨key, entry⟩ := e
      rw [List.forM_eq_forM, List.forM_cons]
      refine (failsAs_answer hs hx hst (hes (key, entry) (by simp))).bind fun _ y u htu => ?_
      have hrest := ih (hst.trans htu) fun d hd => hes d (by simp [hd])
      refine failsAs_get_bind (hrest.bind_succeeds (Q := fun _ _ => True) fun _ _ _ => ?_)
      exact succeeds_pure trivial

theorem failsAs_map (mapping : Arg)
    (hmapping : ∀ es, mapping = .table es → ∀ e ∈ es, ServesEntry x s r e) :
    FailsAs x s t (reading mapping) (r.map mapping) := by
  have hentries : (entries mapping).SeesAlike s t := by
    unfold entries
    split
    · exact seesAlike_pure _
    · exact seesAlike_throw _
  refine hentries.bind_failsAs fun es hes => failsAs_collect hs hx hst (hmapping es ?_)
  unfold entries at hes
  split at hes
  · rw [(exec_pure_eq_ok hes).1]
  · cases hes

end

end Mapping

namespace Store

open Mapping

/-- Whether a query fails depends on its arguments and not on the record. In a reachable store
it fails on two records alike, if a plan that is given comes from a text, and if the conditions
or the steps that its filters are read as give an answer whenever they are asked. Where the
arguments can be read, a query for a result with its error gives one, whatever the record
holds. Mappings fail alike too, if they let nothing grow that they refer to. -/
theorem Reachable.fails_alike (h : s.Reachable) (r q : RecordRef) :
    (∀ locator subfield filters : Arg, (∀ l, locator = .locator l → l.IsParsed) →
      (∀ l, (Arg.toLocator locator subfield).exec s = (.ok l, s) → filters.ServesFor ∅ s l) →
      (r.first locator subfield filters).fault? s = (q.first locator subfield filters).fault? s ∧
      (r.query locator subfield filters).fault? s = (q.query locator subfield filters).fault? s ∧
      (∀ y, (RecordRef.reading locator subfield filters).exec s = (.ok y, s) →
        ∃ d t, (r.query locator subfield filters).exec s = (.ok d, t)) ∧
      ((RecordRef.isNoPlan locator = true → filters.ServesFields ∅ s) →
        (∀ c, Chain.callable? locator = some c → c.ServesFields ∅ s) →
        (r.all locator subfield filters).fault? s = (q.all locator subfield filters).fault? s)) ∧
    (∀ locator subfield : Arg, (∀ l, locator = .locator l → l.IsParsed) →
      (r.has locator subfield).fault? s = (q.has locator subfield).fault? s) ∧
    ∀ (mapping : Arg) (x : References), x.ExistIn s →
      (∀ es, mapping = .table es → ∀ e ∈ es, ServesEntry x s r e ∧ ServesEntry x s q e) →
      (r.map mapping).fault? s = (q.map mapping).fault? s := by
  have hs := h.isIndexed
  have hself : s.LeadsSparing ∅ s := .refl ∅ s
  refine ⟨?_, ?_, ?_⟩
  · intro locator subfield filters hlocator hfilters
    have hread := filters.readsAlike_self s
    have hfirst := fun r : RecordRef =>
      RecordRef.failsAs_first (r := r) hself hs hlocator rfl hread hfilters
    have hquery := fun r : RecordRef =>
      RecordRef.failsAs_query (r := r) hself hs hlocator rfl hread hfilters
    refine ⟨?_, ?_, fun y hy => (hquery r).exists_value hy, fun hscan hcondition => ?_⟩
    · rw [(hfirst r).fault?_eq, (hfirst q).fault?_eq]
    · rw [(hquery r).fault?_eq, (hquery q).fault?_eq]
    · have hall := fun r : RecordRef =>
        RecordRef.failsAs_all (r := r) hself hs hlocator rfl hread hfilters hscan hcondition
      rw [(hall r).fault?_eq, (hall q).fault?_eq]
  · intro locator subfield hlocator
    have hhas : ∀ r : RecordRef,
        FailsAs ∅ s s (RecordRef.reading locator subfield .null) (r.has locator subfield) :=
      fun _ => RecordRef.failsAs_has hself hs hlocator rfl
    rw [(hhas r).fault?_eq, (hhas q).fault?_eq]
  · intro mapping x hx hmapping
    have hfirst := failsAs_map hs hx (.refl x s) mapping
      fun es hes e he => (hmapping es hes e he).1
    have hsecond := failsAs_map hs hx (.refl x s) mapping
      fun es hes e he => (hmapping es hes e he).2
    rw [hfirst.fault?_eq, hsecond.fault?_eq]

def faulty : List (Arg × Arg) :=
  [(.text "names", .list [.text "028C", .text "a", .callback (Builtin.suffix ".").call]),
    (.text "broken", .callback (Builtin.raise .value "no").call), (.text "checked", .bool true)]

theorem servesFor_suffix {x : References} {l : Locator} (hl : l.wantField = false) :
    Arg.ServesFor x s l (.callback (Builtin.suffix ".").call) where
  fields := by simp [hl]
  texts := by
    rintro _ c ⟨⟩ st hst
    obtain rfl := List.mem_singleton.mp hst
    exact fun _ _ _ => succeeds_pure trivial

theorem servesEntry_faulty (r : RecordRef) {e : Arg × Arg} (he : e ∈ faulty) :
    ServesEntry ∅ s r e := by
  simp only [faulty, List.mem_cons, List.not_mem_nil, or_false] at he
  rcases he with rfl | rfl | rfl
  · refine ⟨.atom trivial, .list ?_, ?_, nofun⟩
    · exact .cons (.atom trivial) (.cons (.atom trivial) (.cons (.atom trivial) .nil))
    · intro _ q l hq hl
      obtain rfl := Except.ok.inj (congrArg Prod.fst hq)
      obtain rfl := Except.ok.inj (congrArg Prod.fst hl)
      exact servesFor_suffix rfl
  · refine ⟨.atom trivial, .atom trivial, nofun, fun c hc t _ => ?_⟩
    obtain rfl := Option.some.inj hc
    exact .refl ∅ t
  · exact ⟨.atom trivial, .atom trivial, nofun, nofun⟩

/-- A query for names, one for all fields that meet a condition, and a mapping that fails. -/
theorem fails_alike_shuffled :
    shuffled.Reachable ∧
      Locator.parse "028A$x+|028C$a" = .ok contacts ∧
      (∃ d t,
        (RecordRef.query ⟨1⟩ (.locator contacts) .null (.callback (Builtin.suffix ".").call)).exec
          shuffled = (.ok d, t)) ∧
      (RecordRef.all ⟨0⟩ (.callback (Builtin.tagStarts "028").call) .null .null).fault? shuffled =
        (RecordRef.all ⟨1⟩ (.callback (Builtin.tagStarts "028").call) .null .null).fault? shuffled ∧
      (RecordRef.map ⟨0⟩ (.table faulty)).fault? shuffled =
        (RecordRef.map ⟨1⟩ (.table faulty)).fault? shuffled ∧
      (RecordRef.map ⟨1⟩ (.table faulty)).fault? shuffled =
        some (.argument (.query "'checked'" "True")) := by
  have hcontacts : Locator.parse "028A$x+|028C$a" = .ok contacts := rfl
  have hparsed : ∀ l, (.locator contacts : Arg) = .locator l → l.IsParsed := by
    rintro _ ⟨⟩
    exact ⟨_, _, hcontacts⟩
  obtain ⟨hqueries, -, hmaps⟩ := reachable_shuffled.fails_alike ⟨1⟩ ⟨0⟩
  refine ⟨reachable_shuffled, hcontacts, ?_, ?_, ?_, rfl⟩
  · obtain ⟨-, -, hvalue, -⟩ := hqueries (.locator contacts) .null
      (.callback (Builtin.suffix ".").call) hparsed fun l hl => by
        obtain rfl := Except.ok.inj (congrArg Prod.fst hl)
        exact servesFor_suffix rfl
    exact hvalue _ rfl
  · obtain ⟨-, -, -, hall⟩ := hqueries (.callback (Builtin.tagStarts "028").call) .null .null nofun
      fun l _ => Arg.servesFor_null l
    refine (hall (fun _ => Arg.servesFields_null) fun c hc => ?_).symm
    obtain rfl := Option.some.inj hc
    exact fun _ _ _ _ => succeeds_field_bind (succeeds_pure trivial)
  · refine (hmaps (.table faulty) ∅ (References.existIn_empty shuffled) ?_).symm
    rintro es ⟨⟩ e he
    exact ⟨servesEntry_faulty _ he, servesEntry_faulty _ he⟩

def blankRecords : Store :=
  let s := ((Request.create "Record" []).exec {}).2
  ((Request.create "Record" []).exec s).2

/-- An entry that appends a field to the record that is mapped, and a query with a record as
filters. -/
def growing : List (Arg × Arg) :=
  [(.text "a", .callback fun v => Request.call v "append" [.text "003@ $0x"]),
    (.text "b", .list [.text "021A", .record ⟨1⟩])]

/-- A call that never fails lets the record grow that the next entry has as filters, if it is
this record that is mapped. Its first field is no condition then, while no fields are no
filters. -/
theorem map_fails_if_grown :
    blankRecords.Reachable ∧ blankRecords.HasRecord ⟨0⟩ ∧ blankRecords.HasRecord ⟨1⟩ ∧
      (∀ (t : Store) (r : RecordRef), ∃ u,
        (Request.call (.record r) "append" [.text "003@ $0x"]).exec t = (.ok (.record r), u)) ∧
      (RecordRef.map ⟨0⟩ (.table growing)).fault? blankRecords = none ∧
      (RecordRef.map ⟨1⟩ (.table growing)).fault? blankRecords =
        some (.argument (.predicate "Field.parse('003@ $0x')")) :=
  ⟨(Reachable.empty.create "Record" (by simp)).create "Record" (by simp), by decide, by decide,
    fun _ _ => ⟨_, rfl⟩, rfl, rfl⟩

end Store

end Biblio
