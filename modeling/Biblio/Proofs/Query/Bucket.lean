import Biblio.Proofs.Mapping.Entry
import Biblio.Proofs.Query.Count
import Biblio.Proofs.Query.Deterministic

/-!
# Queries of records with equal buckets

Two records may differ in how the fields of different tags interleave and in their fields
without tag. As long as they have equal fields, in the same order, under each tag, a query
of the one agrees with the same query of the other: a plan that is read from a text has no
alternative without tag, and it reads a record bucket by bucket. A mapping of queries then
agrees too, since each query leaves what exists as it is.
-/

namespace Biblio

open Biblio.Action

variable {s t u : Store} {l : Locator}

/-! ## Equal answers -/

/-- Whether two answers are equal, each in its store: fields that exist and are equal, and
records of such fields. -/
inductive Datum.Alike (t u : Store) : Datum → Datum → Prop
  | null : Alike t u .null .null
  | text (x : String) : Alike t u (.text x) (.text x)
  | texts (xs : List String) : Alike t u (.texts xs) (.texts xs)
  | field {f g : FieldRef} (h : t.Twins u f g) : Alike t u (.field f) (.field g)
  | record {r q : RecordRef} (hr : t.HasRecord r) (hq : u.HasRecord q)
    (h : List.Forall₂ (t.Twins u) (t.record r).fields (u.record q).fields) :
    Alike t u (.record r) (.record q)

namespace Datum

theorem Alike.mono {x y : Datum} (h : Alike t u x y) {t' u' : Store} (ht : t.Leads False t')
    (hu : u.Leads False u') : Alike t' u' x y := by
  cases h with
  | null => exact .null
  | text x => exact .text x
  | texts xs => exact .texts xs
  | field h => exact .field (h.mono ht hu)
  | record hr hq h =>
      refine .record (hr.mono ht) (hq.mono hu) ?_
      rw [hr.record_eq ht, hq.record_eq hu]
      exact Store.forall₂_twins_mono h ht hu

theorem alike_ofOption_field {x y : Option FieldRef} (h : Option.Rel (t.Twins u) x y) :
    Alike t u (.ofOption .field x) (.ofOption .field y) := by
  cases h with
  | none => exact .null
  | some h => exact .field h

theorem alike_ofOption_text (x : Option String) :
    Alike t u (.ofOption .text x) (.ofOption .text x) := by
  cases x with
  | none => exact .null
  | some x => exact .text x

theorem Alike.isNull_eq {x y : Datum} (h : Alike t u x y) : x.isNull = y.isNull := by
  cases h <;> rfl

theorem Alike.isEmpty_eq {x y : Datum} (h : Alike t u x y) :
    Mapping.isEmpty t x = Mapping.isEmpty u y := by
  cases h with
  | record _ _ h => simp only [Mapping.isEmpty, Store.length?, h.length_eq]
  | _ => rfl

end Datum

theorem Action.agrees_newRecord {fs gs : List FieldRef} (h : List.Forall₂ (t.Twins u) fs gs) :
    Agrees t u (newRecord fs) (newRecord gs) fun t u r q =>
      Datum.Alike t u (.record r) (.record q) := by
  obtain ⟨hfs, hgs⟩ := Store.hasField_of_twins h
  have ht : t.Leads False (t.withNewRecord fs) := .single (.newRecord hfs)
  have hu : u.Leads False (u.withNewRecord gs) := .single (.newRecord hgs)
  refine agrees_of_exec (exec_newRecord fs t) (exec_newRecord gs u) ht hu ?_
  refine .record (t.hasRecord_nextRecord fs) (u.hasRecord_nextRecord gs) ?_
  rw [Store.record_withNewRecord, Store.record_withNewRecord, if_pos rfl, if_pos rfl,
    Store.fields_gather, Store.fields_gather]
  exact Store.forall₂_twins_mono h ht hu

/-! ## Reading plans -/

/-- A plan that is read from a text has a tag in each alternative. -/
theorem Locator.tag_ne_empty {text : String} {subfield : Option String}
    (h : parse text subfield = .ok l) : ∀ a ∈ l.alternatives, a.tag ≠ "" := by
  intro a ha hempty
  have htag := ((wellFormed_of_parse h).alternatives a ha).tag
  rw [hempty] at htag
  exact absurd htag (by decide)

theorem Arg.agrees_toLocator (text : String) (subfield : Arg) :
    Agrees t u (toLocator (.text text) subfield) (toLocator (.text text) subfield) fun _ _ l m =>
      l = m ∧ ∀ a ∈ l.alternatives, a.tag ≠ "" := by
  have hparsed : ∀ part : Option String, Agrees t u (parsed (.text text) part)
      (parsed (.text text) part) fun _ _ l m => l = m ∧ ∀ a ∈ l.alternatives, a.tag ≠ "" :=
    fun part => agrees_ofExcept fun l hl => ⟨rfl, Locator.tag_ne_empty hl⟩
  cases subfield with
  | null => exact hparsed none
  | text part => exact hparsed (some part)
  | _ => exact agrees_throw _

/-! ## Equal buckets -/

namespace Store

structure SameBuckets (s : Store) (r q : RecordRef) : Prop where
  left : s.HasRecord r
  right : s.HasRecord q
  twins : ∀ tag ≠ "", List.Forall₂ (s.Twins s) ((s.record r).lookup tag) ((s.record q).lookup tag)

theorem SameBuckets.mono {r q : RecordRef} (h : s.SameBuckets r q) (ht : s.Leads False t)
    (hu : s.Leads False u) {tag : String} (htag : tag ≠ "") :
    List.Forall₂ (t.Twins u) ((t.record r).lookup tag) ((u.record q).lookup tag) := by
  rw [h.left.record_eq ht, h.right.record_eq hu]
  exact forall₂_twins_mono (h.twins tag htag) ht hu

end Store

namespace RecordRef

variable {r q : RecordRef} {l : Locator} {filters : Arg} {ps : List Query.Predicate}
  {v : Query.Sieve} {E : FieldRef → FieldRef → Prop}

theorem deterministic_pass : Query.Sieve.pass.Deterministic s where
  all := fun vs => determined_pure vs
  first := fun vs => determined_pure vs.head?

theorem agrees_filtersFor (hf : filters.Deterministic s) (ht : s.Leads False t)
    (hu : s.Leads False u) (l : Locator) :
    Agrees t u (filtersFor l filters) (filtersFor l filters) fun _ _ x y =>
      x = y ∧ (∀ p ∈ x.1, p.Deterministic s) ∧ x.2.Deterministic s := by
  rw [filtersFor]
  split
  · refine (hf.conditions t u ht hu).bind fun ps qs _ _ _ _ h => agrees_pure ?_
    exact ⟨by rw [h.1], h.2, deterministic_pass⟩
  · refine (hf.chain t u ht hu).bind fun c d _ _ _ _ h => agrees_pure ?_
    exact ⟨by rw [h.1], by simp, h.2⟩

theorem agrees_fieldResult {x y : Query.Outcome FieldRef} (h : x.Rel (t.Twins u) y) :
    Agrees t u (fieldResult x) (fieldResult y) Datum.Alike := by
  cases h with
  | single h => exact agrees_pure (Datum.alike_ofOption_field h)
  | several h => exact (agrees_newRecord h).bind fun _ _ _ _ _ _ h => agrees_pure h

theorem alike_valueResult (x : Query.Outcome String) :
    Datum.Alike t u (valueResult x) (valueResult x) := by
  cases x with
  | single x => exact Datum.alike_ofOption_text x
  | several xs => exact .texts xs

/-- A locator is evaluated alike on records with equal fields under its tags, if the filters
are read as the same conditions and the same sieve, and these are deterministic. -/
theorem agrees_evaluate_of (hs : s.KeepsBuilt) (ht : s.Leads False t) (hu : s.Leads False u)
    (hread : Agrees t u (filtersFor l filters) (filtersFor l filters) fun _ _ x y =>
      x = y ∧ (∀ p ∈ x.1, p.DeterministicOn E s) ∧ x.2.Deterministic s)
    (hlookup : ∀ t' u', s.Leads False t' → s.Leads False u' → ∀ a ∈ l.alternatives,
      List.Forall₂ (t'.TwinsOn u' E) ((t'.record r).lookup a.tag) ((u'.record q).lookup a.tag)) :
    Agrees t u (r.evaluate l filters) (q.evaluate l filters) fun t u x y =>
      Datum.Alike t u x.1 y.1 ∧ x.2 = y.2 := by
  rw [evaluate, evaluate]
  refine hread.bind fun x y t₁ u₁ ht₁ hu₁ hxy => ?_
  obtain ⟨rfl, hps, hv⟩ := hxy
  refine agrees_get_bind ?_
  dsimp only
  have hfound := hlookup t₁ u₁ (ht.trans ht₁) (hu.trans hu₁)
  split
  · refine (Query.agrees_evaluateFields hps (ht.trans ht₁) (hu.trans hu₁) l hfound).bind
      fun x y _ _ _ _ hxy => ?_
    exact (agrees_fieldResult hxy.outcome).bind fun _ _ _ _ _ _ h => agrees_pure ⟨h, hxy.error⟩
  · have htwins := fun a ha => (hfound a ha).imp fun _ _ h => h.2
    exact (Query.agrees_evaluateValues hs hv (ht.trans ht₁) (hu.trans hu₁) l htwins).bind_same
      fun x _ _ _ _ => agrees_pure ⟨alike_valueResult x.outcome, rfl⟩

section Queries

variable (hs : s.KeepsBuilt) (hrq : s.SameBuckets r q) (hl : ∀ a ∈ l.alternatives, a.tag ≠ "")
  (ht : s.Leads False t) (hu : s.Leads False u)
include hs hrq hl ht hu

theorem agrees_firstMatch (hps : ∀ p ∈ ps, p.Deterministic s) (hv : v.Deterministic s) :
    Agrees t u (r.firstMatch l ps v) (q.firstMatch l ps v) Datum.Alike := by
  have hlookup : ∀ a ∈ l.alternatives, List.Forall₂ (t.Twins u) ((t.record r).lookup a.tag)
      ((u.record q).lookup a.tag) := fun a ha => hrq.mono ht hu (hl a ha)
  rw [firstMatch, firstMatch]
  refine agrees_get_bind ?_
  dsimp only
  split
  · have hfound := Query.forall₂_fields_matching (E := fun _ _ => True) fun a ha =>
      (hlookup a ha).imp fun _ _ h => ⟨trivial, h⟩
    exact (Query.agrees_firstField (fun p hp => (hps p hp).on) ht hu hfound).bind
      fun _ _ _ _ _ _ h => agrees_pure (Datum.alike_ofOption_field h)
  · exact (Query.agrees_firstValue hs hv ht hu hlookup (.refl t) (.refl u)).bind_same
      fun x _ _ _ _ => agrees_pure (Datum.alike_ofOption_text x.1)

theorem agrees_allMatches (hf : filters.Deterministic s) :
    Agrees t u (r.allMatches l filters) (q.allMatches l filters) Datum.Alike := by
  rw [allMatches, allMatches]
  refine (agrees_filtersFor hf ht hu l).bind fun x y t₁ u₁ ht₁ hu₁ hxy => ?_
  obtain ⟨rfl, hps, hv⟩ := hxy
  refine agrees_get_bind ?_
  dsimp only
  have hlookup := fun a ha => hrq.mono (ht.trans ht₁) (hu.trans hu₁) (hl a ha)
  split
  · have hfound := Query.forall₂_fields_matching (E := fun _ _ => True) fun a ha =>
      (hlookup a ha).imp fun _ _ h => ⟨trivial, h⟩
    refine (Query.agrees_keepFields (fun p hp => (hps p hp).on) (ht.trans ht₁) (hu.trans hu₁)
      hfound).bind fun _ _ _ _ _ _ h => ?_
    exact (agrees_newRecord h).bind fun _ _ _ _ _ _ h => agrees_pure h
  · exact (Query.agrees_collectValues hs hv (ht.trans ht₁) (hu.trans hu₁)
      (Query.forall₂_matching hlookup)).bind_same fun x _ _ _ _ => agrees_pure (.texts x.1)

theorem agrees_evaluate (hf : filters.Deterministic s) :
    Agrees t u (r.evaluate l filters) (q.evaluate l filters) fun t u x y =>
      Datum.Alike t u x.1 y.1 ∧ x.2 = y.2 := by
  have hread := (agrees_filtersFor hf ht hu l).imp fun x y _ _ _ _ h =>
    And.imp_right (And.imp_left fun hps p hp => (hps p hp).on (E := fun _ _ => True)) h
  exact agrees_evaluate_of hs ht hu hread fun t' u' ht' hu' a ha =>
    (hrq.mono ht' hu' (hl a ha)).imp fun _ _ h => ⟨trivial, h⟩

end Queries

section Requests

variable (hs : s.KeepsBuilt) (hrq : s.SameBuckets r q) (ht : s.Leads False t)
  (hu : s.Leads False u) (text : String) (subfield : Arg)
include hs hrq ht hu

theorem agrees_first (hf : filters.Deterministic s) :
    Agrees t u (r.first (.text text) subfield filters) (q.first (.text text) subfield filters)
      Datum.Alike := by
  refine (Arg.agrees_toLocator text subfield).bind fun l m t₁ u₁ ht₁ hu₁ hl => ?_
  obtain ⟨rfl, hl⟩ := hl
  refine (agrees_filtersFor hf (ht.trans ht₁) (hu.trans hu₁) l).bind fun x y t₂ u₂ ht₂ hu₂ h => ?_
  obtain ⟨rfl, hps, hv⟩ := h
  exact agrees_firstMatch hs hrq hl (ht.trans (ht₁.trans ht₂)) (hu.trans (hu₁.trans hu₂)) hps hv

theorem agrees_all (hf : filters.Deterministic s) :
    Agrees t u (r.all (.text text) subfield filters) (q.all (.text text) subfield filters)
      Datum.Alike := by
  rw [all_text, all_text]
  refine (Arg.agrees_toLocator text subfield).bind fun l m t₁ u₁ ht₁ hu₁ hl => ?_
  obtain ⟨rfl, hl⟩ := hl
  exact agrees_allMatches hs hrq hl (ht.trans ht₁) (hu.trans hu₁) hf

theorem agrees_query (hf : filters.Deterministic s) :
    Agrees t u (r.query (.text text) subfield filters) (q.query (.text text) subfield filters)
      fun t u x y => Datum.Alike t u x.1 y.1 ∧ x.2 = y.2 := by
  refine (Arg.agrees_toLocator text subfield).bind fun l m t₁ u₁ ht₁ hu₁ hl => ?_
  obtain ⟨rfl, hl⟩ := hl
  exact agrees_evaluate hs hrq hl (ht.trans ht₁) (hu.trans hu₁) hf

theorem agrees_has :
    Agrees t u (r.has (.text text) subfield) (q.has (.text text) subfield) fun _ _ x y =>
      x = y := by
  refine (agrees_first hs hrq ht hu text subfield Arg.deterministic_null).bind
    fun x y _ _ _ _ hxy => agrees_pure ?_
  rw [hxy.isNull_eq]

end Requests

end RecordRef

/-! ## Mappings of queries -/

namespace Mapping

/-- The queries of a mapping: a text, or a list or a tuple of a text and further arguments,
with deterministic filters. -/
inductive IsQuery (s : Store) : Arg → Prop
  | text (locator : String) : IsQuery s (.text locator)
  | list {xs : List Arg} {x : RecordQuery} (h : recordQuery? xs = some x)
    (hf : x.filters.Deterministic s) : IsQuery s (.list xs)
  | tuple {xs : List Arg} {x : RecordQuery} (h : recordQuery? xs = some x)
    (hf : x.filters.Deterministic s) : IsQuery s (.tuple xs)

variable {entry : Arg} {r q : RecordRef}

theorem IsQuery.exists_gives (h : IsQuery s entry) :
    ∃ x : RecordQuery, Gives entry x ∧ x.filters.Deterministic s := by
  cases h with
  | text locator => exact ⟨{ locator }, .text locator, Arg.deterministic_null⟩
  | list h hf => exact ⟨_, .list h, hf⟩
  | tuple h hf => exact ⟨_, .tuple h, hf⟩

/-- Whether two mappings found equal values and the same errors under the same names. -/
structure Findings.Alike (t u : Store) (x y : Findings) : Prop where
  values : List.Forall₂ (fun e e' => e.1 = e'.1 ∧ Datum.Alike t u e.2 e'.2) x.values y.values
  errors : x.errors = y.errors

namespace Findings

theorem Alike.mono {x y : Findings} (h : Alike t u x y) {t' u' : Store} (ht : t.Leads False t')
    (hu : u.Leads False u') : Alike t' u' x y where
  values := h.values.imp fun _ _ he => ⟨he.1, he.2.mono ht hu⟩
  errors := h.errors

theorem Alike.append {x x' y y' : Findings} (h : Alike t u x x') (h' : Alike t u y y') :
    Alike t u (x.append y) (x'.append y') where
  values := List.rel_append h.values h'.values
  errors := congrArg₂ List.append h.errors h'.errors

end Findings

theorem alike_finding {x y : Datum} (h : Datum.Alike t u x y) (key : Datum)
    (error : Option Datum) :
    Findings.Alike t u (finding t key x error) (finding u key y error) where
  values := by
    rw [finding, finding, h.isEmpty_eq]
    dsimp only
    split
    · exact .nil
    · exact .cons ⟨rfl, h⟩ .nil
  errors := rfl

section

variable (hs : s.KeepsBuilt) (hrq : s.SameBuckets r q)
include hs hrq

theorem agrees_resolve (ht : s.Leads False t) (hu : s.Leads False u) (h : IsQuery s entry) :
    Agrees t u (r.resolve entry) (q.resolve entry) fun t u x y =>
      Datum.Alike t u x.1 y.1 ∧ x.2 = y.2 := by
  obtain ⟨x, hgives, hf⟩ := h.exists_gives
  rw [RecordRef.resolve, RecordRef.resolve, Agrees, exec_bind_of (hgives.exec_recordQuery t),
    exec_bind_of (hgives.exec_recordQuery u)]
  exact RecordRef.agrees_query hs hrq ht hu x.locator x.subfield hf

theorem agrees_collect (ht : s.Leads False t) (hu : s.Leads False u) {es : List (Arg × Arg)}
    (hes : ∀ e ∈ es, IsQuery s e.2) :
    Agrees t u (collect (.record r) r.resolve es) (collect (.record q) q.resolve es)
      Findings.Alike := by
  induction es generalizing t u with
  | nil => exact agrees_pure ⟨.nil, rfl⟩
  | cons e es ih =>
      obtain ⟨key, entry⟩ := e
      have hentry := hes (key, entry) (by simp)
      obtain ⟨_, hgives, -⟩ := hentry.exists_gives
      rw [collect, collect, hgives.answer_eq, hgives.answer_eq, bind_assoc, bind_assoc]
      refine (agrees_resolve hs hrq ht hu hentry).bind fun x y t₁ u₁ ht₁ hu₁ hxy => ?_
      rw [pure_bind, pure_bind, hxy.2]
      refine agrees_get_bind ?_
      have hrest := ih (ht.trans ht₁) (hu.trans hu₁) fun e he => hes e (by simp [he])
      refine hrest.bind fun found found' t₂ u₂ ht₂ hu₂ h => agrees_pure ?_
      exact ((alike_finding hxy.1 _ _).mono ht₂ hu₂).append h

end

end Mapping

/-- Whether two records answer a query alike, each in its store: equal results, equal errors
and equal faults. -/
structure RecordRef.AnswerAlike (t u : Store) (r q : RecordRef) (text : String)
    (subfield filters : Arg) : Prop where
  first : Agrees t u (r.first (.text text) subfield filters)
    (q.first (.text text) subfield filters) Datum.Alike
  all : Agrees t u (r.all (.text text) subfield filters)
    (q.all (.text text) subfield filters) Datum.Alike
  query : Agrees t u (r.query (.text text) subfield filters)
    (q.query (.text text) subfield filters) fun t u x y => Datum.Alike t u x.1 y.1 ∧ x.2 = y.2
  has : Agrees t u (r.has (.text text) subfield) (q.has (.text text) subfield) fun _ _ x y => x = y

namespace Store

/-- Two records whose fields are equal one by one under every tag answer all queries and all
mappings of queries alike, however the fields of different tags interleave and wherever there
are fields without tag. The filters have to be deterministic, and `t` and `u` are the stores
in which the two records are queried, in which objects may have been created since. -/
theorem Reachable.answers_alike (h : s.Reachable) {r q : RecordRef} (hr : s.HasRecord r)
    (hq : s.HasRecord q)
    (hsame : ∀ tag ≠ "", List.Forall₂ (fun f g => (s.field f).same (s.field g) = true)
      ((s.record r).lookup tag) ((s.record q).lookup tag))
    (ht : s.Leads False t) (hu : s.Leads False u) :
    (∀ (text : String) (subfield filters : Arg), filters.Deterministic s →
      RecordRef.AnswerAlike t u r q text subfield filters) ∧
    ∀ es : List (Arg × Arg), (∀ e ∈ es, Mapping.IsQuery s e.2) →
      Agrees t u (r.map (.table es)) (q.map (.table es)) Mapping.Findings.Alike := by
  have hs := keepsBuilt_of_leads h.leads
  have hrq : s.SameBuckets r q := ⟨hr, hq, fun tag htag =>
    forall₂_twins (fun _ => h.isIndexed.hasField_of_mem_lookup)
      (fun _ => h.isIndexed.hasField_of_mem_lookup) (hsame tag htag)⟩
  constructor
  · intro text subfield filters hf
    exact ⟨RecordRef.agrees_first hs hrq ht hu text subfield hf,
      RecordRef.agrees_all hs hrq ht hu text subfield hf,
      RecordRef.agrees_query hs hrq ht hu text subfield hf,
      RecordRef.agrees_has hs hrq ht hu text subfield⟩
  · intro es hes
    exact Mapping.agrees_collect hs hrq ht hu hes

/-- To the people comes a record of the same fields in another order, with a field without tag
in front. -/
def shuffled : Store :=
  let s := ((Request.create "Field" [.text "x"]).exec people).2
  ((Request.create "Record" [.list [.field ⟨2⟩, .field ⟨1⟩, .field ⟨0⟩]]).exec s).2

theorem reachable_shuffled : shuffled.Reachable := by
  refine (reachable_people.create "Field" (Arg.isIn_texts ["x"])).create "Record" ?_
  intro v hv
  obtain rfl := List.mem_singleton.mp hv
  exact (Value.all_fields [⟨2⟩, ⟨1⟩, ⟨0⟩]).mpr (by decide)

theorem same_shuffled (tag : String) (htag : tag ≠ "") :
    List.Forall₂ (fun f g => (shuffled.field f).same (shuffled.field g) = true)
      ((shuffled.record ⟨0⟩).lookup tag) ((shuffled.record ⟨1⟩).lookup tag) := by
  have hfirst : (shuffled.record ⟨0⟩).fields = [⟨0⟩, ⟨1⟩] := by decide
  have hsecond : (shuffled.record ⟨1⟩).fields = [⟨2⟩, ⟨1⟩, ⟨0⟩] := by decide
  have htags : (shuffled.field ⟨0⟩).tag = "028C" ∧ (shuffled.field ⟨1⟩).tag = "028A" ∧
      (shuffled.field ⟨2⟩).tag = "" := by decide
  have hs := reachable_shuffled.isIndexed
  rw [hs.lookup_eq, hs.lookup_eq, hfirst, hsecond]
  by_cases hC : tag = "028C"
  · simp [hC, htags, Field.same]
  · by_cases hA : tag = "028A"
    · simp [hA, htags, Field.same]
    · simp [htags, Ne.symm hC, Ne.symm hA, Ne.symm htag]

def authorsAndNames : List (Arg × Arg) :=
  [(.text "authors", .text "028A|028C/xx"),
    (.text "names", .tuple [.text "028C", .text "a", .chain [.format "(\x7b\x7d)"]])]

theorem answers_alike_shuffled :
    shuffled.Reachable ∧
      RecordRef.AnswerAlike shuffled shuffled ⟨0⟩ ⟨1⟩ "028C|028A" (.text "a!")
        (.callback (Builtin.suffix ".").call) ∧
      Agrees shuffled shuffled (RecordRef.map ⟨0⟩ (.table authorsAndNames))
        (RecordRef.map ⟨1⟩ (.table authorsAndNames)) Mapping.Findings.Alike := by
  have hsuffix : Callback.Deterministic shuffled (Builtin.suffix ".").call :=
    ⟨fun _ _ _ _ _ _ _ => agrees_throw _, fun _ _ _ _ _ => agrees_pure rfl⟩
  have hbuilt : shuffled.KeepsBuilt := keepsBuilt_of_leads reachable_shuffled.leads
  have hbrackets : Arg.Deterministic shuffled (.chain [.format "(\x7b\x7d)"]) :=
    Arg.deterministic_chain (by simpa using Step.deterministic_call hbuilt (.format _) trivial)
  obtain ⟨hqueries, hmaps⟩ := reachable_shuffled.answers_alike (r := ⟨0⟩) (q := ⟨1⟩) (by decide)
    (by decide) same_shuffled (.refl shuffled) (.refl shuffled)
  refine ⟨reachable_shuffled, hqueries _ _ _ (Arg.deterministic_one ⟨_, rfl, hsuffix⟩),
    hmaps _ ?_⟩
  intro e he
  simp only [authorsAndNames, List.mem_cons, List.not_mem_nil, or_false] at he
  rcases he with rfl | rfl
  · exact .text _
  · exact .tuple rfl hbrackets

end Store

end Biblio
