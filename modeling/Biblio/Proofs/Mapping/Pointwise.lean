import Biblio.Proofs.Mapping.Entry
import Biblio.Proofs.Query.Steady

/-!
# Mappings entry by entry

The callbacks of a mapping are repeatable and what its arguments refer to exists. Then each
entry ends in a mapping as it does in a mapping of its own, since the entries before it modify
nothing. So the mapping ends with the fault of the first entry that has one, and otherwise it
finds, in order, what the entries find.
-/

namespace Biblio

open Biblio.Action

variable {s t u : Store}

namespace Mapping

/-! ## Queries -/

theorem isInherited_isSteady : IsInherited (Arg.IsSteady s) where
  null := Arg.isSteady_null
  text := Arg.isSteady_text
  list := fun _ h => Arg.isSteady_list h

section

variable {entry : Arg} (hs : s.IsIndexed) (he : entry.IsSteady s) (ht : s.Leads False t)
  (hu : s.Leads False u)
include hs he ht hu

theorem agrees_recordQuery :
    Agrees t u (recordQuery entry) (recordQuery entry) fun _ _ p q =>
      p = q ∧ p.filters.IsSteady s := by
  unfold recordQuery
  split
  · exact agrees_pure ⟨rfl, Arg.isSteady_null⟩
  · refine (Arg.agrees_items hs he ht hu).bind fun xs ys t' u' ht' hu' hxs => ?_
    obtain ⟨rfl, hxs⟩ := hxs
    cases hq : recordQuery? xs with
    | some q => exact agrees_pure ⟨rfl, (isInherited_isSteady.recordQuery? hxs hq).2⟩
    | none =>
        refine agrees_get_bind ?_
        rw [he.shown_eq hs (ht.trans ht') (hu.trans hu')]
        exact agrees_throw _

theorem agrees_fieldQuery :
    Agrees t u (fieldQuery entry) (fieldQuery entry) fun _ _ p q =>
      p = q ∧ p.marks.IsSteady s ∧ p.filters.IsSteady s := by
  unfold fieldQuery
  split
  · exact agrees_pure ⟨rfl, Arg.isSteady_null, Arg.isSteady_null⟩
  · refine (Arg.agrees_items hs he ht hu).bind fun xs ys t' u' ht' hu' hxs => ?_
    obtain ⟨rfl, hxs⟩ := hxs
    cases hq : fieldQuery? xs with
    | some q => exact agrees_pure ⟨rfl, isInherited_isSteady.fieldQuery? hxs hq⟩
    | none =>
        refine agrees_get_bind ?_
        rw [he.shown_eq hs (ht.trans ht') (hu.trans hu')]
        exact agrees_throw _

end

/-! ## Answers -/

def TwinAnswers {ε : Type} (t u : Store) (x y : Datum × Option ε) : Prop :=
  t.TwinValues u x.1 y.1 ∧ x.2 = y.2

/-- Whether queries of a kind of object with steady arguments are repeatable. -/
def Resolver.IsRepeatable (s : Store) (resolve : Resolver) : Prop :=
  ∀ entry : Arg, entry.IsSteady s → ∀ t u, s.Leads False t → s.Leads False u →
    Agrees t u (resolve entry) (resolve entry) TwinAnswers

end Mapping

/-- A query of a record with steady arguments is repeatable. -/
theorem RecordRef.isRepeatable_resolve (hs : s.IsIndexed) (hb : s.KeepsBuilt) {r : RecordRef}
    (hr : s.HasRecord r) : Mapping.Resolver.IsRepeatable s r.resolve := by
  intro entry he t u ht hu
  refine (Mapping.agrees_recordQuery hs he ht hu).bind fun p q t' u' ht' hu' hq => ?_
  obtain ⟨rfl, hf⟩ := hq
  exact (agrees_query_of_isSteady hs hb hr hf (ht.trans ht') (hu.trans hu') p.locator
    p.subfield).imp fun _ _ _ _ _ _ h => ⟨h.1.twins, h.2⟩

namespace FieldRef

theorem alike_unwrap (sel : Selector) (vs : List String) :
    Datum.Alike t u (unwrap sel vs) (unwrap sel vs) := by
  unfold unwrap
  split
  · split
    · exact .texts _
    · exact .text _
  · exact .texts _

/-- A query of a field with steady arguments is repeatable. -/
theorem isRepeatable_resolve (hs : s.IsIndexed) (hb : s.KeepsBuilt) {f : FieldRef}
    (hf : s.HasField f) : Mapping.Resolver.IsRepeatable s f.resolve := by
  intro entry he t u ht hu
  refine (Mapping.agrees_fieldQuery hs he ht hu).bind fun p q t₁ u₁ ht₁ hu₁ hq => ?_
  obtain ⟨rfl, hmarks, hfilters⟩ := hq
  have hsel := agrees_fieldSelector hs hmarks (ht.trans ht₁) (hu.trans hu₁) p.code
  refine hsel.bind_same fun sel t₂ u₂ ht₂ hu₂ => ?_
  have hquery := agrees_query_of_isSteady hs hb hf hfilters (ht.trans (ht₁.trans ht₂))
    (hu.trans (hu₁.trans hu₂)) (sel.withDefault "?")
  exact hquery.bind_same fun x _ _ _ _ => agrees_pure ⟨(alike_unwrap _ _).twins, rfl⟩

end FieldRef

namespace Mapping

/-! ## Entries -/

/-- Whether an entry of a mapping is steady, also if it is a step, and its key is held. -/
structure IsSteadyEntry (s : Store) (e : Arg × Arg) : Prop where
  key : e.1.IsHeld s
  entry : e.2.IsSteady s
  step : ∀ st, e.2 = .step st → Callback.IsRepeatable s st.call

theorem IsSteadyEntry.callback {key entry : Arg} (h : IsSteadyEntry s (key, entry)) {c : Callback}
    (hc : Chain.callable? entry = some c) : c.IsRepeatable s := by
  cases entry with
  | callback c' =>
      obtain rfl := Option.some.inj hc
      exact h.entry.repeatable
  | step st =>
      obtain rfl := Option.some.inj hc
      exact h.step st rfl
  | _ => cases hc

theorem agrees_guarded {c : Callback} (hc : c.IsRepeatable s) {target : Datum}
    (htarget : target.IsHeld s) (ht : s.Leads False t) (hu : s.Leads False u) (key : Arg) :
    Agrees t u (guarded key c target) (guarded key c target) TwinAnswers := by
  have h := hc target htarget t u ht hu
  rw [Agrees] at h ⊢
  rw [exec_guarded, exec_guarded]
  generalize (c target).exec t = x at h ⊢
  generalize (c target).exec u = y at h ⊢
  cases h with
  | value ht' hu' h => exact .value ht' hu' ⟨h, rfl⟩
  | fault ht' hu' e =>
      exact .value (ht'.trans (.single (.note _ _))) (hu'.trans (.single (.note _ _)))
        ⟨.atom trivial, rfl⟩

section

variable {target : Datum} {resolve : Resolver} (hs : s.IsIndexed) (htarget : target.IsHeld s)
  (hresolve : resolve.IsRepeatable s)
include hs htarget hresolve

/-- A steady entry has the same answer whenever it is asked for one. -/
theorem agrees_answer {key entry : Arg} (he : IsSteadyEntry s (key, entry))
    (ht : s.Leads False t) (hu : s.Leads False u) :
    Agrees t u (answer target resolve key entry) (answer target resolve key entry)
      TwinAnswers := by
  let ask : Action (Datum × Option Datum) :=
    resolve entry >>= fun x => pure (x.1, x.2.map Value.error)
  have hask : Agrees t u ask ask TwinAnswers := by
    refine (hresolve entry he.entry t u ht hu).bind fun x y _ _ _ _ h => agrees_pure ⟨h.1, ?_⟩
    rw [h.2]
  cases hcall : Chain.callable? entry with
  | some c =>
      rw [answer_of_callable hcall]
      exact agrees_guarded (he.callback hcall) htarget ht hu key
  | none =>
      cases entry with
      | text | list | tuple | subfield => exact hask
      | callback | step => cases hcall
      | _ =>
          refine agrees_get_bind ?_
          rw [Store.shown_eq (he.key.twins hs ht hu), he.entry.shown_eq hs ht hu]
          exact agrees_throw _

end

/-! ## Tables -/

/-- Whether two mappings found twin values and the same errors under the same keys. -/
structure Findings.Twins (t u : Store) (x y : Findings) : Prop where
  values : List.Forall₂ (fun e d => e.1 = d.1 ∧ t.TwinValues u e.2 d.2) x.values y.values
  errors : x.errors = y.errors

theorem Findings.Twins.mono {x y : Findings} (h : Twins t u x y) {t' u' : Store}
    (ht : t.Leads False t') (hu : u.Leads False u') : Twins t' u' x y where
  values := h.values.imp fun _ _ he => ⟨he.1, he.2.mono ht hu⟩
  errors := h.errors

theorem twins_finding {x y : Datum} (h : t.TwinValues u x y) (key : Datum)
    (error : Option Datum) : (finding t key x error).Twins t u (finding u key y error) where
  values := by
    rw [finding, finding, h.isEmpty_eq]
    dsimp only
    split
    · exact .nil
    · exact .cons ⟨rfl, h⟩ .nil
  errors := rfl

def Findings.join (parts : List Findings) : Findings :=
  parts.foldr append {}

/-- Whether the end of a mapping is told by the ends of the mappings of one entry that start
in a store: it is the fault of the first one that has a fault, or they find twins of its parts. -/
inductive EndsPointwise (s : Store) (map : List (Arg × Arg) → Action Findings)
    (es : List (Arg × Arg)) : Except Fault Findings × Store → Prop
  | fault {front behind : List (Arg × Arg)} {e : Arg × Arg} {fault : Fault} {t u : Store}
    (hes : es = front ++ e :: behind)
    (hfront : ∀ d ∈ front, ∃ found v, (map [d]).exec s = (.ok found, v))
    (he : (map [e]).exec s = (.error fault, u)) : EndsPointwise s map es (.error fault, t)
  | found {parts : List Findings} {t : Store}
    (h : List.Forall₂ (fun e part => ∃ found u, (map [e]).exec s = (.ok found, u) ∧
      part.Twins t u found) es parts) : EndsPointwise s map es (.ok (.join parts), t)

section

variable {target : Datum} {resolve : Resolver} (hs : s.IsIndexed) (htarget : target.IsHeld s)
  (hresolve : resolve.IsRepeatable s)
include hs htarget hresolve

theorem agrees_collect_singleton {e : Arg × Arg} (he : IsSteadyEntry s e)
    (ht : s.Leads False t) (hu : s.Leads False u) :
    Agrees t u (collect target resolve [e]) (collect target resolve [e]) Findings.Twins := by
  obtain ⟨key, entry⟩ := e
  rw [collect_singleton]
  refine (agrees_answer hs htarget hresolve he ht hu).bind fun x y _ _ _ _ h => ?_
  refine agrees_get_bind (agrees_pure ?_)
  rw [h.2]
  exact twins_finding h.1 _ _

/-- In whatever store a mapping starts, its end is told by what its entries do on their own,
as each of them leaves what exists as it is. -/
theorem endsPointwise_collect {es : List (Arg × Arg)} (hes : ∀ e ∈ es, IsSteadyEntry s e)
    (ht : s.Leads False t) :
    t.Leads False ((collect target resolve es).exec t).2 ∧
      EndsPointwise s (collect target resolve) es ((collect target resolve es).exec t) := by
  induction es generalizing t with
  | nil => exact ⟨.refl t, .found .nil⟩
  | cons e es ih =>
      -- The first entry ends as in `s`; the others start in the store that it leaves.
      have hone := agrees_collect_singleton hs htarget hresolve (hes e (by simp)) ht (.refl s)
      rw [← List.singleton_append, collect_append, exec_bind]
      rw [Agrees] at hone
      generalize htx : (collect target resolve [e]).exec t = x at hone ⊢
      generalize hsy : (collect target resolve [e]).exec s = y at hone
      cases hone with
      | fault htu hsv fault =>
          have hsplit : e :: es = [] ++ e :: es := rfl
          exact ⟨htu, .fault hsplit (by simp) hsy⟩
      | @value u v part found htu hsv htwins =>
          obtain ⟨hlead, hrest⟩ := ih (fun d hd => hes d (by simp [hd])) (ht.trans htu)
          dsimp only
          rw [exec_bind]
          generalize (collect target resolve es).exec u = z at hlead hrest ⊢
          cases hrest with
          | @fault front behind d fault w w' hsplit hfront hd =>
              have hsplit' : e :: es = (e :: front) ++ d :: behind := by
                rw [hsplit, List.cons_append]
              refine ⟨htu.trans hlead, .fault hsplit' ?_ hd⟩
              rw [List.forall_mem_cons]
              exact ⟨⟨found, v, hsy⟩, hfront⟩
          | @found parts w hparts =>
              have hall := hparts.cons ⟨found, v, hsy, htwins.mono hlead (.refl v)⟩
              exact ⟨htu.trans hlead, .found hall⟩

end

inductive IsMapOf (s : Store) : Datum → (Arg → Action Findings) → Prop
  | record {r : RecordRef} (h : s.HasRecord r) : IsMapOf s (.record r) r.map
  | field {f : FieldRef} (h : s.HasField f) : IsMapOf s (.field f) f.map

/-- The mappings of an object collect what the entries of the table find, and its queries are
repeatable. -/
theorem IsMapOf.exists_resolver (hs : s.IsIndexed) (hb : s.KeepsBuilt) {x : Datum}
    {map : Arg → Action Findings} (h : IsMapOf s x map) :
    x.IsHeld s ∧ ∃ resolve : Resolver, resolve.IsRepeatable s ∧
      ∀ es, map (.table es) = collect x resolve es := by
  cases h with
  | @record r hr =>
      exact ⟨Value.isHeld_record.mpr hr, r.resolve, RecordRef.isRepeatable_resolve hs hb hr,
        fun _ => rfl⟩
  | @field f hf =>
      exact ⟨Value.isHeld_field.mpr hf, f.resolve, FieldRef.isRepeatable_resolve hs hb hf,
        fun _ => rfl⟩

end Mapping

namespace Store

open Mapping

/-- The mapping of an object with repeatable callbacks is pointwise. It ends with the fault of
the first entry that has one on its own, and otherwise finds in order what the entries find on
their own; tables may be split and what the parts find be put together. What a callback raises
is kept as an error under its key. A query of a record files its result, unless it is missing,
and its error. -/
theorem Reachable.map_pointwise (h : s.Reachable) {x : Datum} {map : Arg → Action Findings}
    (hmap : IsMapOf s x map) {es : List (Arg × Arg)} (hes : ∀ e ∈ es, IsSteadyEntry s e) :
    EndsPointwise s (fun es => map (.table es)) es ((map (.table es)).exec s) ∧
    (∀ front behind, es = front ++ behind → map (.table es) = do
      let found ← map (.table front)
      let rest ← map (.table behind)
      return found.append rest) ∧
    (∀ key entry c fault t, Chain.callable? entry = some c → (c x).exec s = (.error fault, t) →
      (map (.table [(key, entry)])).exec s =
        (.ok { errors := [(key.forget, .failure key.forget fault)] },
          t.withNote (.failedCallback (t.shown key) fault.message))) ∧
    ∀ r, x = .record r → ∀ key entry q, Gives entry q →
      (∀ fault t, (r.query (.text q.locator) q.subfield q.filters).exec s = (.error fault, t) →
        (map (.table [(key, entry)])).exec s = (.error fault, t)) ∧
      ∀ d e t, (r.query (.text q.locator) q.subfield q.filters).exec s = (.ok (d, e), t) →
        ∃ found, (map (.table [(key, entry)])).exec s = (.ok found, t) ∧
          Files t key.forget d e found := by
  obtain ⟨hx, resolve, hresolve, hcollect⟩ :=
    hmap.exists_resolver h.isIndexed (keepsBuilt_of_leads h.leads)
  refine ⟨?_, ?_, ?_, ?_⟩
  · have hends := (endsPointwise_collect h.isIndexed hx hresolve hes (.refl s)).2
    simpa only [hcollect] using hends
  · rintro front behind rfl
    simp only [hcollect]
    exact collect_append x resolve front behind
  · intro key entry c fault t hc hfault
    rw [hcollect]
    exact exec_collect_fault hc hfault
  · rintro r rfl key entry q hentry
    obtain rfl : map = r.map := by
      cases hmap
      rfl
    rw [hentry.exec_map]
    constructor
    · intro fault t hrun
      rw [hrun]
    · intro d e t hrun
      rw [hrun]
      exact ⟨_, rfl, (RecordRef.isResult_of_query hrun).files_finding t key.forget e⟩

end Store

/-! ## Repeatable callbacks -/

namespace Builtin

theorem isRepeatable_raise (kind : RaisedKind) (text : String) :
    Callback.IsRepeatable s (raise kind text).call :=
  fun _ _ _ _ _ _ => agrees_throw _

/-- Turning round is repeatable, though the record that it gives is a new one each time. -/
theorem isRepeatable_reverse (hs : s.IsIndexed) : Callback.IsRepeatable s reverse.call := by
  intro x hx t u ht hu
  cases x with
  | text x => exact agrees_pure (.atom trivial)
  | list xs =>
      have hxs : (Value.list xs.reverse : Datum).IsHeld s :=
        Value.isHeld_list.mpr fun y hy => Value.isHeld_list.mp hx y (List.mem_reverse.mp hy)
      exact agrees_pure (hxs.twins hs ht hu)
  | tuple xs =>
      have hxs : (Value.tuple xs.reverse : Datum).IsHeld s :=
        Value.isHeld_tuple.mpr fun y hy => Value.isHeld_tuple.mp hx y (List.mem_reverse.mp hy)
      exact agrees_pure (hxs.twins hs ht hu)
  | record r =>
      have hr := (Value.isHeld_record.mp hx).twins hs ht hu
      have hfields := List.forall₂_reverse_iff.mpr hr.fields
      refine agrees_record_bind ?_
      exact (agrees_newRecord hfields).bind fun _ _ _ _ _ _ h => agrees_pure h.twins
  | _ => exact agrees_throw _

end Builtin

namespace Store

open Mapping

def overview : List (Arg × Arg) :=
  [(.text "authors", .text "028A|028C/xx"),
    (.text "names", .tuple [.text "028C", .text "a", .chain [.format "(\x7b\x7d)"]]),
    (.text "reversed", .callback Builtin.reverse.call),
    (.text "broken", .callback (Builtin.raise .value "no").call)]

theorem isSteadyEntry_overview {e : Arg × Arg} (he : e ∈ overview) : IsSteadyEntry people e := by
  have hs := reachable_people.isIndexed
  simp only [overview, List.mem_cons, List.not_mem_nil, or_false] at he
  rcases he with rfl | rfl | rfl | rfl
  · exact ⟨.atom trivial, ⟨.atom trivial, trivial⟩, nofun⟩
  · have hchain : Value.IsHeld people (.chain [.format "(\x7b\x7d)"] : Arg) :=
      .chain (.cons (.format _) .nil)
    refine ⟨.atom trivial, ⟨?_, ?_⟩, nofun⟩
    · exact .tuple (.cons (.atom trivial) (.cons (.atom trivial) (.cons hchain .nil)))
    · exact ⟨trivial, trivial, ⟨trivial, trivial⟩, trivial⟩
  · exact ⟨.atom trivial, ⟨.atom trivial, Builtin.isRepeatable_reverse hs⟩, nofun⟩
  · exact ⟨.atom trivial, ⟨.atom trivial, Builtin.isRepeatable_raise _ _⟩, nofun⟩

theorem map_pointwise_people :
    people.Reachable ∧
      EndsPointwise people (fun es => RecordRef.map ⟨0⟩ (.table es)) overview
        ((RecordRef.map ⟨0⟩ (.table overview)).exec people) ∧
      (RecordRef.map ⟨0⟩ (.table [(.text "broken",
          .callback (Builtin.raise .value "no").call)])).exec people =
        (.ok { errors := [(.text "broken", .failure (.text "broken") (.raised .value "no"))] },
          people.withNote (.failedCallback "'broken'" "no")) ∧
      ∃ found, (RecordRef.map ⟨0⟩ (.table [(.text "author", .text "028A")])).exec people =
          (.ok found, people) ∧
        Files people (.text "author") (.field ⟨1⟩) none found := by
  have hmap : IsMapOf people (.record ⟨0⟩) (RecordRef.map ⟨0⟩) := .record (by decide)
  obtain ⟨hends, -, hfault, hquery⟩ :=
    reachable_people.map_pointwise hmap fun e he => isSteadyEntry_overview he
  refine ⟨reachable_people, hends, hfault _ _ _ _ _ rfl rfl, ?_⟩
  exact (hquery _ rfl _ _ _ (.text _)).2 _ _ _ rfl

end Store

end Biblio
