import Biblio.Proofs.Mapping.Entry
import Biblio.Proofs.Query.Count

/-!
# Single results beside errors

A locator without cardinality, or with one of the flags `!` and `?`, asks for a single result.
As a rule there is either such a result or an error, but not both. The exception are locators
of values with a flag: of several matches one may contribute the only value, which meets the
flag, and another one the error of its own selector. `OneValueBesideError` is this case, and
the answers of `get` have a result and an error in this case and in no other.
-/

namespace Biblio

open Biblio.Action

def Locator.IsSingle (l : Locator) : Prop :=
  l.cardinality = "" ∨ l.flag? = some .one ∨ l.flag? = some .optional

namespace Query

variable {s t u : Store} {v : Sieve}

/-! ## Errors of single fields -/

/-- Whether a selector fails on fields without a value, or on all but those with one. -/
def IsStrict (sel : Selector) : Prop :=
  sel.flag? = some .one ∨ sel.flag? = some .some

theorem checkValues_of_error {fullTag : String} {sel : Selector} {values xs : List String}
    {e : QueryError} (h : checkValues fullTag sel values = (xs, some e)) :
    xs = [] ∧ IsStrict sel := by
  unfold checkValues at h
  split at h
  · next hnone =>
    obtain ⟨rfl, -⟩ := Prod.mk.inj h
    rw [Bool.and_eq_true, Bool.or_eq_true, decide_eq_true_eq, decide_eq_true_eq] at hnone
    exact ⟨rfl, hnone.2⟩
  · split at h
    · next hmany =>
      obtain ⟨rfl, -⟩ := Prod.mk.inj h
      rw [Bool.and_eq_true, decide_eq_true_eq] at hmany
      exact ⟨rfl, .inl hmany.1⟩
    · split at h <;> cases h

/-- A field that reports an error contributes no values, and its selector is strict. -/
theorem queryField_of_error {x : Field} {sel : Selector} {xs : List String} {e : QueryError}
    (h : (queryField x sel v).exec s = (.ok (xs, some e), t)) : xs = [] ∧ IsStrict sel := by
  rw [queryField] at h
  cases hcode : sel.code with
  | none =>
      rw [hcode] at h
      obtain ⟨ys, u, -, h⟩ := exec_bind_eq_ok h
      cases h
  | some code =>
      rw [hcode] at h
      dsimp only at h
      split at h
      all_goals
        obtain ⟨ys, u, -, h⟩ := exec_bind_eq_ok h
        exact checkValues_of_error (exec_pure_eq_ok h).1

theorem collectValues_cons_eq_ok {a : Alternative} {f : FieldRef} {ms : List Match}
    {xs : List String} {es : List QueryError}
    (h : (collectValues v ((a, f) :: ms)).exec s = (.ok (xs, es), t)) :
    ∃ sel ys e zs es' u, a.subfield = some sel ∧
      (queryField (s.field f) sel v).exec s = (.ok (ys, e), u) ∧
      (collectValues v ms).exec u = (.ok (zs, es'), t) ∧ xs = ys ++ zs ∧ es = e.toList ++ es' := by
  rw [collectValues, exec_bind_of (exec_field f s)] at h
  obtain ⟨sel, u, hsel, h⟩ := exec_bind_eq_ok h
  obtain ⟨⟨ys, e⟩, w, hquery, h⟩ := exec_bind_eq_ok h
  obtain ⟨⟨zs, es'⟩, w', hrest, h⟩ := exec_bind_eq_ok h
  obtain ⟨hpair, rfl⟩ := exec_pure_eq_ok h
  obtain ⟨rfl, rfl⟩ := Prod.mk.inj hpair
  cases ha : a.subfield with
  | none =>
      rw [selectorOf, ha] at hsel
      cases hsel
  | some sel' =>
      rw [selectorOf, ha] at hsel
      obtain ⟨rfl, rfl⟩ := exec_pure_eq_ok hsel
      exact ⟨sel', ys, e, zs, es', w, rfl, hquery, hrest, rfl, rfl⟩

/-- Each error takes a match with a strict selector of its own, and values take another. -/
theorem length_of_collectValues {ms : List Match} {xs : List String} {es : List QueryError}
    (h : (collectValues v ms).exec s = (.ok (xs, es), t)) :
    es.length + (if xs = [] then 0 else 1) ≤ ms.length ∧
      (es ≠ [] → ∃ m ∈ ms, ∃ sel, m.1.subfield = some sel ∧ IsStrict sel) := by
  induction ms generalizing s xs es with
  | nil =>
      obtain ⟨hpair, -⟩ := exec_pure_eq_ok h
      cases hpair
      simp
  | cons m ms ih =>
      obtain ⟨a, f⟩ := m
      obtain ⟨sel, ys, e, zs, es', u, ha, hquery, hrest, rfl, rfl⟩ := collectValues_cons_eq_ok h
      obtain ⟨hlength, hstrict⟩ := ih hrest
      cases e with
      | none =>
          refine ⟨?_, fun hes => ?_⟩
          · have hone : (if ys ++ zs = [] then 0 else 1) ≤ 1 := by split <;> simp
            simp only [Option.toList_none, List.nil_append, List.length_cons]
            omega
          · obtain ⟨m, hm, hsel⟩ := hstrict hes
            exact ⟨m, List.mem_cons_of_mem _ hm, hsel⟩
      | some e =>
          obtain ⟨rfl, hsel⟩ := queryField_of_error hquery
          refine ⟨?_, fun _ => ⟨(a, f), List.mem_cons_self, sel, ha, hsel⟩⟩
          simp only [Option.toList_some, List.nil_append, List.singleton_append,
            List.length_cons]
          omega

/-! ## Errors of all matches together -/

/-- A number of matches that does not meet a flag is not one. -/
theorem only?_eq_none_of_shortfall {α : Type} {k : Flag} {source : String} {kind : MatchKind}
    {xs : List α} {e : QueryError} (h : shortfall k source kind xs.length = some e) :
    only? xs = none := by
  match xs with
  | [] => rfl
  | [x] => cases k <;> cases h
  | x :: y :: xs => rfl

theorem shortfall_one {k : Flag} {source : String} {kind : MatchKind} :
    shortfall k source kind 1 = none := by
  cases k <;> rfl

/-! ## Answers -/

variable {l : Locator}

theorem flagOf_of_isSingle (hl : l.IsSingle) (hc : l.cardinality ≠ "") :
    flagOf l = .one ∨ flagOf l = .optional := by
  rcases hl with h | h | h
  · exact absurd h hc
  · exact .inl (by rw [flagOf, h]; rfl)
  · exact .inr (by rw [flagOf, h]; rfl)

theorem outcome_settle {α : Type} {k : Flag} (hk : k = .one ∨ k = .optional) (source : String)
    (kind : MatchKind) (xs : List α) (es : List QueryError) :
    (settle k source kind xs es).outcome = .single (only? xs) := by
  rcases hk with rfl | rfl <;> rfl

theorem error_settle {α : Type} (k : Flag) (source : String) (kind : MatchKind) (xs : List α)
    (es : List QueryError) :
    (settle k source kind xs es).error = (shortfall k source kind xs.length).or es.head? :=
  rfl

/-- Among fields there is no error of a single one, so that a result comes without error. -/
theorem evaluateFields_of_error {lookup : Lookup} {ps : List Predicate}
    {answer : Answer FieldRef} {e : QueryError} {u : Store} (hl : l.IsSingle)
    (h : (evaluateFields s lookup l ps).exec u = (.ok answer, t))
    (he : answer.error = some e) : answer.outcome = .single none := by
  rw [evaluateFields] at h
  split at h
  · obtain ⟨x, w, -, h⟩ := exec_bind_eq_ok h
    obtain ⟨rfl, -⟩ := exec_pure_eq_ok h
    cases he
  · next hc =>
    obtain ⟨xs, w, -, h⟩ := exec_bind_eq_ok h
    obtain ⟨rfl, -⟩ := exec_pure_eq_ok h
    rw [outcome_settle (flagOf_of_isSingle hl hc)]
    rw [error_settle, List.head?_nil, Option.or_none] at he
    rw [only?_eq_none_of_shortfall he]

theorem exists_single_of_evaluateValues {lookup : Lookup} {v : Sieve}
    {answer : Answer String} {u : Store} (hl : l.IsSingle)
    (h : (evaluateValues s lookup l v).exec u = (.ok answer, t)) :
    ∃ x, answer.outcome = .single x := by
  rw [evaluateValues] at h
  split at h
  · obtain ⟨⟨x, e⟩, w, -, h⟩ := exec_bind_eq_ok h
    obtain ⟨rfl, -⟩ := exec_pure_eq_ok h
    exact ⟨x, rfl⟩
  · next hc =>
    obtain ⟨⟨xs, es⟩, w, -, h⟩ := exec_bind_eq_ok h
    obtain ⟨rfl, -⟩ := exec_pure_eq_ok h
    exact ⟨_, outcome_settle (flagOf_of_isSingle hl hc) _ _ _ _⟩

/-- A value and an error are the answer exactly if this value is the only one, and the error
the first, that the matches contribute. -/
theorem evaluateValues_eq_iff {lookup : Lookup} {v : Sieve} {x : String}
    {e : QueryError} (hl : l.IsSingle) :
    (evaluateValues s lookup l v).exec s = (.ok ⟨.single (some x), some e⟩, t) ↔
      l.cardinality ≠ "" ∧ ∃ es, (collectValues v
        (matching s lookup l.alternatives)).exec s = (.ok ([x], e :: es), t) := by
  rw [evaluateValues]
  by_cases hc : l.cardinality = ""
  · rw [if_pos hc]
    refine ⟨fun h => ?_, fun h => absurd hc h.1⟩
    obtain ⟨⟨y, e'⟩, u, -, h⟩ := exec_bind_eq_ok h
    obtain ⟨hanswer, -⟩ := exec_pure_eq_ok h
    cases y <;> cases hanswer
  · rw [if_neg hc]
    have hflag := flagOf_of_isSingle hl hc
    constructor
    · intro h
      obtain ⟨⟨ys, es⟩, u, hcollect, h⟩ := exec_bind_eq_ok h
      obtain ⟨hanswer, rfl⟩ := exec_pure_eq_ok h
      have honly := congrArg Answer.outcome hanswer
      have herror := congrArg Answer.error hanswer
      rw [outcome_settle hflag, Outcome.single.injEq] at honly
      obtain rfl : ys = [x] := by
        unfold only? at honly
        split at honly
        · rw [Option.some.inj honly]
        · cases honly
      rw [error_settle, List.length_singleton, shortfall_one, Option.none_or] at herror
      obtain ⟨es', rfl⟩ := List.head?_eq_some_iff.mp herror
      exact ⟨hc, es', hcollect⟩
    · rintro ⟨-, es, hcollect⟩
      rw [exec_bind_of_eq hcollect, exec_pure]
      have hanswer : settle (flagOf l) l.write .values [x] (e :: es) =
          ⟨.single (some x), some e⟩ := by
        rcases hflag with h | h <;> rw [h] <;> rfl
      rw [hanswer]

end Query

theorem Chain.exec_ofArg (filters : Arg) (s : Store) :
    (∃ c, (ofArg filters).exec s = (.ok c, s)) ∨
      ∃ e, (ofArg filters).exec s = (.error e, s) := by
  rw [ofArg, exec_get_bind]
  cases build s filters with
  | ok c => exact .inl ⟨c, rfl⟩
  | error e => exact .inr ⟨e, rfl⟩

namespace RecordRef

variable {s t : Store} {r : RecordRef} {l : Locator} {filters : Arg}

/-- The matches of a locator of values with a flag contribute one value only, and errors, of
which this one comes first. -/
structure OneValueBesideError (s : Store) (r : RecordRef) (l : Locator) (filters : Arg)
    (x : String) (e : QueryError) (t : Store) : Prop where
  wantField : l.wantField = false
  cardinality : l.cardinality ≠ ""
  collected : ∃ (c : Chain) (es : List QueryError), (Chain.ofArg filters).exec s = (.ok c, s) ∧
    (Query.collectValues c.sieve (s.scan r l.alternatives)).exec s = (.ok ([x], e :: es), t)

/-- Such a case takes two matches and a selector that fails on fields without a value. -/
theorem OneValueBesideError.exists_isStrict {x : String} {e : QueryError}
    (h : OneValueBesideError s r l filters x e t) :
    2 ≤ (s.scan r l.alternatives).length ∧
      ∃ m ∈ s.scan r l.alternatives, ∃ sel, m.1.subfield = some sel ∧ Query.IsStrict sel := by
  obtain ⟨c, es, -, hcollect⟩ := h.collected
  obtain ⟨hlength, hstrict⟩ := Query.length_of_collectValues hcollect
  rw [if_neg (by simp), List.length_cons] at hlength
  exact ⟨by omega, hstrict (by simp)⟩

/-- A query for a single result has both a result and an error exactly if its matches
contribute one value only and an error. -/
theorem evaluate_with_error_iff (hs : s.IsIndexed) (hl : l.IsSingle) {d : Datum}
    {e : QueryError} :
    (r.evaluate l filters).exec s = (.ok (d, some e), t) ∧ d ≠ .null ↔
      ∃ x, d = .text x ∧ OneValueBesideError s r l filters x e t := by
  by_cases hfield : l.wantField = true
  · constructor
    · rintro ⟨h, hd⟩
      rw [evaluate] at h
      obtain ⟨⟨ps, sieve⟩, u, -, h⟩ := exec_bind_eq_ok h
      rw [exec_get_bind] at h
      dsimp only at h
      rw [if_pos hfield] at h
      obtain ⟨answer, w, hanswer, h⟩ := exec_bind_eq_ok h
      obtain ⟨y, w', hresult, h⟩ := exec_bind_eq_ok h
      obtain ⟨hpair, -⟩ := exec_pure_eq_ok h
      obtain ⟨rfl, herror⟩ := Prod.mk.inj hpair
      rw [Query.evaluateFields_of_error hl hanswer herror] at hresult
      cases hresult
      exact absurd rfl hd
    · rintro ⟨x, -, h⟩
      rw [h.wantField] at hfield
      cases hfield
  · have hvalue : l.wantField = false := by simpa using hfield
    rcases Chain.exec_ofArg filters s with ⟨c, hc⟩ | ⟨fault, hfault⟩
    · have hfilters : (filtersFor l filters).exec s = (.ok ([], c.sieve), s) := by
        rw [filtersFor, if_neg hfield, exec_bind_of hc, exec_pure]
      have hiff : ∀ x, (Query.evaluateValues s (s.record r).lookup l c.sieve).exec s =
          (.ok ⟨.single (some x), some e⟩, t) ↔ l.cardinality ≠ "" ∧ ∃ es,
            (Query.collectValues c.sieve (s.scan r l.alternatives)).exec s =
              (.ok ([x], e :: es), t) := by
        intro x
        rw [← hs.matching_eq_scan]
        exact Query.evaluateValues_eq_iff hl
      rw [evaluate, exec_bind_of hfilters, exec_get_bind]
      dsimp only
      rw [if_neg hfield]
      constructor
      · rintro ⟨h, hd⟩
        obtain ⟨⟨outcome, error⟩, u, hanswer, h⟩ := exec_bind_eq_ok h
        obtain ⟨hpair, rfl⟩ := exec_pure_eq_ok h
        obtain ⟨rfl, rfl⟩ := Prod.mk.inj hpair
        obtain ⟨x, rfl⟩ := Query.exists_single_of_evaluateValues hl hanswer
        cases x with
        | none => exact absurd rfl hd
        | some x =>
            obtain ⟨hcardinality, es, hcollect⟩ := (hiff x).mp hanswer
            exact ⟨x, rfl, hvalue, hcardinality, c, es, hc, hcollect⟩
      · rintro ⟨x, rfl, h⟩
        obtain ⟨c', es, hc', hcollect⟩ := h.collected
        obtain rfl : c = c' := Except.ok.inj (congrArg Prod.fst (hc.symm.trans hc'))
        rw [exec_bind_of_eq ((hiff x).mpr ⟨h.cardinality, es, hcollect⟩)]
        exact ⟨rfl, by simp⟩
    · constructor
      · rintro ⟨h, -⟩
        rw [evaluate, exec_bind, filtersFor, if_neg hfield, exec_bind, hfault] at h
        cases h
      · rintro ⟨x, -, h⟩
        obtain ⟨c', es, hc', -⟩ := h.collected
        rw [hfault] at hc'
        cases hc'

end RecordRef

namespace Mapping

/-- A key is found beside an error if there is a value that is not empty and an error. -/
theorem mem_finding_both (s : Store) (key d : Datum) (e : Option Datum) :
    (∃ x, (key, x) ∈ (finding s key d e).values) ∧ (∃ x, (key, x) ∈ (finding s key d e).errors) ↔
      isEmpty s d = false ∧ e ≠ none := by
  cases hd : isEmpty s d <;> cases e <;> simp [finding, hd]

end Mapping

namespace Store

variable {s : Store}

/-- A query for a single result has a result and an error together exactly if the values of
its matches are one only, and there is an error of another match. This takes two matches, one
of them with a strict selector, and in all other cases the result is missing whenever there is
an error. In a mapping the key of such a query is among the values and among the errors in
this case and in no other. The matches are those of `s`; filters are not to add to them. -/
theorem Reachable.result_with_error_iff (h : s.Reachable) (r : RecordRef)
    {locator subfield : Arg} {l : Locator}
    (hl : (Arg.toLocator locator subfield).exec s = (.ok l, s)) (hsingle : l.IsSingle)
    (filters : Arg) :
    (∀ d e t, (r.query locator subfield filters).exec s = (.ok (d, some e), t) ∧ d ≠ .null ↔
      ∃ x, d = .text x ∧ RecordRef.OneValueBesideError s r l filters x e t) ∧
    (∀ x e t, RecordRef.OneValueBesideError s r l filters x e t →
      2 ≤ (s.scan r l.alternatives).length ∧
      ∃ m ∈ s.scan r l.alternatives, ∃ sel, m.1.subfield = some sel ∧ Query.IsStrict sel) ∧
    ∀ (text : String), locator = .text text → ∀ key entry : Arg,
      Mapping.Gives entry { locator := text, subfield, filters } → ∀ found t,
        (r.map (.table [(key, entry)])).exec s = (.ok found, t) →
          ((∃ x, (key.forget, x) ∈ found.values) ∧ (∃ x, (key.forget, x) ∈ found.errors) ↔
            ∃ x e, x ≠ "" ∧ RecordRef.OneValueBesideError s r l filters x e t) := by
  have hquery : r.query locator subfield filters =
      Arg.toLocator locator subfield >>= fun l => r.evaluate l filters := rfl
  have hiff : ∀ d e t, (r.query locator subfield filters).exec s = (.ok (d, some e), t) ∧
      d ≠ .null ↔ ∃ x, d = .text x ∧ RecordRef.OneValueBesideError s r l filters x e t := by
    intro d e t
    rw [hquery, exec_bind_of hl]
    exact RecordRef.evaluate_with_error_iff h.isIndexed hsingle
  refine ⟨hiff, fun x e t hx => hx.exists_isStrict, ?_⟩
  rintro text rfl key entry hentry found t hmap
  rw [hentry.exec_map] at hmap
  rcases hrun : (r.query (.text text) subfield filters).exec s with ⟨fault | ⟨d, e⟩, u⟩
  · rw [hrun] at hmap
    cases hmap
  · rw [hrun] at hmap
    cases hmap
    rw [Mapping.mem_finding_both]
    constructor
    · rintro ⟨hd, he⟩
      obtain ⟨e, rfl⟩ : ∃ e', e = some e' :=
        Option.ne_none_iff_exists'.mp fun h => he (congrArg (Option.map Value.error) h)
      have hnull : d ≠ .null := by
        rintro rfl
        cases hd
      obtain ⟨x, rfl, hx⟩ := (hiff d e t).mp ⟨hrun, hnull⟩
      refine ⟨x, e, ?_, hx⟩
      rintro rfl
      cases hd
    · rintro ⟨x, e', hne, hx⟩
      have hboth := (hiff (.text x) e' t).mpr ⟨x, rfl, hx⟩
      obtain ⟨rfl, rfl⟩ := Prod.mk.inj (Except.ok.inj
        (congrArg Prod.fst (hrun.symm.trans hboth.1)))
      exact ⟨by simpa [Mapping.isEmpty, length?, String.length_eq_zero_iff] using hne, by simp⟩

def titles : Store :=
  let s := ((Request.create "Field" [.text "021A"]).exec {}).2
  let s := ((Request.call (.field ⟨0⟩) "append" [.text "a", .text "x"]).exec s).2
  let s := ((Request.create "Field" [.text "021A"]).exec s).2
  let s := ((Request.call (.field ⟨1⟩) "append" [.text "b", .text "y"]).exec s).2
  ((Request.create "Record" [.list [.field ⟨0⟩, .field ⟨1⟩]]).exec s).2

theorem reachable_titles : titles.Reachable := by
  have hfield : ∀ {t : Store} {f : FieldRef}, t.HasField f → Datum.IsIn t (.field f) :=
    fun h => h
  have hfirst := (Reachable.empty.create "Field" (Arg.isIn_texts ["021A"])).call
    (hfield (f := ⟨0⟩) (by decide)) "append" (Arg.isIn_texts ["a", "x"])
  have hsecond := (hfirst.create "Field" (Arg.isIn_texts ["021A"])).call
    (hfield (f := ⟨1⟩) (by decide)) "append" (Arg.isIn_texts ["b", "y"])
  refine hsecond.create "Record" ?_
  intro v hv
  obtain rfl := List.mem_singleton.mp hv
  exact (Value.all_fields [⟨0⟩, ⟨1⟩]).mpr (by decide)

def onlyTitle : Locator :=
  { alternatives :=
      [{ tag := "021A", subfield := some { code := some "a", cardinality := "!" } }]
    cardinality := "!"
    wantField := false
    source := "!021A$a!" }

theorem toLocator_onlyTitle (s : Store) :
    (Arg.toLocator (.text "!021A$a!") .null).exec s = (.ok onlyTitle, s) := rfl

/-- The only title is found, and with it the error of the field without title. -/
theorem query_onlyTitle :
    (RecordRef.query ⟨0⟩ (.text "!021A$a!") .null .null).exec titles =
      (.ok (.text "x", some (.subfieldNotFound { code := some "a", cardinality := "!" } "021A")),
        titles) :=
  rfl

theorem result_with_error_titles :
    titles.Reachable ∧
      RecordRef.OneValueBesideError titles ⟨0⟩ onlyTitle .null "x"
        (.subfieldNotFound { code := some "a", cardinality := "!" } "021A") titles ∧
      2 ≤ (titles.scan ⟨0⟩ onlyTitle.alternatives).length ∧
      ∃ found, (RecordRef.map ⟨0⟩ (.table [(.text "title", .text "!021A$a!")])).exec titles =
          (.ok found, titles) ∧
        (∃ x, (.text "title", x) ∈ found.values) ∧ ∃ x, (.text "title", x) ∈ found.errors := by
  obtain ⟨hquery, htwo, hmap⟩ := reachable_titles.result_with_error_iff ⟨0⟩
    (toLocator_onlyTitle titles) (.inr (.inl rfl)) .null
  obtain ⟨x, hx, hcase⟩ := (hquery _ _ _).mp ⟨query_onlyTitle, nofun⟩
  obtain rfl := Value.text.inj hx
  refine ⟨reachable_titles, hcase, (htwo _ _ _ hcase).1, ?_⟩
  have hrun := (Mapping.Gives.text "!021A$a!").exec_map ⟨0⟩ (.text "title") titles
  rw [query_onlyTitle] at hrun
  exact ⟨_, hrun, (hmap _ rfl _ _ (.text _) _ _ hrun).mpr ⟨"x", _, by decide, hcase⟩⟩

/-- A query for a single result does not always miss the result that it reports an error
for. -/
theorem not_null_of_error :
    ¬ ∀ s : Store, s.Reachable → ∀ (r : RecordRef) (locator subfield filters : Arg)
      (l : Locator), (Arg.toLocator locator subfield).exec s = (.ok l, s) → l.IsSingle →
      ∀ (d : Datum) (e : QueryError) (t : Store),
        (r.query locator subfield filters).exec s = (.ok (d, some e), t) → d = .null := by
  intro h
  have hnull := h titles reachable_titles ⟨0⟩ _ _ .null _ (toLocator_onlyTitle titles)
    (.inr (.inl rfl)) _ _ _ query_onlyTitle
  cases hnull

end Store

end Biblio
