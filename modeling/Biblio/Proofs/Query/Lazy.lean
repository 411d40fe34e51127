import Biblio.Proofs.Query.Cardinality
import Biblio.Proofs.Query.Deterministic

/-!
# The first value beside all values

Asking a field for the first value of a code is not asking for all values and taking the
first: the values behind it are not looked at, and a filter that would fail on one of them is
not asked about it. The first value that is not dropped decides, be it kept or one on which the
filters fail. What is found in this way is the head of all values if there are such, and where
asking for all values fails, it either fails likewise or is found in front of the failure.
-/

namespace Biblio

open Biblio.Action

/-! ## Steps that judge texts by what they are -/

namespace Chain

variable {c : Chain} {s t : Store} {v : String} {vs : List String}

theorem fst_exec_apply (hsteps : ∀ st ∈ c, Callback.JudgesTexts s st.call)
    (hst : s.Leads False t) (v : String) :
    ((c.apply v).exec t).1 = ((c.apply v).exec s).1 ∧ s.Leads False ((c.apply v).exec t).2 := by
  have hends := determined_apply hsteps v t s hst (.refl s)
  rw [Agrees] at hends
  generalize (c.apply v).exec t = x at hends ⊢
  generalize (c.apply v).exec s = y at hends ⊢
  cases hends with
  | value ht _ hxy => exact ⟨by rw [hxy], hst.trans ht⟩
  | fault ht _ e => exact ⟨rfl, hst.trans ht⟩

/-- Values that are dropped one by one are dropped in turn. -/
theorem exists_sifts_nil (hsteps : ∀ st ∈ c, Callback.JudgesTexts s st.call)
    (hst : s.Leads False t) (hvs : ∀ v ∈ vs, ((c.apply v).exec s).1 = .ok none) :
    ∃ u, c.Sifts t vs [] u ∧ s.Leads False u := by
  induction vs generalizing t with
  | nil => exact ⟨t, .nil t, hst⟩
  | cons v vs ih =>
      rw [List.forall_mem_cons] at hvs
      obtain ⟨hfst, ht⟩ := fst_exec_apply hsteps hst v
      obtain ⟨u, hu, hsu⟩ := ih ht hvs.2
      exact ⟨u, .drop (Prod.ext (hfst.trans hvs.1) rfl) hu, hsu⟩

end Chain

/-! ## One code -/

namespace Query

/-- Without error and placeholder the first of all values is the only one asked for. -/
theorem queryField_optional (x : Field) (code : String) (v : Sieve) :
    queryField x { code := some code, cardinality := "?" } v >>=
        (fun found => pure found.1.head?) = v.first (x.valuesFor code) := by
  have hflag : ({ code := some code, cardinality := "?" } : Selector).flag? = some .optional :=
    Flag.ofText?_write .optional
  have hhead : ∀ w : Option String, (checkValues x.fullTag
      { code := some code, cardinality := "?" } w.toList).1.head? = w := by
    intro w
    cases w <;> simp [checkValues, hflag]
  simp only [queryField, hflag, if_true, map_eq_pure_bind, bind_assoc, pure_bind, hhead, bind_pure]

theorem queryField_plain (x : Field) (code : String) (v : Sieve) :
    queryField x { code := some code } v >>= (fun found => pure found.1) =
      v.all (x.valuesFor code) := by
  have hflag : ({ code := some code } : Selector).flag? = none := Flag.ofText?_empty
  have hvalues : ∀ ws : List String, (checkValues x.fullTag { code := some code } ws).1 = ws := by
    intro ws
    cases ws <;> simp [checkValues, hflag]
  simp [queryField, hflag, hvalues]

end Query

namespace FieldRef

variable {s : Store} {filters : Arg} {c : Chain} {code : Char}

theorem exec_first_filters (f : FieldRef) (hcode : Payload.isCode code = true)
    (hc : (Chain.ofArg filters).exec s = (.ok c, s)) :
    (f.first (.text (String.singleton code)) filters).exec s =
      (c.firstKept ((s.field f).valuesFor (String.singleton code))).exec s := by
  have hdefault : ({ code := some (String.singleton code) } : Selector).withDefault "?" =
      { code := some (String.singleton code), cardinality := "?" } := rfl
  have hsel := Arg.exec_fieldSelector (Selector.parse_singleton hcode) s
  rw [first, exec_bind_of hsel, hdefault, exec_bind, f.exec_query_filters hc]
  exact (exec_bind _ _ s).symm.trans
    (congrArg (Action.exec · s) (Query.queryField_optional (s.field f) _ c.sieve))

theorem exec_all_filters (f : FieldRef) (hcode : Payload.isCode code = true)
    (hc : (Chain.ofArg filters).exec s = (.ok c, s)) :
    (f.all (.text (String.singleton code)) filters).exec s =
      (c.applyAll ((s.field f).valuesFor (String.singleton code))).exec s := by
  have hsel := Arg.exec_fieldSelector (Selector.parse_singleton hcode) s
  rw [all, get, bind_assoc, exec_bind_of hsel, exec_bind, f.exec_query_filters hc]
  exact (exec_bind _ _ s).symm.trans
    (congrArg (Action.exec · s) (Query.queryField_plain (s.field f) _ c.sieve))

end FieldRef

namespace Store

variable {s : Store}

/-- The first value of a code after filtering is the first one that the filters do not drop,
or the fault of the filters on it, whatever stands behind it. -/
theorem Reachable.first_stops_early (h : s.Reachable) (f : FieldRef) {code : Char}
    (hcode : Payload.isCode code = true) {filters : Arg} {c : Chain}
    (hc : (Chain.ofArg filters).exec s = (.ok c, s)) :
    let vs := (s.field f).valuesWith (String.singleton code)
    let one := f.first (.text (String.singleton code)) filters
    let many := f.all (.text (String.singleton code)) filters
    (∀ x t, x ≠ .ok none → (one.exec s = (x, t) ↔
      ∃ front v behind u, vs = front ++ v :: behind ∧ c.Sifts s front [] u ∧
        (c.apply v).exec u = (x, t))) ∧
    (∀ t, one.exec s = (.ok none, t) ↔ c.Sifts s vs [] t) ∧
    (∀ ws t, many.exec s = (.ok ws, t) → ∃ u, one.exec s = (.ok ws.head?, u)) ∧
    (∀ e t, many.exec s = (.error e, t) →
      ∃ front v behind ws u, vs = front ++ v :: behind ∧ c.Sifts s front ws u ∧
        (c.apply v).exec u = (.error e, t) ∧
        (ws = [] ∧ one.exec s = (.error e, t) ∨
          ∃ w ∈ ws.head?, ∃ u', one.exec s = (.ok (some w), u'))) ∧
    ((∀ st ∈ c, Callback.JudgesTexts s st.call) →
      (∀ front v behind, vs = front ++ v :: behind →
        (∀ y ∈ front, ((c.apply y).exec s).1 = .ok none) →
        ((c.apply v).exec s).1 ≠ .ok none → (one.exec s).1 = ((c.apply v).exec s).1) ∧
      ((∀ y ∈ vs, ((c.apply y).exec s).1 = .ok none) → (one.exec s).1 = .ok none)) := by
  intro vs one many
  have hvs : (s.field f).valuesFor (String.singleton code) = vs :=
    (h.leads.isBuilt f).valuesFor_eq_valuesWith _
  have hone : one.exec s = (c.firstKept vs).exec s := by
    rw [← hvs]
    exact f.exec_first_filters hcode hc
  have hmany : many.exec s = (c.applyAll vs).exec s := by
    rw [← hvs]
    exact f.exec_all_filters hcode hc
  rw [hone, hmany]
  refine ⟨fun x t hx => Chain.exec_firstKept_eq_iff hx,
    fun t => Chain.exec_firstKept_eq_none_iff, fun ws t hall => ?_, fun e t hall => ?_,
    fun hsteps => ⟨fun front v behind hsplit hfront hv => ?_, fun hdropped => ?_⟩⟩
  · exact (Chain.exec_applyAll_eq_ok_iff.mp hall).exists_exec_firstKept
  · obtain ⟨front, v, behind, ws, u, hsplit, hfront, hv⟩ :=
      Chain.exists_of_exec_applyAll_eq_error hall
    refine ⟨front, v, behind, ws, u, hsplit, hfront, hv, ?_⟩
    rw [hsplit]
    cases ws with
    | nil =>
        have hfirst : (c.firstKept (front ++ v :: behind)).exec s = (.error e, t) :=
          (Chain.exec_firstKept_eq_iff (by simp)).mpr ⟨front, v, behind, u, rfl, hfront, hv⟩
        exact .inl ⟨rfl, hfirst⟩
    | cons w ws => exact .inr ⟨w, rfl, hfront.exists_exec_firstKept_append (v :: behind)⟩
  · obtain ⟨u, hsifts, hu⟩ := Chain.exists_sifts_nil hsteps (.refl s) hfront
    obtain ⟨hfst, -⟩ := Chain.fst_exec_apply hsteps hu v
    have hfirst : (c.firstKept vs).exec s = (((c.apply v).exec s).1, ((c.apply v).exec u).2) :=
      (Chain.exec_firstKept_eq_iff hv).mpr
        ⟨front, v, behind, u, hsplit, hsifts, Prod.ext hfst rfl⟩
    rw [hfirst]
  · obtain ⟨u, hsifts, -⟩ := Chain.exists_sifts_nil hsteps (.refl s) hdropped
    rw [Chain.exec_firstKept_eq_none_iff.mpr hsifts]

/-- The filter that keeps every text but one, on which it fails. -/
def failingOn (bad : String) : Callback
  | .text t => if t = bad then throw (.raised .value bad) else return .bool true
  | _ => return .bool false

theorem judgesTexts_failingOn (s : Store) (bad : String) :
    Callback.JudgesTexts s (failingOn bad) := by
  intro t u _ _ x
  rw [failingOn]
  by_cases hx : x = bad
  · rw [if_pos hx]
    exact agrees_throw _
  · rw [if_neg hx]
    exact agrees_pure rfl

/-- The first of the values `x`, `z` and `$v` is found in front of a failure on `z`, and not in
front of one on itself. -/
theorem first_stops_early_uneven :
    uneven.Reachable ∧ Payload.isCode 'a' = true ∧
      (∀ bad, (Chain.ofArg (.callback (failingOn bad))).exec uneven =
        (.ok [.each (failingOn bad)], uneven)) ∧
      (FieldRef.all ⟨0⟩ (.text "a") (.callback (failingOn "z"))).exec uneven =
        (.error (.raised .value "z"), uneven) ∧
      (FieldRef.first ⟨0⟩ (.text "a") (.callback (failingOn "z"))).exec uneven =
        (.ok (some "x"), uneven) ∧
      (∀ st ∈ [Step.each (failingOn "x")], Callback.JudgesTexts uneven st.call) ∧
      ((FieldRef.first ⟨0⟩ (.text "a") (.callback (failingOn "x"))).exec uneven).1 =
        .error (.raised .value "x") := by
  have hcode : Payload.isCode 'a' = true := by decide
  have hc : ∀ bad, (Chain.ofArg (.callback (failingOn bad))).exec uneven =
      (.ok [.each (failingOn bad)], uneven) := fun _ => rfl
  have hsteps : ∀ st ∈ [Step.each (failingOn "x")], Callback.JudgesTexts uneven st.call := by
    simp only [List.mem_singleton, forall_eq]
    exact judgesTexts_failingOn uneven "x"
  obtain ⟨hbehind, -⟩ := reachable_uneven.first_stops_early ⟨0⟩ hcode (hc "z")
  obtain ⟨-, -, -, -, hjudged⟩ := reachable_uneven.first_stops_early ⟨0⟩ hcode (hc "x")
  have hbad : ((Chain.apply [.each (failingOn "x")] "x").exec uneven).1 ≠ .ok none := by
    intro hdropped
    cases hdropped
  refine ⟨reachable_uneven, hcode, hc, rfl, ?_, hsteps, ?_⟩
  · exact (hbehind (.ok (some "x")) uneven (by simp)).mpr
      ⟨[], "x", ["z", "$v"], uneven, rfl, .nil _, rfl⟩
  · exact (hjudged hsteps).1 [] "x" ["z", "$v"] rfl (by simp) hbad

end Store

end Biblio
