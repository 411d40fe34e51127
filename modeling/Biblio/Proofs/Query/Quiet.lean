import Biblio.Proofs.Store.Step
import Biblio.Request.Record

/-!
# Queries with quiet filters

Filters are quiet in a store if they neither fail nor change the store. Then so is a query
that uses them, and what it finds is what list functions make of the answers that they
give: of the fields, those that meet all conditions; of the values of a field, what a
chain keeps of them, held against the flag of a selector.
-/

namespace Biblio

namespace Action

variable {α β : Type} {s : Store} {a : Action α} {x : α}

def value? (a : Action α) (s : Store) : Option α :=
  match (a.exec s).1 with
  | .ok x => some x
  | .error _ => none

theorem value?_of_exec {t : Store} (h : a.exec s = (.ok x, t)) : a.value? s = some x := by
  rw [value?, h]

/-- Behind an action that gives a value and changes nothing, the rest runs on that
value. -/
theorem exec_bind_of (h : a.exec s = (.ok x, s)) (f : α → Action β) :
    (a >>= f).exec s = (f x).exec s := by
  rw [exec_bind, h]

/-- The rest runs on the value and in the store that an action ends with. -/
theorem exec_bind_of_eq {t : Store} (h : a.exec s = (.ok x, t)) (f : α → Action β) :
    (a >>= f).exec s = (f x).exec t := by
  rw [exec_bind, h]

theorem exec_bind_eq_ok {f : α → Action β} {y : β} {t : Store}
    (h : (a >>= f).exec s = (.ok y, t)) :
    ∃ x u, a.exec s = (.ok x, u) ∧ (f x).exec u = (.ok y, t) := by
  rw [exec_bind] at h
  split at h
  · next x u hx => exact ⟨x, u, hx, h⟩
  · cases h

theorem exec_pure_eq_ok {y : α} {t : Store} (h : (pure x : Action α).exec s = (.ok y, t)) :
    x = y ∧ s = t := by
  rw [exec_pure] at h
  cases h
  exact ⟨rfl, rfl⟩

theorem exec_map_of (h : a.exec s = (.ok x, s)) (g : α → β) :
    (g <$> a).exec s = (.ok (g x), s) := by
  rw [map_eq_pure_bind, exec_bind_of h, exec_pure]

theorem exec_get_bind (f : Store → Action β) :
    ((get : Action Store) >>= f).exec s = (f s).exec s :=
  exec_bind_of (x := s) rfl f

end Action

open Biblio.Action

variable {s : Store}

namespace Query

/-! ## Conditions -/

/-- Whether a field meets all conditions. -/
def meets (s : Store) (ps : List Predicate) (f : FieldRef) : Bool :=
  ps.all fun p => (p f).value? s == some true

variable {ps : List Predicate}

theorem exec_satisfies {f : FieldRef} (h : ∀ p ∈ ps, ∃ b, (p f).exec s = (.ok b, s)) :
    (satisfies ps f).exec s = (.ok (meets s ps f), s) := by
  induction ps with
  | nil => rfl
  | cons p ps ih =>
      obtain ⟨b, hb⟩ := h p (by simp)
      rw [satisfies, exec_bind_of hb, meets, List.all_cons, value?_of_exec hb]
      cases b with
      | false => rfl
      | true => simpa [meets] using ih fun q hq => h q (by simp [hq])

theorem exec_keepFields {fs : List FieldRef}
    (h : ∀ p ∈ ps, ∀ f ∈ fs, ∃ b, (p f).exec s = (.ok b, s)) :
    (keepFields ps fs).exec s = (.ok (fs.filter (meets s ps)), s) := by
  induction fs with
  | nil => rfl
  | cons f fs ih =>
      have hrest := ih fun p hp g hg => h p hp g (by simp [hg])
      rw [keepFields, exec_bind_of (exec_satisfies fun p hp => h p hp f (by simp))]
      cases hf : meets s ps f with
      | false => simpa [hf] using hrest
      | true =>
          rw [if_pos rfl, exec_bind_of hrest, List.filter_cons_of_pos hf]
          rfl

theorem exec_firstField {fs : List FieldRef}
    (h : ∀ p ∈ ps, ∀ f ∈ fs, ∃ b, (p f).exec s = (.ok b, s)) :
    (firstField ps fs).exec s = (.ok (fs.filter (meets s ps)).head?, s) := by
  induction fs with
  | nil => rfl
  | cons f fs ih =>
      have hrest := ih fun p hp g hg => h p hp g (by simp [hg])
      rw [firstField, exec_bind_of (exec_satisfies fun p hp => h p hp f (by simp))]
      cases hf : meets s ps f with
      | false => simpa [hf] using hrest
      | true =>
          rw [if_pos rfl, List.filter_cons_of_pos hf]
          rfl

/-! ## Values -/

/-- Whether a sieve is quiet on values and lets through of them what a function keeps. -/
structure Sieve.Keeps (s : Store) (v : Sieve) (keep : String → Option String)
    (values : List String) : Prop where
  all : ∀ xs ⊆ values, (v.all xs).exec s = (.ok (xs.filterMap keep), s)
  first : ∀ xs ⊆ values, (v.first xs).exec s = (.ok (xs.filterMap keep).head?, s)

/-- The values of a field that a selector selects of those that are kept, or the error if
they are not as many as the selector asks for. -/
def select (keep : String → Option String) (x : Field) (sel : Selector) :
    List String × Option QueryError :=
  match sel.code with
  | none => (x.values.filterMap keep, none)
  | some code =>
    let found := (x.valuesFor code).filterMap keep
    checkValues x.fullTag sel (if sel.flag? = some .optional then found.head?.toList else found)

theorem valuesFor_subset (x : Field) (code : String) : x.valuesFor code ⊆ x.values := by
  intro v hv
  rw [Field.valuesFor, List.mem_filterMap] at hv
  obtain ⟨i, -, hi⟩ := hv
  rw [Field.valueAt?, ← List.getElem?_map] at hi
  exact List.mem_of_getElem? hi

variable {v : Sieve} {keep : String → Option String}

theorem exec_queryField {x : Field} (h : v.Keeps s keep x.values) (sel : Selector) :
    (queryField x sel v).exec s = (.ok (select keep x sel), s) := by
  rw [queryField, select]
  cases sel.code with
  | none => rw [exec_bind_of (h.all _ (List.Subset.refl _)), exec_pure]
  | some code =>
      have hsub := valuesFor_subset x code
      dsimp only
      by_cases hflag : sel.flag? = some .optional
      · rw [if_pos hflag, if_pos hflag, exec_bind_of (exec_map_of (h.first _ hsub) _), exec_pure]
      · rw [if_neg hflag, if_neg hflag, exec_bind_of (h.all _ hsub), exec_pure]

def contribution (s : Store) (keep : String → Option String) (m : Match) :
    List String × Option QueryError :=
  select keep (s.field m.2) (m.1.subfield.getD .all)

theorem exec_selectorOf {a : Alternative} (h : a.subfield ≠ none) (part : String) :
    (selectorOf part a).exec s = (.ok (a.subfield.getD .all), s) := by
  obtain ⟨sel, hsel⟩ := Option.ne_none_iff_exists'.mp h
  rw [selectorOf, hsel]
  rfl

theorem exec_collectValues {ms : List Match} (hsel : ∀ m ∈ ms, m.1.subfield ≠ none)
    (h : ∀ m ∈ ms, v.Keeps s keep (s.field m.2).values) :
    (collectValues v ms).exec s =
      (.ok (ms.flatMap fun m => (contribution s keep m).1,
        ms.filterMap fun m => (contribution s keep m).2), s) := by
  induction ms with
  | nil => rfl
  | cons m ms ih =>
      have hhead := exec_queryField (h m (by simp)) (m.1.subfield.getD .all)
      have hrest := ih (fun m hm => hsel m (by simp [hm])) fun m hm => h m (by simp [hm])
      rw [collectValues, exec_bind_of (exec_field m.2 s),
        exec_bind_of (exec_selectorOf (hsel m (by simp)) "code"), exec_bind_of hhead,
        exec_bind_of hrest, exec_pure, List.flatMap_cons, List.filterMap_cons]
      cases herror : (contribution s keep m).2 <;>
        rw [← contribution, herror] <;> rfl

/-- The first value of a field under the selector of an alternative, by default of one that
asks for the first, and the error if the selector is not met. -/
def firstContribution (s : Store) (keep : String → Option String) (m : Match) :
    Option String × Option QueryError :=
  let found := select keep (s.field m.2) ((m.1.subfield.getD .all).withDefault "?")
  (found.1.head?, found.2)

/-- The first match decides about the first value. -/
theorem exec_firstValue {lookup : Lookup} {as : List Alternative}
    (hsel : ∀ a ∈ as, a.subfield ≠ none)
    (h : ∀ m ∈ (matching s lookup as).head?, v.Keeps s keep (s.field m.2).values) :
    (firstValue s lookup v as).exec s =
      (.ok (((matching s lookup as).head?.map (firstContribution s keep)).getD (none, none)),
        s) := by
  induction as with
  | nil => rfl
  | cons a as ih =>
      have ha := exec_selectorOf (s := s) (hsel a (by simp)) "with_default"
      have hfind : (lookup a.tag).find? (accepts s a) =
          ((lookup a.tag).filter (accepts s a)).head? := by simp
      rw [firstValue, exec_bind_of ha, hfind]
      -- An alternative without matches is passed over; any other one holds the first match.
      cases hfound : (lookup a.tag).filter (accepts s a) with
      | nil =>
          have hmatching : matching s lookup (a :: as) = matching s lookup as := by
            simp [matching, hfound]
          rw [hmatching] at h ⊢
          exact ih (fun b hb => hsel b (by simp [hb])) h
      | cons f fs =>
          have hhead : (matching s lookup (a :: as)).head? = some (a, f) := by
            simp [matching, hfound]
          rw [hhead] at h ⊢
          have hquery := exec_queryField (h (a, f) rfl) ((a.subfield.getD .all).withDefault "?")
          dsimp only [List.head?_cons]
          rw [exec_bind_of (exec_field f s), exec_bind_of hquery, exec_pure]
          rfl

end Query

/-! ## Chains -/

namespace Chain

def kept (s : Store) (c : Chain) (x : String) : Option String :=
  ((c.apply x).value? s).join

variable {c : Chain} {values : List String}

theorem exec_apply {x : String} (h : ∃ w, (c.apply x).exec s = (.ok w, s)) :
    (c.apply x).exec s = (.ok (c.kept s x), s) := by
  obtain ⟨w, hw⟩ := h
  rw [kept, value?_of_exec hw, hw]
  rfl

/-- A chain that asks one callback is quiet where the callback is. -/
theorem exec_apply_each {f : Callback} {x : String} {d : Datum}
    (h : (f (.text x)).exec s = (.ok d, s)) :
    ∃ w, (apply [.each f] x).exec s = (.ok w, s) := by
  rw [apply, Step.call, exec_bind_of h]
  cases (Verdict.ofDatum d).apply x <;> exact ⟨_, rfl⟩

theorem exec_applyAll {xs : List String} (h : ∀ x ∈ xs, ∃ w, (c.apply x).exec s = (.ok w, s)) :
    (c.applyAll xs).exec s = (.ok (xs.filterMap (c.kept s)), s) := by
  induction xs with
  | nil => rfl
  | cons x xs ih =>
      have hrest := ih fun y hy => h y (by simp [hy])
      rw [applyAll, exec_bind_of (exec_apply (h x (by simp))), List.filterMap_cons]
      cases hx : c.kept s x with
      | none => exact hrest
      | some w =>
          dsimp only
          rw [exec_bind_of hrest, exec_pure]

theorem exec_firstKept {xs : List String} (h : ∀ x ∈ xs, ∃ w, (c.apply x).exec s = (.ok w, s)) :
    (c.firstKept xs).exec s = (.ok (xs.filterMap (c.kept s)).head?, s) := by
  induction xs with
  | nil => rfl
  | cons x xs ih =>
      have hrest := ih fun y hy => h y (by simp [hy])
      rw [firstKept, exec_bind_of (exec_apply (h x (by simp))), List.filterMap_cons]
      cases hx : c.kept s x with
      | none => exact hrest
      | some w => rfl

/-- A chain that is quiet on values is a sieve that keeps what the chain keeps. -/
theorem keeps_sieve (h : ∀ x ∈ values, ∃ w, (c.apply x).exec s = (.ok w, s)) :
    c.sieve.Keeps s (c.kept s) values where
  all := fun _ hxs => exec_applyAll fun x hx => h x (hxs hx)
  first := fun _ hxs => exec_firstKept fun x hx => h x (hxs hx)

end Chain

end Biblio
