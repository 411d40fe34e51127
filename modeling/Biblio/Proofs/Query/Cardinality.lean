import Biblio.Proofs.Access
import Biblio.Proofs.Filter.Sifting
import Biblio.Proofs.Query.Single

/-!
# Numbers of values of a field

The flag of a selector is held against the values that are left of those with its code when
the filters have been asked about all of them. `MeetsFlag` is the table of what a flag makes of
these values, with the errors and the placeholder, and a query of a field answers by it. The
flag `?` asks about no more values than it needs, but the first of the values that are left
does not depend on the ones behind it.
-/

namespace Biblio

open Biblio.Action

def Field.valuesWith (x : Field) (code : String) : List String :=
  (x.subfields.filter fun sf => sf.code == code).map Subfield.value

theorem Field.IsBuilt.valuesFor_eq_valuesWith {x : Field} {plain : Prop} (h : x.IsBuilt plain)
    (code : String) : x.valuesFor code = x.valuesWith code :=
  h.valuesFor_eq code

theorem Flag.ofText?_text (k : Option Flag) : ofText? (text k) = k := by
  cases k with
  | none => exact ofText?_empty
  | some k => exact ofText?_write k

namespace Query

variable {sel : Selector}

/-- A selector that is not strict has nothing to add but a placeholder. -/
theorem checkValues_of_not_isStrict (h : ¬IsStrict sel) (fullTag : String) (xs : List String) :
    checkValues fullTag sel xs = (if xs = [] ∧ sel.placeholder = true then [""] else xs, none) := by
  have hone : sel.flag? ≠ some .one := fun hflag => h (.inl hflag)
  have hsome : sel.flag? ≠ some .some := fun hflag => h (.inr hflag)
  rw [checkValues, if_neg (by simp [hone, hsome]), if_neg (by simp [hone])]
  cases xs <;> cases sel.placeholder <;> rfl

/-- What a selector makes of the values that are left of those with its code: a list of values,
or none and an error if they are not as many as its flag `k` asks for. -/
structure MeetsFlag (k : Option Flag) (sel : Selector) (fullTag : String) (left xs : List String)
    (e : Option QueryError) : Prop where
  error_iff : e ≠ none ↔ k = some .one ∧ left.length ≠ 1 ∨ k = some .some ∧ left = []
  error : ∀ err ∈ e, xs = [] ∧
    (left = [] ∧ err = .subfieldNotFound sel fullTag ∨
      2 ≤ left.length ∧ err = .subfieldRepeated sel fullTag left.length)
  values : e = none →
    xs = if left = [] ∧ sel.placeholder = true then [""] else lookedAt k left

theorem meetsFlag_checkValues {k : Option Flag} (hk : sel.flag? = k) (fullTag : String)
    (left : List String) :
    MeetsFlag k sel fullTag left (checkValues fullTag sel (lookedAt k left)).1
      (checkValues fullTag sel (lookedAt k left)).2 := by
  by_cases hstrict : IsStrict sel
  · rcases hstrict with hflag | hflag
    · obtain rfl : some .one = k := hflag.symm.trans hk
      rcases left with _ | ⟨x, _ | ⟨y, left⟩⟩
      · constructor <;> simp [checkValues, lookedAt, hflag]
      · constructor <;> simp [checkValues, lookedAt, hflag]
      · constructor <;> simp [checkValues, lookedAt, hflag]
    · obtain rfl : some .some = k := hflag.symm.trans hk
      rcases left with _ | ⟨x, left⟩
      · constructor <;> simp [checkValues, lookedAt, hflag]
      · constructor <;> simp [checkValues, lookedAt, hflag]
  · have hone : k ≠ some .one := fun h => hstrict (.inl (hk.trans h))
    have hsome : k ≠ some .some := fun h => hstrict (.inr (hk.trans h))
    have hnil : lookedAt k left = [] ↔ left = [] := by
      unfold lookedAt
      split <;> simp
    rw [checkValues_of_not_isStrict hstrict]
    refine ⟨by simp [hone, hsome], by simp, fun _ => ?_⟩
    simp only [hnil]

/-- A query of a field for a code gives what the selector makes of the values that are
left. -/
theorem exec_queryField_eq_ok_iff {c : Chain} {s t : Store} {x : Field} {code : String}
    (hcode : sel.code = some code) {found : List String × Option QueryError} :
    (queryField x sel c.sieve).exec s = (.ok found, t) ↔
      ∃ left, c.Leaves sel.flag? (x.valuesFor code) s left t ∧
        found = checkValues x.fullTag sel left := by
  rw [queryField, hcode]
  dsimp only
  by_cases hflag : sel.flag? = some .optional
  · rw [if_pos hflag, hflag, map_eq_pure_bind, bind_assoc]
    constructor
    · intro h
      obtain ⟨w, u, hfirst, h⟩ := exec_bind_eq_ok h
      rw [pure_bind] at h
      obtain ⟨rfl, rfl⟩ := exec_pure_eq_ok h
      exact ⟨w.toList, Chain.exec_firstKept_eq_ok_iff.mp hfirst, rfl⟩
    · rintro ⟨left, h, rfl⟩
      obtain ⟨w, rfl⟩ : ∃ w : Option String, left = w.toList := by
        cases h with
        | all hk => exact absurd rfl hk
        | first => exact ⟨some _, rfl⟩
        | none => exact ⟨none, rfl⟩
      have hfirst : (c.sieve.first (x.valuesFor code)).exec s = (.ok w, t) :=
        Chain.exec_firstKept_eq_ok_iff.mpr h
      rw [exec_bind_of_eq hfirst, pure_bind, exec_pure]
  · rw [if_neg hflag]
    constructor
    · intro h
      obtain ⟨left, u, hall, h⟩ := exec_bind_eq_ok h
      obtain ⟨rfl, rfl⟩ := exec_pure_eq_ok h
      exact ⟨left, .all hflag (Chain.exec_applyAll_eq_ok_iff.mp hall), rfl⟩
    · rintro ⟨left, h, rfl⟩
      cases h with
      | all _ h =>
          have hall : (c.sieve.all (x.valuesFor code)).exec s = (.ok left, t) :=
            Chain.exec_applyAll_eq_ok_iff.mpr h
          rw [exec_bind_of_eq hall, exec_pure]
      | first hk | none hk => exact absurd hk hflag

end Query

theorem FieldRef.exec_query_filters {s : Store} {filters : Arg} {c : Chain} (f : FieldRef)
    (hc : (Chain.ofArg filters).exec s = (.ok c, s)) (sel : Selector) :
    (f.query sel filters).exec s = (Query.queryField (s.field f) sel c.sieve).exec s := by
  rw [query, exec_bind_of hc, exec_bind_of (exec_field f s)]

namespace Store

variable {s : Store}

/-- A query of a field answers by the table of its flag, held against the values that the
filters keep of those with its code. Without code it answers with all that they keep. -/
theorem Reachable.query_meets_flag (h : s.Reachable) (f : FieldRef) {filters : Arg} {c : Chain}
    (hc : (Chain.ofArg filters).exec s = (.ok c, s)) :
    (∀ (code : String) (k : Option Flag) (placeholder : Bool) (left : List String) (t : Store),
      c.Sifts s ((s.field f).valuesWith code) left t →
      let sel : Selector := { code := some code, cardinality := Flag.text k, placeholder }
      ∃ xs e u, (f.query sel filters).exec s = (.ok (xs, e), u) ∧
        (k ≠ some .optional → u = t) ∧
        Query.MeetsFlag k sel (s.field f).fullTag left xs e) ∧
    ∀ (cardinality : String) (placeholder : Bool) (left : List String) (t : Store),
      c.Sifts s (s.field f).values left t →
      (f.query { code := none, cardinality, placeholder } filters).exec s =
        (.ok (left, none), t) := by
  constructor
  · intro code k placeholder left t hleft sel
    have hflag : sel.flag? = k := Flag.ofText?_text k
    rw [← (h.leads.isBuilt f).valuesFor_eq_valuesWith] at hleft
    obtain ⟨u, hleaves, hu⟩ := hleft.exists_leaves k
    refine ⟨_, _, u, ?_, hu, Query.meetsFlag_checkValues hflag (s.field f).fullTag left⟩
    rw [f.exec_query_filters hc]
    exact (Query.exec_queryField_eq_ok_iff rfl).mpr ⟨_, hflag ▸ hleaves, rfl⟩
  · intro cardinality placeholder left t hleft
    have hall : (c.sieve.all (s.field f).values).exec s = (.ok left, t) :=
      Chain.exec_applyAll_eq_ok_iff.mpr hleft
    rw [f.exec_query_filters hc, Query.queryField]
    dsimp only
    rw [exec_bind_of_eq hall, exec_pure]

def oneCharacter : Callback
  | .text t => return .bool (t.length == 1)
  | _ => return .bool false

theorem sifts_oneCharacter :
    Chain.Sifts [.each oneCharacter] uneven ((uneven.field ⟨0⟩).valuesWith "a") ["x", "z"] uneven :=
  .keep rfl (.keep rfl (.drop rfl (.nil _)))

/-- Of the three values with the code `a` two are of one character. -/
theorem query_meets_flag_uneven :
    uneven.Reachable ∧
      (Chain.ofArg (.callback oneCharacter)).exec uneven = (.ok [.each oneCharacter], uneven) ∧
      Chain.Sifts [.each oneCharacter] uneven ((uneven.field ⟨0⟩).valuesWith "a") ["x", "z"]
        uneven ∧
      (FieldRef.query ⟨0⟩ { code := some "a", cardinality := "!" } (.callback oneCharacter)).exec
          uneven =
        (.ok ([], some (.subfieldRepeated { code := some "a", cardinality := "!" } "021A" 2)),
          uneven) := by
  have hc : (Chain.ofArg (.callback oneCharacter)).exec uneven =
      (.ok [.each oneCharacter], uneven) := rfl
  refine ⟨reachable_uneven, hc, sifts_oneCharacter, ?_⟩
  obtain ⟨hcode, -⟩ := reachable_uneven.query_meets_flag ⟨0⟩ hc
  obtain ⟨xs, e, u, hquery, hu, hmeets⟩ :=
    hcode "a" (some .one) false ["x", "z"] uneven sifts_oneCharacter
  obtain rfl := hu (by decide)
  obtain ⟨err, rfl⟩ := Option.ne_none_iff_exists'.mp (hmeets.error_iff.mpr (.inl (by decide)))
  obtain ⟨rfl, hnone | ⟨-, rfl⟩⟩ := hmeets.error err rfl
  · exact absurd hnone.1 (by decide)
  · exact hquery

end Store

end Biblio
