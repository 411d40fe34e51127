import Biblio.Proofs.Store.Contents

/-!
# Queries as runs of steps

A query with predicates and sieves that act by steps makes steps only, and what it finds
exists: fields are found among those of the record, which exist since the store is indexed.
The same holds of the items and the properties of values.
-/

namespace Biblio

open Biblio.Action

variable {s t : Store} {growth : Prop}

namespace Query

/-- Whether a predicate does, from a store on, nothing but make steps. -/
def Predicate.Acts (growth : Prop) (s : Store) (p : Predicate) : Prop :=
  ∀ t, s.Leads growth t → ∀ f, t.HasField f → (p f).Steps growth t

structure Sieve.Acts (growth : Prop) (s : Store) (v : Sieve) : Prop where
  all : ∀ t, s.Leads growth t → ∀ xs, (v.all xs).Steps growth t
  first : ∀ t, s.Leads growth t → ∀ xs, (v.first xs).Steps growth t

theorem Predicate.Acts.mono {p : Predicate} (h : p.Acts growth s) (hst : s.Leads growth t) :
    p.Acts growth t :=
  fun u htu => h u (hst.trans htu)

theorem Sieve.Acts.mono {v : Sieve} (h : v.Acts growth s) (hst : s.Leads growth t) :
    v.Acts growth t :=
  ⟨fun u htu => h.all u (hst.trans htu), fun u htu => h.first u (hst.trans htu)⟩

theorem acts_pass : Sieve.pass.Acts growth s :=
  ⟨fun _ _ _ => runs_pure fun _ => trivial, fun _ _ _ => runs_pure fun _ => trivial⟩

variable {ps : List Predicate} {v : Sieve}

/-! ## Fields -/

theorem steps_satisfies (hps : ∀ p ∈ ps, p.Acts growth s) {f : FieldRef} (hf : s.HasField f) :
    (satisfies ps f).Steps growth s := by
  induction ps generalizing s with
  | nil => exact runs_pure fun _ => trivial
  | cons p ps ih =>
      refine (hps p (by simp) s (.refl s) f hf).bind fun b t hst _ => ?_
      cases b with
      | false => exact runs_pure fun _ => trivial
      | true => exact ih (fun q hq => (hps q (by simp [hq])).mono hst) (hf.mono hst)

theorem runs_keepFields (hps : ∀ p ∈ ps, p.Acts growth s) {fs : List FieldRef}
    (hfs : ∀ f ∈ fs, s.HasField f) :
    (keepFields ps fs).Runs growth s fun gs _ => gs ⊆ fs := by
  induction fs generalizing s with
  | nil => exact runs_pure fun _ => List.Subset.refl _
  | cons f fs ih =>
      refine (steps_satisfies hps (hfs f (by simp))).bind fun b t hst _ => ?_
      have hrest := ih (fun p hp => (hps p hp).mono hst) fun g hg => (hfs g (by simp [hg])).mono hst
      cases b with
      | false => exact hrest.imp fun gs _ _ _ hgs => List.subset_cons_of_subset f hgs
      | true =>
          exact hrest.bind fun gs _ _ hgs => runs_pure fun _ => List.cons_subset_cons f hgs

theorem runs_firstField (hps : ∀ p ∈ ps, p.Acts growth s) {fs : List FieldRef}
    (hfs : ∀ f ∈ fs, s.HasField f) :
    (firstField ps fs).Runs growth s fun g _ => ∀ f ∈ g, f ∈ fs := by
  induction fs generalizing s with
  | nil => exact runs_pure fun _ => by simp
  | cons f fs ih =>
      refine (steps_satisfies hps (hfs f (by simp))).bind fun b t hst _ => ?_
      have hrest := ih (fun p hp => (hps p hp).mono hst) fun g hg => (hfs g (by simp [hg])).mono hst
      cases b with
      | false => exact hrest.imp fun g _ _ _ hg x hx => List.mem_cons_of_mem f (hg x hx)
      | true => exact runs_pure fun _ => by simp

/-- What a query matches are fields of the record. -/
theorem mem_fields_of_mem_matching (hs : s.IsIndexed) {r : RecordRef} {as : List Alternative}
    {f : FieldRef} (hf : f ∈ (matching s (s.record r).lookup as).map Prod.snd) :
    f ∈ (s.record r).fields := by
  simp only [matching, List.map_flatMap, List.mem_flatMap, List.map_map, List.mem_map,
    List.mem_filter, Function.comp] at hf
  obtain ⟨a, -, g, ⟨hg, -⟩, rfl⟩ := hf
  rw [hs.lookup_eq, List.mem_filter] at hg
  exact hg.1

theorem hasField_of_mem_matching (hs : s.IsIndexed) {r : RecordRef} {as : List Alternative}
    {f : FieldRef} (hf : f ∈ (matching s (s.record r).lookup as).map Prod.snd) :
    s.HasField f :=
  hs.hasField r f (mem_fields_of_mem_matching hs hf)

/-! ## Values -/

theorem steps_queryField (hv : v.Acts growth s) (x : Field) (sel : Selector) :
    (queryField x sel v).Steps growth s := by
  rw [queryField]
  cases sel.code with
  | none => exact (hv.all s (.refl s) _).bind fun _ _ _ _ => runs_pure fun _ => trivial
  | some code =>
      dsimp only
      split
      · refine Runs.bind (P := fun _ _ => True) ?_ fun _ _ _ _ => runs_pure fun _ => trivial
        exact (hv.first s (.refl s) _).map fun _ _ _ _ _ => trivial
      · exact (hv.all s (.refl s) _).bind fun _ _ _ _ => runs_pure fun _ => trivial

theorem steps_selectorOf (part : String) (a : Alternative) :
    (selectorOf part a).Steps growth s := by
  rw [selectorOf]
  cases a.subfield with
  | none => exact runs_throw _
  | some sel => exact runs_pure fun _ => trivial

theorem steps_collectValues (hv : v.Acts growth s) (ms : List Match) :
    (collectValues v ms).Steps growth s := by
  induction ms generalizing s with
  | nil => exact runs_pure fun _ => trivial
  | cons m ms ih =>
      refine runs_field_bind ((steps_selectorOf "code" m.1).bind fun sel t hst _ => ?_)
      refine (steps_queryField (hv.mono hst) _ sel).bind fun _ u htu _ => ?_
      exact (ih (hv.mono (hst.trans htu))).bind fun _ _ _ _ => runs_pure fun _ => trivial

theorem steps_firstValue (hv : v.Acts growth s) (s' : Store) (lookup : Lookup)
    (as : List Alternative) : (firstValue s' lookup v as).Steps growth s := by
  induction as generalizing s with
  | nil => exact runs_pure fun _ => trivial
  | cons a as ih =>
      refine (steps_selectorOf "with_default" a).bind fun sel t hst _ => ?_
      dsimp only
      cases (lookup a.tag).find? (accepts s' a) with
      | none => exact ih (hv.mono hst)
      | some f =>
          refine runs_field_bind ((steps_queryField (hv.mono hst) _ _).bind fun _ _ _ _ => ?_)
          exact runs_pure fun _ => trivial

/-! ## Cardinality -/

def Outcome.toList {α : Type} : Outcome α → List α
  | single x => x.toList
  | several xs => xs

theorem toList_settle_subset {α : Type} (flag : Flag) (source : String) (kind : MatchKind)
    (xs : List α) (errors : List QueryError) :
    ∀ x ∈ (settle flag source kind xs errors).outcome.toList, x ∈ xs := by
  intro x hx
  cases flag with
  | some => exact hx
  | any => exact hx
  | one | optional =>
      match xs, hx with
      | [y], hx => simpa [settle, Outcome.toList, only?] using hx

theorem runs_evaluateFields (hps : ∀ p ∈ ps, p.Acts growth s) (hs : s.IsIndexed) (r : RecordRef)
    (l : Locator) :
    (evaluateFields s (s.record r).lookup l ps).Runs growth s
      fun answer _ => answer.outcome.toList ⊆ (s.record r).fields := by
  have hfound : ∀ f ∈ (matching s (s.record r).lookup l.alternatives).map Prod.snd,
      s.HasField f := fun f => hasField_of_mem_matching hs
  rw [evaluateFields]
  split
  · refine (runs_firstField hps hfound).bind fun f t _ hf => runs_pure fun _ g hg => ?_
    exact mem_fields_of_mem_matching hs (hf g (Option.mem_toList.mp hg))
  · refine (runs_keepFields hps hfound).bind fun fs t _ hfs => runs_pure fun _ f hf => ?_
    exact mem_fields_of_mem_matching hs (hfs (toList_settle_subset _ _ _ _ _ f hf))

theorem steps_evaluateValues (hv : v.Acts growth s) (s' : Store) (lookup : Lookup) (l : Locator) :
    (evaluateValues s' lookup l v).Steps growth s := by
  rw [evaluateValues]
  split
  · exact (steps_firstValue hv s' lookup _).bind fun _ _ _ _ => runs_pure fun _ => trivial
  · exact (steps_collectValues hv _).bind fun _ _ _ _ => runs_pure fun _ => trivial

end Query

/-! ## Items and properties -/

namespace Action

theorem runs_itemAt {α : Type} (kind : SequenceKind) (xs : List α) (n : Int) :
    (itemAt kind xs n).Runs growth s fun x _ => x ∈ xs := by
  rw [itemAt]
  cases h : atPosition? xs n with
  | none => exact runs_throw _
  | some x =>
      refine runs_pure fun _ => ?_
      rw [atPosition?] at h
      split at h
      · exact absurd h (by simp)
      · exact List.mem_of_getElem? h

theorem runs_itemBy {φ α : Type} (kind : SequenceKind) (xs : List α) (key : Value φ) :
    (itemBy kind xs key).Runs growth s fun x _ => x ∈ xs := by
  rw [itemBy]
  cases key.asInt? with
  | none => exact runs_throw _
  | some n => exact runs_itemAt kind xs n

theorem steps_checkKey {φ : Type} (v : Value φ) : (checkKey v).Steps growth s := by
  rw [checkKey]
  cases v.unhashable? with
  | none => exact runs_pure fun _ => trivial
  | some type => exact runs_throw _

end Action

namespace FieldRef

theorem steps_codeOf? {φ : Type} (v : Value φ) : (codeOf? v).Steps growth s := by
  unfold codeOf?
  split
  · exact runs_pure fun _ => trivial
  · exact (steps_checkKey _).bind fun _ _ _ _ => runs_pure fun _ => trivial

theorem steps_byCode {φ : Type} (f : FieldRef) (code : Value φ) : (f.byCode code).Steps growth s :=
  runs_field_bind ((steps_codeOf? code).bind fun _ _ _ _ => runs_pure fun _ => trivial)

theorem steps_item {φ : Type} (f : FieldRef) (key : Value φ) : (f.item key).Steps growth s := by
  rw [item]
  cases key.asInt? with
  | none => exact f.steps_byCode key
  | some n =>
      exact runs_field_bind ((runs_itemAt _ _ n).bind fun _ _ _ _ => runs_pure fun _ => trivial)

end FieldRef

namespace Datum

theorem isIn_text (x : String) : IsIn s (.text x) := trivial

/-- A missing field or one that exists. -/
theorem isIn_ofOption_field {f : Option FieldRef} (h : ∀ g ∈ f, s.HasField g) :
    IsIn s (.ofOption .field f) := by
  cases f with
  | none => trivial
  | some g => exact h g rfl

theorem isIn_ofOption_text (x : Option String) : IsIn s (.ofOption .text x) := by
  cases x <;> trivial

theorem isIn_texts (xs : List String) : IsIn s (.texts xs) := by
  simp only [IsIn, Value.texts, Value.all_list, List.mem_map]
  rintro _ ⟨x, -, rfl⟩
  trivial

end Datum

namespace RecordRef

theorem runs_firstMatch (r : RecordRef) (l : Locator) {ps : List Query.Predicate}
    {v : Query.Sieve} (hps : ∀ p ∈ ps, p.Acts growth s) (hv : v.Acts growth s) :
    (r.firstMatch l ps v).Runs growth s fun x t => x.IsIn t := by
  refine runs_get_bind fun hs => ?_
  dsimp only
  split
  · refine (Query.runs_firstField hps fun f => Query.hasField_of_mem_matching hs).bind
      fun f t hst hf => runs_pure fun _ => Datum.isIn_ofOption_field fun g hg => ?_
    exact (Query.hasField_of_mem_matching hs (hf g hg)).mono hst
  · exact (Query.steps_firstValue hv s _ _).bind fun x t _ _ =>
      runs_pure fun _ => Datum.isIn_ofOption_text x.1

theorem runs_item {φ : Type} (r : RecordRef) (key : Value φ) :
    (r.item key).Runs growth s fun x t => x.IsIn t := by
  unfold item
  split
  · refine runs_record_bind fun hs => (runs_itemAt _ _ _).bind fun f t hst hf => ?_
    exact runs_pure fun _ => (hs.hasField r f hf).mono hst
  · split
    · exact runs_ofExcept_bind fun l => r.runs_firstMatch l (by simp) Query.acts_pass
    · exact runs_throw _

end RecordRef

namespace Value

theorem entry?_mem {φ ψ : Type} {key : Value φ} {es : List (Value ψ × Value ψ)} {x : Value ψ}
    (h : entry? s key es = some x) : ∃ k, (k, x) ∈ es := by
  induction es with
  | nil => exact absurd h (by simp [ entry?])
  | cons e es ih =>
      obtain ⟨k, v⟩ := e
      unfold entry? at h
      split at h
      · obtain rfl : v = x := by simpa using h
        exact ⟨k, by simp⟩
      · obtain ⟨k', hk'⟩ := ih h
        exact ⟨k', by simp [hk']⟩

theorem runs_item {φ : Type} {v : Datum} (hv : v.IsIn s) (key : Value φ) :
    (v.item key).Runs growth s fun x t => x.IsIn t := by
  have hitems : ∀ xs : List Datum, (∀ x ∈ xs, x.IsIn s) → ∀ kind,
      (Action.itemBy kind xs key).Runs growth s fun x t => x.IsIn t := by
    intro xs hxs kind
    exact (runs_itemBy kind xs key).imp fun x t hst _ hx => (hxs x hx).mono hst
  cases v with
  | text t => exact (runs_itemBy _ _ key).bind fun _ _ _ _ => runs_pure fun _ => trivial
  | bytes t => exact (runs_itemBy _ _ key).bind fun _ _ _ _ => runs_pure fun _ => trivial
  | list xs => exact hitems xs ((all_list xs).mp hv) _
  | tuple xs => exact hitems xs ((all_tuple xs).mp hv) _
  | subfield sf => exact hitems (ofSubfield sf) (by simp [ofSubfield, Datum.isIn_text]) _
  | table es =>
      refine (steps_checkKey key).bind fun _ t hst _ => runs_get_bind fun _ => ?_
      split
      · next x hx =>
        obtain ⟨k, hk⟩ := entry?_mem hx
        exact runs_pure fun _ => Datum.IsIn.mono ((all_table es).mp hv _ hk).2 hst
      · exact runs_throw _
  | field f =>
      exact (f.steps_item key).bind fun x _ _ _ => runs_pure fun _ => Datum.isIn_ofOption_text x
  | record r => exact r.runs_item key
  | _ => exact runs_throw _

theorem fieldProperty?_cases {x : Field} {name : String} {v : Datum}
    (h : fieldProperty? x name = some v) :
    v = .null ∨ (∃ b, v = .bool b) ∨ (∃ n, v = .int n) ∨ ∃ t, v = .text t := by
  have hcases : ∀ v ∈ fieldProperty? x name,
      v = .null ∨ (∃ b, v = .bool b) ∨ (∃ n, v = .int n) ∨ ∃ t, v = .text t := by
    unfold fieldProperty?
    split
    case h_6 => cases x.level? <;> simp [ofOption]
    case h_7 => cases x.number? <;> simp [ofOption]
    all_goals simp
  exact hcases v h

/-- What is no property of an object is an operation or nothing. -/
theorem exists_operation {name a b : String} {names : List String} {v : Datum}
    (h : (if name = "parse" then some (.operation a : Datum)
      else if names.contains name then some (.operation b) else none) = some v) :
    ∃ x, v = .operation x := by
  split at h
  · exact ⟨a, (Option.some.inj h).symm⟩
  · split at h
    · exact ⟨b, (Option.some.inj h).symm⟩
    · cases h

theorem isIn_of_mem_fieldProperty? (x : Field) (name : String) :
    ∀ v ∈ fieldProperty? x name, Datum.IsIn s v := by
  intro v hv
  rcases fieldProperty?_cases hv with rfl | ⟨b, rfl⟩ | ⟨n, rfl⟩ | ⟨t, rfl⟩ <;> trivial

theorem isIn_of_mem_recordProperty? (x : Record) (name : String) :
    ∀ v ∈ recordProperty? x name, Datum.IsIn s v := by
  unfold recordProperty?
  split
  · simpa using Datum.isIn_texts x.tags
  · simp

/-- What a name gives of a value refers to nothing. -/
theorem isIn_of_mem_member? (s' : Store) (v : Datum) (name : String) :
    ∀ x ∈ member? s' v name, Datum.IsIn s x := by
  intro x hx
  unfold member? at hx
  dsimp only at hx
  split at hx
  · rcases Option.or_eq_some_iff.mp hx with h | ⟨-, h⟩
    · exact isIn_of_mem_fieldProperty? _ _ x h
    · obtain ⟨y, rfl⟩ := exists_operation h
      trivial
  · rcases Option.or_eq_some_iff.mp hx with h | ⟨-, h⟩
    · exact isIn_of_mem_recordProperty? _ _ x h
    · obtain ⟨y, rfl⟩ := exists_operation h
      trivial
  · have hparts : ∀ sf : Subfield, ∀ y ∈ subfieldProperty? sf name, Datum.IsIn s y := by
      intro sf
      unfold subfieldProperty?
      split <;> simp [Datum.IsIn, All]
    exact hparts _ x hx
  · exact absurd hx (by simp)

theorem runs_member (v : Datum) (name : String) :
    (v.member name).Runs growth s fun x t => x.IsIn t := by
  refine runs_get_bind fun _ => ?_
  split
  · next x hx => exact runs_pure fun _ => isIn_of_mem_member? _ _ _ x hx
  · exact runs_throw _

end Value

end Biblio
