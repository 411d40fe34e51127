import Biblio.Proofs.Query.Template

/-!
# Twin values

Two values, each in its store, are twins if they are equal but for the objects that they refer
to: fields that are equal, and records of equal fields. A value is held by a store if all that
it refers to exists there; as long as nothing grows, it is its own twin. Messages show twins
alike, and they count alike as true, as empty and as verdicts.
-/

namespace Biblio

namespace Value

variable {φ : Type} {F F' : FieldRef → FieldRef → Prop} {R R' : RecordRef → RecordRef → Prop}

/-! ## Related references -/

def IsAtom : Value φ → Prop
  | list _ | tuple _ | table _ | field _ | record _ | failure .. | step _ | chain _ => False
  | _ => True

mutual

/-- Whether two values are equal but for references, which are related. -/
inductive Rel (F : FieldRef → FieldRef → Prop) (R : RecordRef → RecordRef → Prop) :
    Value φ → Value φ → Prop
  | atom {v : Value φ} (h : v.IsAtom) : Rel F R v v
  | list {xs ys : List (Value φ)} (h : RelList F R xs ys) : Rel F R (list xs) (list ys)
  | tuple {xs ys : List (Value φ)} (h : RelList F R xs ys) : Rel F R (tuple xs) (tuple ys)
  | table {es ds : List (Value φ × Value φ)} (h : RelEntries F R es ds) :
    Rel F R (table es) (table ds)
  | field {f g : FieldRef} (h : F f g) : Rel F R (field f) (field g)
  | record {r q : RecordRef} (h : R r q) : Rel F R (record r) (record q)
  | failure {k l : Value φ} (h : Rel F R k l) (cause : Fault) :
    Rel F R (failure k cause) (failure l cause)
  | step {a b : Step φ} (h : RelStep F R a b) : Rel F R (step a) (step b)
  | chain {as bs : List (Step φ)} (h : RelSteps F R as bs) : Rel F R (chain as) (chain bs)

inductive RelList (F : FieldRef → FieldRef → Prop) (R : RecordRef → RecordRef → Prop) :
    List (Value φ) → List (Value φ) → Prop
  | nil : RelList F R [] []
  | cons {x y : Value φ} {xs ys : List (Value φ)} (h : Rel F R x y) (hs : RelList F R xs ys) :
    RelList F R (x :: xs) (y :: ys)

inductive RelEntries (F : FieldRef → FieldRef → Prop) (R : RecordRef → RecordRef → Prop) :
    List (Value φ × Value φ) → List (Value φ × Value φ) → Prop
  | nil : RelEntries F R [] []
  | cons {k l v w : Value φ} {es ds : List (Value φ × Value φ)} (hk : Rel F R k l)
    (hv : Rel F R v w) (hs : RelEntries F R es ds) : RelEntries F R ((k, v) :: es) ((l, w) :: ds)

inductive RelStep (F : FieldRef → FieldRef → Prop) (R : RecordRef → RecordRef → Prop) :
    Step φ → Step φ → Prop
  | find (x : Pattern) : RelStep F R (.find x) (.find x)
  | format (template : String) : RelStep F R (.format template) (.format template)
  | each (f : φ) : RelStep F R (.each f) (.each f)
  | nested {a b : Step φ} (h : RelStep F R a b) : RelStep F R (.nested a) (.nested b)
  | idle (kind : StepKind) {v w : Value φ} (h : Rel F R v w) :
    RelStep F R (.idle kind v) (.idle kind w)

inductive RelSteps (F : FieldRef → FieldRef → Prop) (R : RecordRef → RecordRef → Prop) :
    List (Step φ) → List (Step φ) → Prop
  | nil : RelSteps F R [] []
  | cons {a b : Step φ} {as bs : List (Step φ)} (h : RelStep F R a b) (hs : RelSteps F R as bs) :
    RelSteps F R (a :: as) (b :: bs)

end

mutual

theorem Rel.imp (hF : ∀ f g, F f g → F' f g) (hR : ∀ r q, R r q → R' r q) :
    ∀ {v w : Value φ}, Rel F R v w → Rel F' R' v w
  | _, _, .atom h => .atom h
  | _, _, .list h => .list (h.imp hF hR)
  | _, _, .tuple h => .tuple (h.imp hF hR)
  | _, _, .table h => .table (h.imp hF hR)
  | _, _, .field h => .field (hF _ _ h)
  | _, _, .record h => .record (hR _ _ h)
  | _, _, .failure h cause => .failure (h.imp hF hR) cause
  | _, _, .step h => .step (h.imp hF hR)
  | _, _, .chain h => .chain (h.imp hF hR)

theorem RelList.imp (hF : ∀ f g, F f g → F' f g) (hR : ∀ r q, R r q → R' r q) :
    ∀ {xs ys : List (Value φ)}, RelList F R xs ys → RelList F' R' xs ys
  | _, _, .nil => .nil
  | _, _, .cons h hs => .cons (h.imp hF hR) (hs.imp hF hR)

theorem RelEntries.imp (hF : ∀ f g, F f g → F' f g) (hR : ∀ r q, R r q → R' r q) :
    ∀ {es ds : List (Value φ × Value φ)}, RelEntries F R es ds → RelEntries F' R' es ds
  | _, _, .nil => .nil
  | _, _, .cons hk hv hs => .cons (hk.imp hF hR) (hv.imp hF hR) (hs.imp hF hR)

theorem RelStep.imp (hF : ∀ f g, F f g → F' f g) (hR : ∀ r q, R r q → R' r q) :
    ∀ {a b : Step φ}, RelStep F R a b → RelStep F' R' a b
  | _, _, .find x => .find x
  | _, _, .format template => .format template
  | _, _, .each f => .each f
  | _, _, .nested h => .nested (h.imp hF hR)
  | _, _, .idle kind h => .idle kind (h.imp hF hR)

theorem RelSteps.imp (hF : ∀ f g, F f g → F' f g) (hR : ∀ r q, R r q → R' r q) :
    ∀ {as bs : List (Step φ)}, RelSteps F R as bs → RelSteps F' R' as bs
  | _, _, .nil => .nil
  | _, _, .cons h hs => .cons (h.imp hF hR) (hs.imp hF hR)

end

theorem RelList.length_eq : ∀ {xs ys : List (Value φ)}, RelList F R xs ys → xs.length = ys.length
  | _, _, .nil => rfl
  | _, _, .cons _ hs => congrArg (· + 1) hs.length_eq

theorem RelEntries.length_eq :
    ∀ {es ds : List (Value φ × Value φ)}, RelEntries F R es ds → es.length = ds.length
  | _, _, .nil => rfl
  | _, _, .cons _ _ hs => congrArg (· + 1) hs.length_eq

theorem RelSteps.length_eq : ∀ {as bs : List (Step φ)}, RelSteps F R as bs → as.length = bs.length
  | _, _, .nil => rfl
  | _, _, .cons _ hs => congrArg (· + 1) hs.length_eq

theorem relList_self {xs : List (Value φ)} : RelList F R xs xs ↔ ∀ x ∈ xs, Rel F R x x := by
  induction xs with
  | nil => exact ⟨fun _ => nofun, fun _ => .nil⟩
  | cons x xs ih =>
      rw [List.forall_mem_cons, ← ih]
      constructor
      · rintro (_ | ⟨h, hs⟩)
        exact ⟨h, hs⟩
      · rintro ⟨h, hs⟩
        exact .cons h hs

theorem relEntries_self {es : List (Value φ × Value φ)} :
    RelEntries F R es es ↔ ∀ e ∈ es, Rel F R e.1 e.1 ∧ Rel F R e.2 e.2 := by
  induction es with
  | nil => exact ⟨fun _ => nofun, fun _ => .nil⟩
  | cons e es ih =>
      rw [List.forall_mem_cons, ← ih]
      constructor
      · rintro (_ | ⟨hk, hv, hs⟩)
        exact ⟨⟨hk, hv⟩, hs⟩
      · rintro ⟨⟨hk, hv⟩, hs⟩
        exact .cons hk hv hs

theorem relSteps_self {ss : List (Step φ)} : RelSteps F R ss ss ↔ ∀ st ∈ ss, RelStep F R st st := by
  induction ss with
  | nil => exact ⟨fun _ => nofun, fun _ => .nil⟩
  | cons st ss ih =>
      rw [List.forall_mem_cons, ← ih]
      constructor
      · rintro (_ | ⟨h, hs⟩)
        exact ⟨h, hs⟩
      · rintro ⟨h, hs⟩
        exact .cons h hs

end Value

namespace Store

variable {φ : Type} {s t u : Store}

/-! ## Twins -/

/-- Whether two records exist, each in its store, and have equal fields. -/
structure TwinRecords (t u : Store) (r q : RecordRef) : Prop where
  left : t.HasRecord r
  right : u.HasRecord q
  fields : List.Forall₂ (t.Twins u) (t.record r).fields (u.record q).fields

theorem TwinRecords.mono {r q : RecordRef} (h : t.TwinRecords u r q) {t' u' : Store}
    (ht : t.Leads False t') (hu : u.Leads False u') : t'.TwinRecords u' r q where
  left := h.left.mono ht
  right := h.right.mono hu
  fields := by
    rw [h.left.record_eq ht, h.right.record_eq hu]
    exact forall₂_twins_mono h.fields ht hu

/-- Whether two values are equal but for the objects that they refer to, which are twins. -/
def TwinValues (t u : Store) (v w : Value φ) : Prop :=
  v.Rel (t.Twins u) (t.TwinRecords u) w

namespace TwinValues

variable {v w : Value φ}

theorem mono (h : t.TwinValues u v w) {t' u' : Store} (ht : t.Leads False t')
    (hu : u.Leads False u') : t'.TwinValues u' v w :=
  h.imp (fun _ _ h => h.mono ht hu) fun _ _ h => h.mono ht hu

theorem length?_eq (h : t.TwinValues u v w) : t.length? v = u.length? w := by
  cases h with
  | atom h => cases v <;> first | exact h.elim | rfl
  | list h | tuple h => exact congrArg some h.length_eq
  | table h => exact congrArg some h.length_eq
  | chain h => exact congrArg some h.length_eq
  | field h => exact congrArg (fun fs => some (List.length fs)) ((Field.same_iff _ _).mp h.same).2.2
  | record h => exact congrArg some h.fields.length_eq
  | failure | step => rfl

theorem isTrue_eq (h : t.TwinValues u v w) : t.isTrue v = u.isTrue w := by
  have hlength := h.length?_eq
  cases h with
  | atom h => cases v <;> first | exact h.elim | rfl
  | _ => exact congrArg (· != some 0) hlength

end TwinValues

theorem TwinValues.isEmpty_eq {x y : Datum} (h : t.TwinValues u x y) :
    Mapping.isEmpty t x = Mapping.isEmpty u y := by
  have hlength := h.length?_eq
  cases h with
  | atom h => cases x <;> first | exact h.elim | rfl
  | field => rfl
  | _ => exact congrArg (· == some 0) hlength

theorem TwinValues.ofDatum_eq {x y : Datum} (h : t.TwinValues u x y) :
    Verdict.ofDatum x = Verdict.ofDatum y := by
  cases h <;> rfl

/-! ## Twins in messages -/

mutual

theorem shown_eq : ∀ {v w : Value φ}, t.TwinValues u v w → t.shown v = u.shown w
  | v, _, .atom h => by cases v <;> first | exact h.elim | rfl
  | _, _, .list h => congrArg Shown.list (shownList_eq h)
  | _, _, .tuple h => congrArg Shown.tuple (shownList_eq h)
  | _, _, .table h => congrArg Shown.table (shownEntries_eq h)
  | _, _, .field h => by rw [shown, shown, Field.shown, Field.shown, Field.line_congr h.same]
  | _, _, .record h => by rw [shown, shown, shownRecord, shownRecord, h.fields.length_eq]
  | _, _, .failure h cause => by rw [shown, shown, shown_eq h]
  | _, _, .step h => shownStep_eq h
  | _, _, .chain h => congrArg Shown.chain (shownSteps_eq h)

theorem shownList_eq : ∀ {xs ys : List (Value φ)},
    Value.RelList (t.Twins u) (t.TwinRecords u) xs ys → t.shownList xs = u.shownList ys
  | _, _, .nil => rfl
  | _, _, .cons h hs => congrArg₂ List.cons (shown_eq h) (shownList_eq hs)

theorem shownEntries_eq : ∀ {es ds : List (Value φ × Value φ)},
    Value.RelEntries (t.Twins u) (t.TwinRecords u) es ds → t.shownEntries es = u.shownEntries ds
  | _, _, .nil => rfl
  | _, _, .cons hk hv hs =>
    congrArg₂ List.cons (congrArg₂ Prod.mk (shown_eq hk) (shown_eq hv)) (shownEntries_eq hs)

theorem shownStep_eq : ∀ {a b : Biblio.Step φ},
    Value.RelStep (t.Twins u) (t.TwinRecords u) a b → t.shownStep a = u.shownStep b
  | _, _, .find _ | _, _, .format _ | _, _, .each _ => rfl
  | _, _, .nested h => congrArg (Shown.step .custom) (shownStep_eq h)
  | _, _, .idle kind h => congrArg (Shown.step kind) (shown_eq h)

theorem shownSteps_eq : ∀ {as bs : List (Biblio.Step φ)},
    Value.RelSteps (t.Twins u) (t.TwinRecords u) as bs → t.shownSteps as = u.shownSteps bs
  | _, _, .nil => rfl
  | _, _, .cons h hs => congrArg₂ List.cons (shownStep_eq h) (shownSteps_eq hs)

end

end Store

/-! ## Objects that values refer to -/

structure References where
  fields : FieldRef → Prop
  records : RecordRef → Prop

namespace References

instance : EmptyCollection References :=
  ⟨⟨fun _ => False, fun _ => False⟩⟩

/-- Whether the references are to existing objects, and with a record to its fields. -/
structure ExistIn (x : References) (s : Store) : Prop where
  field : ∀ f, x.fields f → s.HasField f
  record : ∀ r, x.records r → s.HasRecord r
  fields : ∀ r, x.records r → ∀ f ∈ (s.record r).fields, x.fields f

def existing (s : Store) : References :=
  ⟨s.HasField, s.HasRecord⟩

theorem existIn_empty (s : Store) : (∅ : References).ExistIn s :=
  ⟨fun _ h => h.elim, fun _ h => h.elim, fun _ h => h.elim⟩

end References

namespace Value

variable {φ : Type} {s t u : Store} {x : References} {v : Value φ}

def IsWithin (x : References) (v : Value φ) : Prop :=
  v.Rel (fun f g => f = g ∧ x.fields f) (fun r q => r = q ∧ x.records r) v

theorem isWithin_text (y : String) : (text y : Value φ).IsWithin x :=
  .atom trivial

theorem isWithin_field {f : FieldRef} : (field f : Value φ).IsWithin x ↔ x.fields f where
  mp := by
    intro h
    cases h with
    | atom h => exact h.elim
    | field h => exact h.2
  mpr h := .field ⟨rfl, h⟩

theorem isWithin_record {r : RecordRef} : (record r : Value φ).IsWithin x ↔ x.records r where
  mp := by
    intro h
    cases h with
    | atom h => exact h.elim
    | record h => exact h.2
  mpr h := .record ⟨rfl, h⟩

theorem isWithin_tuple {ys : List (Value φ)} : (tuple ys).IsWithin x ↔ ∀ y ∈ ys, y.IsWithin x where
  mp := by
    intro h
    cases h with
    | atom h => exact h.elim
    | tuple h => exact relList_self.mp h
  mpr h := .tuple (relList_self.mpr h)

theorem isWithin_list {ys : List (Value φ)} : (list ys).IsWithin x ↔ ∀ y ∈ ys, y.IsWithin x where
  mp := by
    intro h
    cases h with
    | atom h => exact h.elim
    | list h => exact relList_self.mp h
  mpr h := .list (relList_self.mpr h)

/-- A value that refers to twins only is its own twin. -/
theorem IsWithin.twins (h : v.IsWithin x) (hF : ∀ f, x.fields f → t.Twins u f f)
    (hR : ∀ r, x.records r → t.TwinRecords u r r) : t.TwinValues u v v := by
  refine h.imp ?_ ?_
  · rintro f _ ⟨rfl, hf⟩
    exact hF f hf
  · rintro r _ ⟨rfl, hr⟩
    exact hR r hr

theorem isWithin_of_mem_map {α : Type} {f : α → Value φ} (hf : ∀ a, (f a).IsAtom) {as : List α} :
    ∀ y ∈ as.map f, y.IsWithin x := by
  intro y hy
  obtain ⟨a, -, rfl⟩ := List.mem_map.mp hy
  exact .atom (hf a)

theorem IsWithin.items?_eq (h : v.IsWithin x) (hF : ∀ f, x.fields f → t.field f = s.field f)
    (hR : ∀ r, x.records r → t.record r = s.record r) : t.items? v = s.items? v := by
  cases v with
  | field f => rw [Store.items?, Store.items?, hF f (isWithin_field.mp h)]
  | record r => rw [Store.items?, Store.items?, hR r (isWithin_record.mp h)]
  | _ => rfl

/-- The items of a value refer to what it refers to, if that is so of the fields of records. -/
theorem IsWithin.of_items? (hx : ∀ r, x.records r → ∀ f ∈ (s.record r).fields, x.fields f)
    (h : v.IsWithin x) {ys : List (Value φ)} (hys : s.items? v = some ys) :
    ∀ y ∈ ys, y.IsWithin x := by
  cases h with
  | list h | tuple h =>
      obtain rfl := Option.some.inj hys
      exact relList_self.mp h
  | table h =>
      obtain rfl := Option.some.inj hys
      intro y hy
      obtain ⟨e, he, rfl⟩ := List.mem_map.mp hy
      exact (relEntries_self.mp h e he).1
  | chain h =>
      obtain rfl := Option.some.inj hys
      intro y hy
      obtain ⟨st, hst, rfl⟩ := List.mem_map.mp hy
      exact .step (relSteps_self.mp h st hst)
  | record h =>
      obtain rfl := Option.some.inj hys
      intro y hy
      obtain ⟨f, hf, rfl⟩ := List.mem_map.mp hy
      exact isWithin_field.mpr (hx _ h.2 f hf)
  | field h =>
      obtain rfl := Option.some.inj hys
      apply isWithin_of_mem_map
      exact fun _ => trivial
  | failure | step => cases hys
  | atom h =>
      cases v with
      | text | bytes =>
          obtain rfl := Option.some.inj hys
          apply isWithin_of_mem_map
          exact fun _ => trivial
      | subfield sf =>
          obtain rfl := Option.some.inj hys
          simpa using ⟨isWithin_text sf.code, isWithin_text sf.value⟩
      | _ => first | exact h.elim | cases hys

end Value

/-! ## Held values -/

def Store.OneField (s : Store) (f g : FieldRef) : Prop :=
  f = g ∧ s.HasField f

def Store.OneRecord (s : Store) (r q : RecordRef) : Prop :=
  r = q ∧ s.HasRecord r

namespace Value

variable {φ : Type} {s t u : Store} {v : Value φ}

def IsHeld (s : Store) (v : Value φ) : Prop :=
  v.Rel s.OneField s.OneRecord v

/-- A value is held if it refers to existing objects. -/
theorem isHeld_iff : v.IsHeld s ↔ v.IsWithin (.existing s) :=
  .rfl

theorem isHeld_text (x : String) : (text x : Value φ).IsHeld s :=
  isWithin_text (x := .existing s) x

theorem isHeld_field {f : FieldRef} : (field f : Value φ).IsHeld s ↔ s.HasField f :=
  isWithin_field (x := .existing s)

theorem isHeld_record {r : RecordRef} : (record r : Value φ).IsHeld s ↔ s.HasRecord r :=
  isWithin_record (x := .existing s)

theorem isHeld_tuple {xs : List (Value φ)} : (tuple xs).IsHeld s ↔ ∀ x ∈ xs, x.IsHeld s :=
  isWithin_tuple (x := .existing s)

theorem isHeld_list {xs : List (Value φ)} : (list xs).IsHeld s ↔ ∀ x ∈ xs, x.IsHeld s :=
  isWithin_list (x := .existing s)

end Value

namespace Store

variable {φ : Type} {s t u : Store} {v : Value φ}

theorem HasField.twins {f : FieldRef} (h : s.HasField f) (ht : s.Leads False t)
    (hu : s.Leads False u) : t.Twins u f f where
  left := h.mono ht
  right := h.mono hu
  same := by
    rw [h.field_eq ht, h.field_eq hu]
    exact (Field.same_iff _ _).mpr ⟨rfl, rfl, rfl⟩

theorem forall₂_twins_self {fs : List FieldRef} (h : ∀ f ∈ fs, s.HasField f)
    (ht : s.Leads False t) (hu : s.Leads False u) : List.Forall₂ (t.Twins u) fs fs :=
  List.forall₂_same.mpr fun f hf => (h f hf).twins ht hu

theorem HasRecord.twins (hs : s.IsIndexed) {r : RecordRef} (h : s.HasRecord r)
    (ht : s.Leads False t) (hu : s.Leads False u) : t.TwinRecords u r r where
  left := h.mono ht
  right := h.mono hu
  fields := by
    rw [h.record_eq ht, h.record_eq hu]
    exact forall₂_twins_self (hs.hasField r) ht hu

end Store

namespace Value

variable {φ : Type} {s t u : Store} {v : Value φ}

/-- As long as nothing grows, a value that is held is its own twin. -/
theorem IsHeld.twins (hs : s.IsIndexed) (h : v.IsHeld s) (ht : s.Leads False t)
    (hu : s.Leads False u) : t.TwinValues u v v :=
  (isHeld_iff.mp h).twins (fun _ hf => hf.twins ht hu) fun _ hr => hr.twins hs ht hu

theorem IsHeld.items?_eq (h : v.IsHeld s) (ht : s.Leads False t) : t.items? v = s.items? v :=
  (isHeld_iff.mp h).items?_eq (fun _ hf => hf.field_eq ht) fun _ hr => hr.record_eq ht

/-- The items of a value that is held are held, as the fields of records exist. -/
theorem IsHeld.of_items? (hs : s.IsIndexed) (h : v.IsHeld s) {xs : List (Value φ)}
    (hxs : s.items? v = some xs) : ∀ x ∈ xs, x.IsHeld s :=
  (isHeld_iff.mp h).of_items? (fun r _ => hs.hasField r) hxs

end Value

end Biblio
