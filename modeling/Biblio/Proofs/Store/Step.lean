import Biblio.Proofs.Growth
import Mathlib.Data.List.Basic
import Mathlib.Logic.Relation

/-!
# Steps of stores

Whatever is done to a store is done by steps of five kinds: a note is taken, a field or
a record is created, a field gets a subfield, a record gets an entry. `Step growth` has
the steps of the last two kinds only if `growth` holds, so that without it the objects
that exist stay as they are. `Leads growth` are the runs of such steps.

A field that exists stays, and keeps its label, over all runs. From this it follows that
runs preserve `IsIndexed`: the fields of every record exist, and every record is what
filing its fields under the tags that they have now would give.
-/

namespace Biblio

namespace Store

variable {s t u : Store} {growth : Prop}

/-! ## Changes of stores -/

def HasField (s : Store) (f : FieldRef) : Prop :=
  f.id < s.fields.size

instance (s : Store) (f : FieldRef) : Decidable (s.HasField f) :=
  inferInstanceAs (Decidable (f.id < s.fields.size))

def HasRecord (s : Store) (r : RecordRef) : Prop :=
  r.id < s.records.size

instance (s : Store) (r : RecordRef) : Decidable (s.HasRecord r) :=
  inferInstanceAs (Decidable (r.id < s.records.size))

def withNote (s : Store) (n : Note) : Store :=
  { s with notes := s.notes.push n }

def withNewRecord (s : Store) (fs : List FieldRef) : Store :=
  { s with records := s.records.push (s.gather fs) }

def nextRecord (s : Store) : RecordRef :=
  ⟨s.records.size⟩

def withEntry (s : Store) (r : RecordRef) (f : FieldRef) : Store :=
  { s with records := s.records.modify r.id fun x => x.push (s.field f).tag f }

inductive Offers (s : Store) : Field → Prop
  | ofTag (tag occurrence : String) : s.Offers (Field.ofTag tag occurrence)
  | line (line : String) : s.Offers (Field.parse line)
  | copy (f : FieldRef) (fullTag : String) (k : Option CodeClass) :
    s.Offers ((s.field f).restrict fullTag k)

inductive Step (growth : Prop) : Store → Store → Prop
  | note (s : Store) (n : Note) : Step growth s (s.withNote n)
  | newField {s : Store} {x : Field} (h : s.Offers x) : Step growth s (s.withNewField x)
  | newRecord {s : Store} {fs : List FieldRef} (h : ∀ f ∈ fs, s.HasField f) :
    Step growth s (s.withNewRecord fs)
  | growField (s : Store) (hg : growth) (f : FieldRef) {code : String}
    (hcode : Field.isCodeForm code = true) (value : String) :
    Step growth s (s.withField f fun x => x.push code value)
  | growRecord {s : Store} (hg : growth) (r : RecordRef) {f : FieldRef} (hf : s.HasField f) :
    Step growth s (s.withEntry r f)

def Leads (growth : Prop) : Store → Store → Prop :=
  Relation.ReflTransGen (Step growth)

namespace Leads

theorem refl (s : Store) : s.Leads growth s :=
  Relation.ReflTransGen.refl

theorem trans (h : s.Leads growth t) (h' : t.Leads growth u) : s.Leads growth u :=
  Relation.ReflTransGen.trans h h'

theorem single (h : Step growth s t) : s.Leads growth t :=
  Relation.ReflTransGen.single h

/-- What every step keeps is kept along runs. -/
theorem induct {P : Store → Prop} (h : s.Leads growth t) (hs : P s)
    (hstep : ∀ u v, Step growth u v → P u → P v) : P t := by
  induction h with
  | refl => exact hs
  | tail _ h ih => exact hstep _ _ h ih

end Leads

/-! ## What the changes leave -/

variable {f : FieldRef} {r : RecordRef}

theorem hasField_nextField (s : Store) (x : Field) : (s.withNewField x).HasField s.nextField := by
  simp [HasField, withNewField, nextField]

theorem HasField.withNewField (h : s.HasField f) (x : Field) : (s.withNewField x).HasField f := by
  rw [HasField, Store.withNewField, Array.size_push]
  exact Nat.lt_succ_of_lt h

theorem HasField.withField (h : s.HasField f) (f' : FieldRef) (g : Field → Field) :
    (s.withField f' g).HasField f := by
  simpa [HasField, Store.withField] using h

theorem hasRecord_nextRecord (s : Store) (fs : List FieldRef) :
    (s.withNewRecord fs).HasRecord s.nextRecord := by
  simp [HasRecord, withNewRecord, nextRecord]

theorem HasRecord.withNewRecord (h : s.HasRecord r) (fs : List FieldRef) :
    (s.withNewRecord fs).HasRecord r := by
  rw [HasRecord, Store.withNewRecord, Array.size_push]
  exact Nat.lt_succ_of_lt h

theorem HasRecord.withEntry (h : s.HasRecord r) (r' : RecordRef) (f : FieldRef) :
    (s.withEntry r' f).HasRecord r := by
  simpa [HasRecord, Store.withEntry] using h

theorem field_withField (s : Store) (f f' : FieldRef) {g : Field → Field} :
    (s.withField f g).field f' = if f = f' ∧ s.HasField f' then g (s.field f') else s.field f' := by
  obtain ⟨i⟩ := f
  obtain ⟨j⟩ := f'
  simp only [field, withField, HasField, Array.getElem?_modify, FieldRef.mk.injEq]
  by_cases hij : i = j
  · subst hij
    by_cases hi : i < s.fields.size <;> simp [hi]
  · simp [hij]

theorem field_withNewField_eq (s : Store) (x : Field) (f : FieldRef) :
    (s.withNewField x).field f = if f = s.nextField then x else s.field f := by
  obtain ⟨i⟩ := f
  by_cases hi : i = s.fields.size
  · simp [field, withNewField, nextField, hi]
  · simp [field, withNewField, nextField, Array.getElem?_push, hi]

theorem field_withNewField_of_hasField (x : Field) {f : FieldRef} (h : s.HasField f) :
    (s.withNewField x).field f = s.field f := by
  have hne : f ≠ s.nextField := by
    rintro rfl
    exact Nat.lt_irrefl _ h
  rw [field_withNewField_eq, if_neg hne]

theorem record_withNewRecord (s : Store) (fs : List FieldRef) (r : RecordRef) :
    (s.withNewRecord fs).record r = if r = s.nextRecord then s.gather fs else s.record r := by
  obtain ⟨i⟩ := r
  by_cases hi : i = s.records.size
  · simp [record, withNewRecord, nextRecord, hi]
  · simp [record, withNewRecord, nextRecord, Array.getElem?_push, hi]

/-- The fields of the record that was created last are those that it was created with. -/
theorem withNewRecord_injective (s : Store) : Function.Injective s.withNewRecord := by
  intro fs gs h
  have hfields := congrArg (fun t : Store => (t.record s.nextRecord).fields) h
  simpa [record_withNewRecord] using hfields

theorem record_withEntry (s : Store) (r r' : RecordRef) (f : FieldRef) :
    (s.withEntry r f).record r' =
      if r = r' ∧ r'.id < s.records.size then (s.record r').push (s.field f).tag f
      else s.record r' := by
  obtain ⟨i⟩ := r
  obtain ⟨j⟩ := r'
  simp only [record, withEntry, Array.getElem?_modify, RecordRef.mk.injEq]
  by_cases hij : i = j
  · subst hij
    by_cases hi : i < s.records.size <;> simp [hi]
  · simp [hij]

/-! ## Fields along runs -/

theorem HasField.step {f : FieldRef} (h : s.HasField f) (hst : Step growth s t) :
    t.HasField f := by
  cases hst with
  | newField _ => exact h.withNewField _
  | growField => exact h.withField _ _
  | _ => exact h

theorem HasField.mono {f : FieldRef} (h : s.HasField f) (hst : s.Leads growth t) :
    t.HasField f :=
  hst.induct (P := fun u => u.HasField f) h fun _ _ hstep h => HasField.step h hstep

theorem sameLabel_step {f : FieldRef} (h : s.HasField f) (hst : Step growth s t) :
    (t.field f).tag = (s.field f).tag ∧ (t.field f).occurrence = (s.field f).occurrence := by
  cases hst with
  | newField _ => simp [field_withNewField_of_hasField _ h]
  | growField =>
      rw [field_withField]
      split <;> simp
  | _ => exact ⟨rfl, rfl⟩

/-- A field that exists keeps its tag and its occurrence. -/
theorem HasField.sameLabel {f : FieldRef} (h : s.HasField f) (hst : s.Leads growth t) :
    (t.field f).tag = (s.field f).tag ∧ (t.field f).occurrence = (s.field f).occurrence := by
  induction hst with
  | refl => exact ⟨rfl, rfl⟩
  | tail hsu hstep ih =>
      have hlabel := sameLabel_step (h.mono hsu) hstep
      exact ⟨hlabel.1.trans ih.1, hlabel.2.trans ih.2⟩

/-! ## The index -/

/-- The fields of every record exist, and filing them anew would give the record. -/
structure IsIndexed (s : Store) : Prop where
  hasField : ∀ r, ∀ f ∈ (s.record r).fields, s.HasField f
  record_eq : ∀ r, s.record r = s.gather (s.record r).fields

theorem gather_congr {fs : List FieldRef} (h : ∀ f ∈ fs, (t.field f).tag = (s.field f).tag) :
    t.gather fs = s.gather fs := by
  rw [gather, gather]
  apply List.foldl_ext
  intro x f hf
  rw [h f hf]

theorem gather_concat (s : Store) (fs : List FieldRef) (f : FieldRef) :
    s.gather (fs ++ [f]) = (s.gather fs).push (s.field f).tag f := by
  simp [gather]

theorem isIndexed_empty : ({} : Store).IsIndexed where
  hasField := by simp [record]
  record_eq := by simp [record, gather]

theorem gather_step {fs : List FieldRef} (h : ∀ f ∈ fs, s.HasField f) (hst : Step growth s t) :
    t.gather fs = s.gather fs :=
  gather_congr fun f hf => (sameLabel_step (h f hf) hst).1

/-- A step that leaves a record alone, or makes it the record of fields that exist, keeps it
indexed. -/
theorem record_step (hs : s.IsIndexed) (hst : Step growth s t) (r : RecordRef) :
    ∃ fs, t.record r = s.gather fs ∧ ∀ f ∈ fs, s.HasField f := by
  have hold : ∃ fs, s.record r = s.gather fs ∧ ∀ f ∈ fs, s.HasField f :=
    ⟨_, hs.record_eq r, hs.hasField r⟩
  cases hst with
  | note => exact hold
  | newField => exact hold
  | growField => exact hold
  | @newRecord fs h =>
      rw [record_withNewRecord]
      split
      · exact ⟨fs, rfl, h⟩
      · exact hold
  | @growRecord _ r' f hf =>
      rw [record_withEntry]
      split
      · refine ⟨(s.record r).fields ++ [f], ?_, ?_⟩
        · rw [gather_concat, ← hs.record_eq r]
        · simpa [or_imp, forall_and, hf] using hs.hasField r
      · exact hold

theorem IsIndexed.step (hs : s.IsIndexed) (hst : Step growth s t) : t.IsIndexed where
  hasField := by
    intro r f hf
    obtain ⟨fs, hr, hfs⟩ := record_step hs hst r
    rw [hr, fields_gather] at hf
    exact (hfs f hf).step hst
  record_eq := by
    intro r
    obtain ⟨fs, hr, hfs⟩ := record_step hs hst r
    rw [hr, fields_gather, gather_step hfs hst]

/-- Runs keep the records indexed. -/
theorem IsIndexed.mono (hs : s.IsIndexed) (hst : s.Leads growth t) : t.IsIndexed :=
  hst.induct hs fun _ _ hstep h => IsIndexed.step h hstep

theorem IsIndexed.lookup_eq (hs : s.IsIndexed) (r : RecordRef) (tag : String) :
    (s.record r).lookup tag = (s.record r).fields.filter fun f => (s.field f).tag == tag := by
  rw [hs.record_eq r, lookup_gather, fields_gather]

theorem IsIndexed.hasField_of_mem_lookup (hs : s.IsIndexed) {r : RecordRef} {tag : String}
    {f : FieldRef} (hf : f ∈ (s.record r).lookup tag) : s.HasField f := by
  rw [hs.lookup_eq, List.mem_filter] at hf
  exact hs.hasField r f hf.1

/-! ## Several steps at once -/

/-- Groups with codes are added subfield by subfield. -/
theorem leads_pushGroups (hg : growth) (f : FieldRef) {gs : List Payload.Group}
    (h : ∀ g ∈ gs, Payload.isCode g.1 = true) :
    s.Leads growth (s.withField f fun x => x.pushGroups gs) := by
  induction gs generalizing s with
  | nil => simpa using Leads.refl s
  | cons g gs ih =>
      have hcode := Field.isCodeForm_singleton (h g (by simp))
      have hrest :=
        ih (s := s.withField f fun x => x.push (String.singleton g.1) (String.ofList g.2))
          fun x hx => h x (by simp [hx])
      rw [withField_withField] at hrest
      exact (Leads.single (.growField s hg f hcode _)).trans hrest

end Store

theorem Action.exec_newRecord (fs : List FieldRef) (s : Store) :
    (newRecord fs).exec s = (.ok s.nextRecord, s.withNewRecord fs) := rfl

end Biblio
