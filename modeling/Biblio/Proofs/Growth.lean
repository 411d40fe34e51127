import Biblio.Request.Field

/-!
# Growth of stored fields

What the actions that create and grow fields leave in the store. A field that is
created is new and stands behind the existing ones; appending subfields with accepted
codes one by one changes the field as adding them at once does, and is never refused.
-/

namespace Biblio

namespace Store

def withField (s : Store) (f : FieldRef) (g : Field → Field) : Store :=
  { s with fields := s.fields.modify f.id g }

def withNote? (s : Store) (n : Option Note) : Store :=
  { s with notes := n.elim s.notes s.notes.push }

def withNewField (s : Store) (x : Field) : Store :=
  { s with fields := s.fields.push x }

def nextField (s : Store) : FieldRef :=
  ⟨s.fields.size⟩

@[simp] theorem field_withNewField (s : Store) (x : Field) :
    (s.withNewField x).field s.nextField = x := by
  simp [field, withNewField, nextField]

@[simp] theorem withField_id (s : Store) (f : FieldRef) : s.withField f (fun x => x) = s := by
  have hfields : (s.fields.modify f.id fun x => x) = s.fields := by
    apply Array.ext
    · simp
    · intro i hi hi'
      rw [Array.getElem_modify]
      split <;> rfl
  simp [withField, hfields]

theorem withField_withField (s : Store) (f : FieldRef) (g h : Field → Field) :
    (s.withField f g).withField f h = s.withField f (h ∘ g) := by
  have hfields : (s.fields.modify f.id g).modify f.id h = s.fields.modify f.id (h ∘ g) := by
    apply Array.ext
    · simp
    · intro i hi hi'
      simp only [Array.getElem_modify]
      split <;> simp
  simp [withField, hfields]

/-- Changing the field that was created last changes what was created. -/
theorem withNewField_withField (s : Store) (x : Field) (g : Field → Field) :
    (s.withNewField x).withField s.nextField g = s.withNewField (g x) := by
  have hfields : (s.fields.push x).modify s.fields.size g = s.fields.push (g x) := by
    apply Array.ext
    · simp
    · intro i hi hi'
      rw [Array.getElem_modify, Array.getElem_push, Array.getElem_push]
      split
      · next hlast => simp [← hlast]
      · next hne =>
        have hi : i < s.fields.size := by
          simp only [Array.size_push] at hi'
          omega
        rw [dif_pos hi, dif_pos hi]
  simp [withField, withNewField, nextField, hfields]

end Store

namespace Action

@[simp] theorem exec_newField (x : Field) (s : Store) :
    (newField x).exec s = (.ok s.nextField, s.withNewField x) := rfl

@[simp] theorem exec_pushSubfield (f : FieldRef) (code value : String) (s : Store) :
    (pushSubfield f code value).exec s = (.ok (), s.withField f fun x => x.push code value) := rfl

@[simp] theorem exec_pushGroups (f : FieldRef) (gs : List Payload.Group) (s : Store) :
    (pushGroups f gs).exec s = (.ok (), s.withField f fun x => x.pushGroups gs) := rfl

theorem exec_createField (tag occurrence : String) (s : Store) :
    (createField (.text tag) (.text occurrence)).exec s =
      (.ok s.nextField, s.withNewField (Field.ofTag tag occurrence)) := rfl

/-- Reading a line always gives a new field. -/
theorem exec_parseField (line : String) (s : Store) :
    (parseField line).exec s =
      (.ok s.nextField, (s.withNote? (Note.ofLine? line)).withNewField (Field.parse line)) := by
  rw [parseField]
  cases h : Note.ofLine? line with
  | none => simp [Store.withNote?]
  | some n => simp [exec_bind, Store.withNote?, Store.nextField]

end Action

namespace Field

/-! ## Growth by subfields -/

def pushAll (f : Field) (sfs : List Subfield) : Field :=
  sfs.foldl (fun g sf => g.push sf.code sf.value) f

def valued (sfs : List Subfield) : List Subfield :=
  sfs.filter fun sf => sf.value != ""

@[simp] theorem pushAll_nil (f : Field) : f.pushAll [] = f := rfl

@[simp] theorem pushAll_cons (f : Field) (sf : Subfield) (sfs : List Subfield) :
    f.pushAll (sf :: sfs) = (f.push sf.code sf.value).pushAll sfs := rfl

@[simp] theorem tag_pushAll (f : Field) (sfs : List Subfield) : (f.pushAll sfs).tag = f.tag := by
  induction sfs generalizing f with
  | nil => rfl
  | cons sf sfs ih => rw [pushAll_cons, ih, tag_push]

@[simp] theorem occurrence_pushAll (f : Field) (sfs : List Subfield) :
    (f.pushAll sfs).occurrence = f.occurrence := by
  induction sfs generalizing f with
  | nil => rfl
  | cons sf sfs ih => rw [pushAll_cons, ih, occurrence_push]

theorem subfields_pushAll (f : Field) (sfs : List Subfield) :
    (f.pushAll sfs).subfields = f.subfields ++ valued sfs := by
  induction sfs generalizing f with
  | nil => simp [valued]
  | cons sf sfs ih =>
      rw [pushAll_cons, ih, subfields_push, List.append_assoc]
      by_cases hvalue : sf.value = "" <;> simp [valued, hvalue]

theorem valued_eq_self {sfs : List Subfield} (h : ∀ sf ∈ sfs, sf.value ≠ "") :
    valued sfs = sfs :=
  List.filter_eq_self.mpr fun sf hsf => bne_iff_ne.mpr (h sf hsf)

/-! ## Growth by groups -/

def ofGroup (g : Payload.Group) : Subfield :=
  ⟨String.singleton g.1, String.ofList g.2⟩

/-- Groups are added as the subfields that they give. -/
theorem pushGroups_eq_pushAll (f : Field) (gs : List Payload.Group) :
    f.pushGroups gs = f.pushAll (gs.map ofGroup) := by
  rw [pushGroups, pushAll, List.foldl_map]
  rfl

@[simp] theorem tag_pushGroups (f : Field) (gs : List Payload.Group) :
    (f.pushGroups gs).tag = f.tag := by
  rw [pushGroups_eq_pushAll, tag_pushAll]

@[simp] theorem occurrence_pushGroups (f : Field) (gs : List Payload.Group) :
    (f.pushGroups gs).occurrence = f.occurrence := by
  rw [pushGroups_eq_pushAll, occurrence_pushAll]

theorem valued_map_ofGroup (gs : List Payload.Group) :
    valued (gs.map ofGroup) = (gs.filter fun g => !g.2.isEmpty).map ofGroup := by
  rw [valued, List.filter_map]
  congr 2
  funext g
  cases hg : g.2 <;> simp [ofGroup, hg]

/-- Groups with an empty value are left out. -/
theorem subfields_pushGroups (f : Field) (gs : List Payload.Group) :
    (f.pushGroups gs).subfields =
      f.subfields ++ (gs.filter fun g => !g.2.isEmpty).map ofGroup := by
  rw [pushGroups_eq_pushAll, subfields_pushAll, valued_map_ofGroup]

theorem isCodeForm_singleton {c : Char} (h : Payload.isCode c = true) :
    isCodeForm (String.singleton c) = true := by
  have hc : Text.chomp [c] = [c] := by
    rw [Text.chomp]
    · rfl
    · rintro rfl
      exact absurd h (by decide)
  simp [isCodeForm, hc, h]

end Field

namespace FieldRef

theorem exec_append (f : FieldRef) {code : String} (h : Field.isCodeForm code = true)
    (value : String) (s : Store) :
    (f.append (.text code) (.text value)).exec s =
      (.ok (), s.withField f fun x => x.push code value) := by
  simp [append, h]

def appendGroups (f : FieldRef) : List Payload.Group → Action Unit
  | [] => return ()
  | g :: gs => do
    f.append (.text (String.singleton g.1)) (.text (String.ofList g.2))
    f.appendGroups gs

/-- Appending groups with codes one by one is never refused and adds them all. -/
theorem exec_appendGroups (f : FieldRef) {gs : List Payload.Group}
    (h : ∀ g ∈ gs, Payload.isCode g.1 = true) (s : Store) :
    (f.appendGroups gs).exec s = (.ok (), s.withField f fun x => x.pushGroups gs) := by
  induction gs generalizing s with
  | nil => simp [appendGroups]
  | cons g gs ih =>
      have hg := Field.isCodeForm_singleton (h g (by simp))
      have hgs : ∀ x ∈ gs, Payload.isCode x.1 = true := fun x hx => h x (by simp [hx])
      rw [appendGroups, Action.exec_bind, exec_append f hg]
      simp only
      rw [ih hgs, Store.withField_withField]
      rfl

end FieldRef

end Biblio
