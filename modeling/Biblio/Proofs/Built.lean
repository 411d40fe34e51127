import Biblio.Proofs.Store.Step
import Biblio.Proofs.WellFormed

/-!
# Built fields

Fields are built in two ways only: one gets its label from a tag and an occurrence, and
grows by subfields with an accepted code. `IsBuilt` are the fields that are built so, and
every field of a store that the empty one leads to is one of them.

The forms of tags, occurrences and codes are checked up to one line feed at the end, and
where a tag comes beside an occurrence, and where a code is appended, the text itself is
kept and not the part that was checked. A built field is thus well-formed but for such
line feeds, and `IsBuilt True` leaves those texts out.
-/

namespace Biblio

namespace Text

/-- Whether a text does not end in a line feed. -/
def IsPlain (x : String) : Prop :=
  x.toList.getLast? ≠ some '\n'

instance (x : String) : Decidable (IsPlain x) :=
  inferInstanceAs (Decidable (_ ≠ _))

theorem IsPlain.chomp_eq {x : String} (h : IsPlain x) : chomp x.toList = x.toList := by
  rcases eq_chomp_or x.toList with hx | hx
  · exact hx.symm
  · refine absurd ?_ h
    rw [hx, List.getLast?_concat]

theorem isPlain_of_notMem {x : String} (h : '\n' ∉ x.toList) : IsPlain x :=
  fun hlast => h (List.mem_of_getLast? hlast)

end Text

namespace Tag

/-- A field is created with the parts of a label, or with a tag and an occurrence that are
checked up to a line feed. -/
theorem resolve_cases (tag occurrence : String) :
    (∃ label, IsLabel label (resolve tag occurrence).1 (resolve tag occurrence).2) ∨
      (occurrence ≠ "" ∧ isTag (Text.chomp tag.toList) = true ∧
        isOccurrence (Text.chomp occurrence.toList) = true ∧
        resolve tag occurrence = (tag, occurrence)) := by
  rw [resolve]
  split
  · exact .inl ⟨_, .nil⟩
  · split
    · next hocc =>
      split
      · next hboth =>
        rw [Bool.and_eq_true] at hboth
        exact .inr ⟨hocc, hboth.1, hboth.2, rfl⟩
      · exact .inl ⟨_, .nil⟩
    · split
      · next t o hsplit => exact .inl ⟨_, isLabel_of_splitFull? hsplit⟩
      · exact .inl ⟨_, .nil⟩

theorem IsLabel.isTag_or {label : List Char} {t o : String} (h : IsLabel label t o) :
    t = "" ∨ isTag t.toList = true := by
  cases h with
  | nil => exact .inl rfl
  | tag ht | full ht _ =>
      rw [String.toList_ofList]
      exact .inr ht

theorem IsLabel.isOccurrence_or {label : List Char} {t o : String} (h : IsLabel label t o) :
    o = "" ∨ (isOccurrence o.toList = true ∧ t ≠ "") := by
  cases h with
  | nil => exact .inl rfl
  | tag => exact .inl rfl
  | full ht ho =>
      rw [String.toList_ofList]
      refine .inr ⟨ho, fun hempty => ?_⟩
      obtain rfl := (IsLabel.tag ht).tag_eq_empty_iff.mp hempty
      exact absurd ht (by decide)

theorem isPlain_of_isTag {t : String} (h : t = "" ∨ isTag t.toList = true) :
    Text.IsPlain t := by
  rcases h with rfl | h
  · decide
  · exact Text.isPlain_of_notMem (notMem_of_isTag (by decide) (by decide) h)

theorem isPlain_of_isOccurrence {o : String} (h : o = "" ∨ isOccurrence o.toList = true) :
    Text.IsPlain o := by
  rcases h with rfl | h
  · decide
  · exact Text.isPlain_of_notMem (notMem_of_isOccurrence (by decide) h)

end Tag

namespace Field

variable {f : Field} {plain : Prop}

/-! ## Forms up to a line feed -/

/-- The form that is checked: one line feed may follow the tag, the occurrence and the
codes. -/
structure LooselyFormed (f : Field) : Prop where
  tag : f.tag = "" ∨ Tag.isTag (Text.chomp f.tag.toList) = true
  occurrence : f.occurrence = "" ∨
    (Tag.isOccurrence (Text.chomp f.occurrence.toList) = true ∧ f.tag ≠ "")
  codes : ∀ sf ∈ f.subfields, isCodeForm sf.code = true
  values : ∀ sf ∈ f.subfields, sf.value ≠ ""

structure HasPlainTexts (f : Field) : Prop where
  tag : Text.IsPlain f.tag
  occurrence : Text.IsPlain f.occurrence
  codes : ∀ sf ∈ f.subfields, Text.IsPlain sf.code

theorem exists_of_isCodeForm {code : String} (h : isCodeForm code = true)
    (hplain : Text.IsPlain code) : ∃ c, Payload.isCode c = true ∧ code = String.singleton c := by
  rw [isCodeForm, hplain.chomp_eq] at h
  split at h
  · next c hc =>
    refine ⟨c, h, ?_⟩
    rw [← String.toList_inj, hc, String.toList_singleton]
  · exact absurd h (by simp)

theorem isPlain_singleton {c : Char} (h : Payload.isCode c = true) :
    Text.IsPlain (String.singleton c) := by
  apply Text.isPlain_of_notMem
  rw [String.toList_singleton, List.mem_singleton]
  rintro rfl
  exact absurd h (by decide)

theorem WellFormed.hasPlainTexts (h : f.WellFormed) : f.HasPlainTexts where
  tag := Tag.isPlain_of_isTag h.tag
  occurrence := Tag.isPlain_of_isOccurrence (h.occurrence.imp_right And.left)
  codes := by
    intro sf hsf
    obtain ⟨c, hc, hcode⟩ := h.codes sf hsf
    rw [hcode]
    exact isPlain_singleton hc

/-- What keeps a loosely formed field from being well-formed is a line feed at the end of
its tag, its occurrence or a code. -/
theorem wellFormed_iff (f : Field) : f.WellFormed ↔ f.LooselyFormed ∧ f.HasPlainTexts := by
  constructor
  · intro h
    have hplain := h.hasPlainTexts
    refine ⟨⟨?_, ?_, ?_, h.values⟩, hplain⟩
    · rw [hplain.tag.chomp_eq]
      exact h.tag
    · rw [hplain.occurrence.chomp_eq]
      exact h.occurrence
    · intro sf hsf
      obtain ⟨c, hc, hcode⟩ := h.codes sf hsf
      rw [hcode]
      exact isCodeForm_singleton hc
  · rintro ⟨h, hplain⟩
    refine ⟨?_, ?_, fun sf hsf => exists_of_isCodeForm (h.codes sf hsf) (hplain.codes sf hsf),
      h.values⟩
    · rw [← hplain.tag.chomp_eq]
      exact h.tag
    · rw [← hplain.occurrence.chomp_eq]
      exact h.occurrence

/-! ## Building -/

/-- The fields that can be built. If they have to be plain, no text that is kept as it was
given ends in a line feed. -/
inductive IsBuilt (plain : Prop) : Field → Prop
  | ofTag {tag occurrence : String}
    (hplain : plain → occurrence ≠ "" → Text.IsPlain tag ∧ Text.IsPlain occurrence) :
    IsBuilt plain (ofTag tag occurrence)
  | push {f : Field} (h : IsBuilt plain f) {code : String} (hcode : isCodeForm code = true)
    (hplain : plain → Text.IsPlain code) (value : String) : IsBuilt plain (f.push code value)

theorem isBuilt_ofFullTag (fullTag : String) : (ofTag fullTag "").IsBuilt plain :=
  .ofTag fun _ h => absurd rfl h

theorem isBuilt_empty : ({} : Field).IsBuilt plain :=
  isBuilt_ofFullTag ""

theorem mem_subfields_push {code value : String} {sf : Subfield}
    (h : sf ∈ (f.push code value).subfields) :
    sf ∈ f.subfields ∨ (value ≠ "" ∧ sf = ⟨code, value⟩) := by
  rw [subfields_push, List.mem_append] at h
  rcases h with h | h
  · exact .inl h
  · split at h
    · exact absurd h (by simp)
    · next hvalue => exact .inr ⟨hvalue, List.mem_singleton.mp h⟩

theorem looselyFormed_ofTag (tag occurrence : String) :
    (ofTag tag occurrence).LooselyFormed := by
  rcases Tag.resolve_cases tag occurrence with ⟨label, hlabel⟩ | ⟨hocc, htag, hoccForm, hkept⟩
  · have hform : (ofTag tag occurrence).WellFormed :=
      ⟨hlabel.isTag_or, hlabel.isOccurrence_or, by simp [ofTag], by simp [ofTag]⟩
    exact ((wellFormed_iff _).mp hform).1
  · have hne : tag ≠ "" := by
      rintro rfl
      exact absurd htag (by decide)
    have hfield : ofTag tag occurrence = { tag, occurrence } := by
      rw [ofTag, hkept]
    rw [hfield]
    exact ⟨.inr htag, .inr ⟨hoccForm, hne⟩, by simp, by simp⟩

theorem hasPlainTexts_ofTag {tag occurrence : String}
    (h : occurrence ≠ "" → Text.IsPlain tag ∧ Text.IsPlain occurrence) :
    (ofTag tag occurrence).HasPlainTexts := by
  rcases Tag.resolve_cases tag occurrence with ⟨label, hlabel⟩ | ⟨hocc, -, -, hkept⟩
  · exact ⟨Tag.isPlain_of_isTag hlabel.isTag_or,
      Tag.isPlain_of_isOccurrence (hlabel.isOccurrence_or.imp_right And.left), by simp [ofTag]⟩
  · have hfield : ofTag tag occurrence = { tag, occurrence } := by
      rw [ofTag, hkept]
    rw [hfield]
    exact ⟨(h hocc).1, (h hocc).2, by simp⟩

namespace IsBuilt

theorem looselyFormed (h : f.IsBuilt plain) : f.LooselyFormed := by
  induction h with
  | ofTag => exact looselyFormed_ofTag _ _
  | push _ hcode _ value ih =>
      refine ⟨?_, ?_, ?_, ?_⟩
      · rw [tag_push]
        exact ih.tag
      · rw [tag_push, occurrence_push]
        exact ih.occurrence
      · intro sf hsf
        rcases mem_subfields_push hsf with hsf | ⟨-, rfl⟩
        · exact ih.codes sf hsf
        · exact hcode
      · intro sf hsf
        rcases mem_subfields_push hsf with hsf | ⟨hvalue, rfl⟩
        · exact ih.values sf hsf
        · exact hvalue

theorem hasPlainTexts (h : f.IsBuilt plain) (hp : plain) : f.HasPlainTexts := by
  induction h with
  | ofTag hplain => exact hasPlainTexts_ofTag (hplain hp)
  | push _ _ hplain value ih =>
      refine ⟨?_, ?_, ?_⟩
      · rw [tag_push]
        exact ih.tag
      · rw [occurrence_push]
        exact ih.occurrence
      · intro sf hsf
        rcases mem_subfields_push hsf with hsf | ⟨-, rfl⟩
        · exact ih.codes sf hsf
        · exact hplain hp

theorem wellFormed (h : f.IsBuilt plain) (hp : plain) : f.WellFormed :=
  (wellFormed_iff f).mpr ⟨h.looselyFormed, h.hasPlainTexts hp⟩

/-! ## What is built of built fields -/

theorem pushAll (h : f.IsBuilt plain) {sfs : List Subfield}
    (hcodes : ∀ sf ∈ sfs, isCodeForm sf.code = true)
    (hplain : plain → ∀ sf ∈ sfs, Text.IsPlain sf.code) : (f.pushAll sfs).IsBuilt plain := by
  induction sfs generalizing f with
  | nil => exact h
  | cons sf sfs ih =>
      rw [pushAll_cons]
      exact ih (h.push (hcodes sf (by simp)) (fun hp => hplain hp sf (by simp)) _)
        (fun x hx => hcodes x (by simp [hx])) fun hp x hx => hplain hp x (by simp [hx])

theorem pushGroups (h : f.IsBuilt plain) {gs : List Payload.Group}
    (hcodes : ∀ g ∈ gs, Payload.isCode g.1 = true) : (f.pushGroups gs).IsBuilt plain := by
  rw [pushGroups_eq_pushAll]
  refine h.pushAll ?_ fun _ => ?_
  · intro sf hsf
    obtain ⟨g, hg, rfl⟩ := List.mem_map.mp hsf
    exact isCodeForm_singleton (hcodes g hg)
  · intro sf hsf
    obtain ⟨g, hg, rfl⟩ := List.mem_map.mp hsf
    exact isPlain_singleton (hcodes g hg)

theorem restrict (h : f.IsBuilt plain) (fullTag : String) (k : Option CodeClass) :
    (f.restrict fullTag k).IsBuilt plain :=
  (isBuilt_ofFullTag fullTag).pushAll
    (fun sf hsf => h.looselyFormed.codes sf (List.mem_filter.mp hsf).1)
    fun hp sf hsf => (h.hasPlainTexts hp).codes sf (List.mem_filter.mp hsf).1

end IsBuilt

theorem isBuilt_parse (line : String) : (parse line).IsBuilt plain := by
  cases hread : read line with
  | error e =>
      rw [parse_of_read_error hread]
      exact isBuilt_empty
  | ok f =>
      rw [parse_of_read_ok hread]
      rw [read] at hread
      dsimp only at hread
      split at hread
      · cases hread
      · split at hread
        · cases hread
        · next gs hgs =>
          obtain rfl := Except.ok.inj hread
          exact (isBuilt_ofFullTag _).pushGroups (Payload.isCode_of_decode? hgs)

/-! ## The index of a field -/

/-- The index of a built field by code agrees with a scan of its subfields. -/
theorem IsBuilt.find_positions (h : f.IsBuilt plain) (code : String) :
    f.positions.find code =
      (f.subfields.zipIdx.filter fun x => x.1.code == code).map Prod.snd := by
  induction h with
  | ofTag => rfl
  | @push f _ c hc hplain value ih =>
      rw [Field.push]
      split
      · exact ih
      · dsimp only
        rw [Grouping.find_add, ih, List.zipIdx_append, List.filter_append, List.map_append]
        by_cases hcode : c = code
        · simp [hcode]
        · simp [hcode]

theorem valueAt?_of_mem_zipIdx {x : Subfield × Nat} (h : x ∈ f.subfields.zipIdx) :
    f.valueAt? x.2 = some x.1.value := by
  rw [valueAt?, List.mk_mem_zipIdx_iff_getElem?.mp h, Option.map_some]

/-- The values of a code are those of the subfields with that code. -/
theorem IsBuilt.valuesFor_eq (h : f.IsBuilt plain) (code : String) :
    f.valuesFor code = (f.subfields.filter fun sf => sf.code == code).map Subfield.value := by
  have hscan : (f.subfields.zipIdx.filter fun x => x.1.code == code).map Prod.fst =
      f.subfields.filter fun sf => sf.code == code := by
    conv_rhs => rw [← List.zipIdx_map_fst 0 f.subfields, List.filter_map]
    rfl
  rw [valuesFor, h.find_positions, List.filterMap_map, ← hscan, List.map_map]
  exact List.filterMap_eq_map_iff_forall_eq_some.mpr fun x hx =>
    valueAt?_of_mem_zipIdx (List.mem_filter.mp hx).1

/-- The value of a code is the first of its values. -/
theorem IsBuilt.byCode?_eq (h : f.IsBuilt plain) (code : String) :
    f.byCode? code = (f.valuesFor code).head? := by
  have hat : ∀ x ∈ f.subfields.zipIdx.filter fun x => x.1.code == code,
      f.valueAt? x.2 = some x.1.value := fun x hx =>
    valueAt?_of_mem_zipIdx (List.mem_filter.mp hx).1
  rw [byCode?, valuesFor, h.find_positions]
  cases hfound : f.subfields.zipIdx.filter fun x => x.1.code == code with
  | nil => rfl
  | cons x xs =>
      have hx := hat x (by rw [hfound]; exact List.mem_cons_self)
      rw [List.map_cons, List.head?_cons, Option.bind_some, List.filterMap_cons, hx]
      rfl

end Field

namespace Store

variable {s t : Store} {growth : Prop}

/-! ## The fields of a store -/

theorem Offers.isBuilt (hs : ∀ f, (s.field f).IsBuilt False) {x : Field} (h : s.Offers x) :
    x.IsBuilt False := by
  cases h with
  | ofTag => exact .ofTag False.elim
  | line line => exact Field.isBuilt_parse line
  | copy f fullTag k => exact (hs f).restrict fullTag k

theorem isBuilt_step (hs : ∀ f, (s.field f).IsBuilt False) (hst : Step growth s t)
    (f : FieldRef) : (t.field f).IsBuilt False := by
  cases hst with
  | newField hoffers =>
      rw [field_withNewField_eq]
      split
      · exact hoffers.isBuilt hs
      · exact hs f
  | growField _ _ hcode value =>
      rw [field_withField]
      split
      · exact (hs f).push hcode False.elim value
      · exact hs f
  | _ => exact hs f

/-- The fields of a store that the empty one leads to are built. -/
theorem Leads.isBuilt (h : ({} : Store).Leads growth s) (f : FieldRef) :
    (s.field f).IsBuilt False := by
  refine h.induct (P := fun u => ∀ f, (u.field f).IsBuilt False) ?_
    (fun _ _ hstep hu => isBuilt_step hu hstep) f
  intro f
  rw [show ({} : Store).field f = {} by simp [field]]
  exact Field.isBuilt_empty

end Store

end Biblio
