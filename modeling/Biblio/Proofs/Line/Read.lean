import Biblio.Proofs.Growth
import Biblio.Proofs.Line.Parts
import Biblio.Proofs.Payload
import Biblio.Proofs.Tag

/-!
# Reading lines

`parse` accepts the lines whose label and payload are of the grammar. It then gives the
field that the label stands for with the subfields of the groups of the payload, which
is also what creating the field and appending the groups one by one leads to; any other
line gives the empty field.
-/

namespace Biblio

namespace Field

theorem read_of_hasParts {line : String} {label payload : List Char}
    (h : HasParts line.toList label payload) :
    read line =
      if label ≠ [] ∧ (ofTag (String.ofList label) "").tag = "" then .error .tag
      else
        match Payload.decode? payload with
        | none => .error .subfields
        | some gs => .ok ((ofTag (String.ofList label) "").pushGroups gs) := by
  obtain ⟨rfl, rfl⟩ := h.eq_split
  rfl

/-- A line of the grammar gives the field of its label with the groups of its payload. -/
theorem parse_of_isLabel {line t o : String} {label payload : List Char}
    {gs : List Payload.Group} (hparts : HasParts line.toList label payload)
    (hlabel : Tag.IsLabel label t o) (hdiv : Payload.IsDivision payload gs) :
    parse line = (ofTag (String.ofList label) "").pushGroups (Payload.unescapeAll gs) := by
  have htag : (ofTag (String.ofList label) "").tag = t := by
    simp [ofTag, hlabel.resolve]
  have hok : ¬(label ≠ [] ∧ (ofTag (String.ofList label) "").tag = "") := by
    rintro ⟨hne, hempty⟩
    exact hne (hlabel.tag_eq_empty_iff.mp (htag.symm.trans hempty))
  refine parse_of_read_ok ?_
  rw [read_of_hasParts hparts, if_neg hok, hdiv.decode?]

/-- A line that is not of the grammar is rejected. -/
theorem parse_of_not_isLabel {line : String} {label payload : List Char}
    (hparts : HasParts line.toList label payload)
    (h : ¬∃ t o gs, Tag.IsLabel label t o ∧ Payload.IsDivision payload gs) :
    parse line = {} := by
  have hread := read_of_hasParts hparts
  split at hread
  · exact parse_of_read_error hread
  · next hlabel =>
    cases hdecode : Payload.decode? payload with
    | none =>
        rw [hdecode] at hread
        exact parse_of_read_error hread
    | some gs =>
        have hdiv : ∃ ds, Payload.IsDivision payload ds :=
          (Payload.exists_isDivision_of_decode? hdecode).resolve_right hparts.payload_ne_lineFeed
        rcases hdiv with ⟨ds, hds⟩
        have hform : ∃ t o, Tag.IsLabel label t o := by
          by_cases hnil : label = []
          · exact ⟨"", "", hnil ▸ .nil⟩
          · have htag : (Tag.resolve (String.ofList label) "").1 ≠ "" := by
              intro hempty
              exact hlabel ⟨hnil, hempty⟩
            exact Tag.exists_isLabel_of_resolve hparts.endsIn_label htag
        rcases hform with ⟨t, o, hto⟩
        exact absurd ⟨t, o, ds, hto, hds⟩ h

def subfieldsOf (gs : List Payload.Group) : List Subfield :=
  (gs.filter fun g => !g.2.isEmpty).map fun g => ofGroup (g.1, Payload.unescape g.2)

/-- A raw value is empty before it is unescaped or not at all. -/
theorem filter_unescapeAll {gs : List Payload.Group} (h : ∀ g ∈ gs, Payload.IsRaw g.2) :
    ((Payload.unescapeAll gs).filter fun g => !g.2.isEmpty).map ofGroup = subfieldsOf gs := by
  rw [subfieldsOf, Payload.unescapeAll, List.filter_map, List.map_map]
  congr 1
  apply List.filter_congr
  intro g hg
  simp [(h g hg).isEmpty_unescape]

def build (label : String) (gs : List Payload.Group) : Action FieldRef := do
  let f ← Action.createField (.text label) (.text "")
  f.appendGroups gs
  return f

theorem exec_build (label : String) {gs : List Payload.Group}
    (h : ∀ g ∈ gs, Payload.isCode g.1 = true) (s : Store) :
    (build label gs).exec s =
      (.ok s.nextField, s.withNewField ((ofTag label "").pushGroups gs)) := by
  rw [build, Action.exec_bind, Action.exec_createField]
  simp only
  rw [Action.exec_bind, FieldRef.exec_appendGroups _ h, Store.withNewField_withField]
  rfl

/-- Every line is read, and as its grammar says. The line has one label and one payload. If
they are of the grammar, the payload is divided into groups in one way, and the field has the
tag and the occurrence of the label and the subfields of the groups; creating it and appending
the groups one by one meets no refusal. Any other line gives the empty field. -/
theorem parse_grammar (line : String) :
    ∃ label payload, (∀ l p, HasParts line.toList l p ↔ l = label ∧ p = payload) ∧
      (∀ t o gs, Tag.IsLabel label t o → Payload.IsDivision payload gs →
        (∀ hs, Payload.IsDivision payload hs → hs = gs) ∧
        (parse line).tag = t ∧ (parse line).occurrence = o ∧
        (parse line).subfields = subfieldsOf gs ∧
        ∀ s, (build (String.ofList label) (Payload.unescapeAll gs)).exec s =
          (.ok s.nextField, s.withNewField (parse line))) ∧
      ((¬∃ t o gs, Tag.IsLabel label t o ∧ Payload.IsDivision payload gs) →
        (parse line).tag = "" ∧ (parse line).occurrence = "" ∧ (parse line).subfields = []) ∧
      ∀ s, ∃ f s', (Action.readField (.text line)).exec s = (.ok f, s') ∧
        s'.field f = parse line := by
  obtain ⟨label, payload, hunique⟩ : ∃ label payload, ∀ l p,
      HasParts line.toList l p ↔ l = label ∧ p = payload := ⟨_, _, hasParts_iff line.toList⟩
  have hparts : HasParts line.toList label payload := (hunique _ _).mpr ⟨rfl, rfl⟩
  refine ⟨label, payload, hunique, ?_, ?_, ?_⟩
  · intro t o gs hlabel hdiv
    have hparse := parse_of_isLabel hparts hlabel hdiv
    have hof : ofTag (String.ofList label) "" = { tag := t, occurrence := o } := by
      rw [ofTag, hlabel.resolve]
    have hcodes : ∀ g ∈ Payload.unescapeAll gs, Payload.isCode g.1 = true := by
      intro g hg
      rcases List.mem_map.mp hg with ⟨x, hx, rfl⟩
      exact hdiv.isCode_of_mem x hx
    refine ⟨fun hs hh => hh.unique hdiv, ?_, ?_, ?_, ?_⟩
    · rw [hparse, tag_pushGroups, hof]
    · rw [hparse, occurrence_pushGroups, hof]
    · rw [hparse, subfields_pushGroups, hof, filter_unescapeAll hdiv.isRaw_of_mem]
      rfl
    · intro s
      rw [exec_build _ hcodes, hparse]
  · intro h
    rw [parse_of_not_isLabel hparts h]
    exact ⟨rfl, rfl, rfl⟩
  · intro s
    refine ⟨_, _, Action.exec_parseField line s, ?_⟩
    exact Store.field_withNewField _ (parse line)

end Field

end Biblio
