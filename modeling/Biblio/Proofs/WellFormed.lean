import Biblio.Proofs.Growth
import Biblio.Proofs.Payload
import Biblio.Proofs.Tag

/-!
# Well-formed fields

A well-formed field has no tag or one of the form of tags, an occurrence only beside a
tag, and subfields with a code of one letter or digit and with a value. Its full tag is
a label that stands for its tag and its occurrence, and its subfields come from groups.
-/

namespace Biblio

namespace Field

structure WellFormed (f : Field) : Prop where
  tag : f.tag = "" ∨ Tag.isTag f.tag.toList = true
  occurrence : f.occurrence = "" ∨ (Tag.isOccurrence f.occurrence.toList = true ∧ f.tag ≠ "")
  codes : ∀ sf ∈ f.subfields, ∃ c, Payload.isCode c = true ∧ sf.code = String.singleton c
  values : ∀ sf ∈ f.subfields, sf.value ≠ ""

theorem ofGroup_injective : Function.Injective ofGroup := by
  rintro ⟨c, v⟩ ⟨d, w⟩ h
  have hcode : c = d := by simpa [ofGroup] using congrArg Subfield.code h
  have hvalue : v = w := by
    simpa [ofGroup] using congrArg (fun sf => sf.value.toList) h
  rw [hcode, hvalue]

theorem exists_group {sf : Subfield}
    (h : ∃ c, Payload.isCode c = true ∧ sf.code = String.singleton c) :
    ∃ g, ofGroup g = sf ∧ Payload.isCode g.1 = true := by
  rcases h with ⟨c, hc, hcode⟩
  refine ⟨(c, sf.value.toList), ?_, hc⟩
  cases sf
  simp_all [ofGroup]

/-- Subfields with a code of one letter or digit and with a value are those of groups. -/
theorem exists_groups {sfs : List Subfield}
    (hcodes : ∀ sf ∈ sfs, ∃ c, Payload.isCode c = true ∧ sf.code = String.singleton c)
    (hvalues : ∀ sf ∈ sfs, sf.value ≠ "") :
    ∃ gs : List Payload.Group, sfs = gs.map ofGroup ∧
      (∀ g ∈ gs, Payload.isCode g.1 = true) ∧ ∀ g ∈ gs, g.2 ≠ [] := by
  induction sfs with
  | nil => exact ⟨[], by simp⟩
  | cons sf sfs ih =>
      obtain ⟨g, hg, hcode⟩ := exists_group (hcodes sf (by simp))
      obtain ⟨gs, hgs, hrest, hne⟩ := ih (fun x hx => hcodes x (by simp [hx]))
        fun x hx => hvalues x (by simp [hx])
      have hvalue : g.2 ≠ [] := by
        intro hnil
        apply hvalues sf (by simp)
        rw [← hg, ofGroup, hnil]
      exact ⟨g :: gs, by simp [hg, hgs], by simpa [hcode] using hrest,
        by simpa [hvalue] using hne⟩

/-- The full tag of a field is the label that its tag and its occurrence make up. -/
theorem fullTag_of_isLabel {f : Field} {label : List Char}
    (h : Tag.IsLabel label f.tag f.occurrence) : f.fullTag = String.ofList label := by
  rw [fullTag]
  generalize f.tag = t at h ⊢
  generalize f.occurrence = o at h ⊢
  cases h with
  | nil => rfl
  | tag _ => simp
  | full ht ho =>
      rcases (Tag.isTag_iff _).mp ht with ⟨a, b, c, d, rfl, -⟩
      rcases (Tag.isOccurrence_iff _).mp ho with ⟨x, y, rfl, -⟩
      apply String.toList_inj.mp
      simp

namespace WellFormed

variable {f : Field}

/-- The full tag is a label that stands for the tag and the occurrence. -/
theorem isLabel_fullTag (h : f.WellFormed) :
    Tag.IsLabel f.fullTag.toList f.tag f.occurrence := by
  rcases h.tag with htag | htag
  · have hocc : f.occurrence = "" := h.occurrence.resolve_right fun ho => ho.2 htag
    rw [fullTag, htag, hocc]
    exact .nil
  · rcases h.occurrence with hocc | ⟨hocc, hne⟩
    · have hlabel : Tag.IsLabel f.tag.toList (String.ofList f.tag.toList) "" := .tag htag
      rw [String.ofList_toList] at hlabel
      simpa [fullTag, hocc] using hlabel
    · have hlabel : Tag.IsLabel (f.tag.toList ++ '/' :: f.occurrence.toList)
          (String.ofList f.tag.toList) (String.ofList f.occurrence.toList) := .full htag hocc
      have hocc' : f.occurrence ≠ "" := by
        intro hempty
        rw [hempty] at hocc
        exact absurd hocc (by decide)
      rw [String.ofList_toList, String.ofList_toList] at hlabel
      simpa [fullTag, hne, hocc'] using hlabel

/-- A field that is created with the full tag has the tag and the occurrence. -/
theorem ofTag_fullTag (h : f.WellFormed) :
    ofTag f.fullTag "" = { tag := f.tag, occurrence := f.occurrence } := by
  have hresolve := h.isLabel_fullTag.resolve
  rw [String.ofList_toList] at hresolve
  rw [ofTag, hresolve]

end WellFormed

end Field

end Biblio
