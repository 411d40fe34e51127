import Biblio.Proofs.Line.Read
import Biblio.Proofs.WellFormed

/-!
# Writing lines

A well-formed field is written as its full tag, a space and its payload, and the line is
read back as the field with the breaks at the end of its last value cut. Reading undoes
writing exactly if there are no such breaks.
-/

namespace Biblio

namespace Field

theorem toList_payload {f : Field} {gs : List Payload.Group} (h : f.subfields = gs.map ofGroup) :
    f.payload.toList = Payload.encode gs := by
  have hwrite : ∀ g : Payload.Group, writeSubfield (ofGroup g) = Payload.encodeGroup g := by
    intro g
    simp [writeSubfield, ofGroup, Payload.encodeGroup]
  rw [payload, String.toList_ofList, h, List.flatMap_map, Payload.encode]
  simp only [hwrite]

/-- The line is the full tag and the payload, possibly with a space between them. -/
theorem exists_toList_line {f : Field} {gs : List Payload.Group}
    (h : f.subfields = gs.map ofGroup) :
    ∃ space, f.line.toList = f.fullTag.toList ++ space ++ Payload.encode gs ∧
      (∀ c ∈ space, c = ' ') ∧ (gs = [] → space = []) := by
  have hpayload := toList_payload h
  rw [line]
  split
  · next hboth =>
    refine ⟨[' '], by simp [hpayload], by simp, ?_⟩
    rintro rfl
    have hempty : f.payload = "" := String.toList_inj.mp hpayload
    exact absurd hempty hboth.2
  · exact ⟨[], by simp [hpayload], by simp, by simp⟩

namespace WellFormed

variable {f : Field} {gs : List Payload.Group}

/-- Cutting the breaks at the end of a written line cuts those of the last value. -/
theorem exists_chop_line (h : f.WellFormed) (hgs : f.subfields = gs.map ofGroup)
    (hcodes : ∀ g ∈ gs, Payload.isCode g.1 = true) :
    ∃ space, Text.chop f.line.toList =
        f.fullTag.toList ++ space ++ Payload.encode (Payload.chopLast gs) ∧
      ∀ c ∈ space, c = ' ' := by
  rcases exists_toList_line hgs with ⟨space, hline, hspace, hnone⟩
  refine ⟨space, ?_, hspace⟩
  rw [hline]
  by_cases hnil : gs = []
  · subst hnil
    have hchop := Text.chop_eq_self h.isLabel_fullTag.endsIn_isBlank
    simpa [hnone rfl, Payload.chopLast] using hchop
  · exact Payload.chop_append_encode _ hnil hcodes

/-- A full tag with spaces behind it is told apart from a payload. -/
theorem exists_splitLine (h : f.WellFormed) {space payload : List Char}
    (hspace : ∀ c ∈ space, c = ' ') (hpayload : payload = [] ∨ payload.head? = some '$') :
    ∃ front, splitLine (f.fullTag.toList ++ space ++ payload) = (front, payload) ∧
      Text.trim front = f.fullTag.toList := by
  have hlabel := h.isLabel_fullTag
  have hfront : ∀ c ∈ f.fullTag.toList ++ space, c ≠ '$' := by
    intro c hc
    rcases List.mem_append.mp hc with hc | hc
    · rintro rfl
      exact hlabel.dollar_notMem hc
    · rw [hspace c hc]
      decide
  have hblank : ∀ c ∈ space, Text.isBlank c = true := by
    intro c hc
    rw [hspace c hc]
    decide
  have htrim : Text.trim ([] ++ f.fullTag.toList ++ space) = f.fullTag.toList :=
    Text.trim_pad (by simp) hblank hlabel.startsIn_isBlank hlabel.endsIn_isBlank
  exact ⟨_, splitLine_append hfront hpayload, htrim⟩

theorem hasParts_line (h : f.WellFormed) (hgs : f.subfields = gs.map ofGroup)
    (hcodes : ∀ g ∈ gs, Payload.isCode g.1 = true) :
    HasParts f.line.toList f.fullTag.toList (Payload.encode (Payload.chopLast gs)) := by
  obtain ⟨space, hchop, hspace⟩ := h.exists_chop_line hgs hcodes
  obtain ⟨front, hsplit, htrim⟩ := h.exists_splitLine hspace (Payload.encode_payload _)
  rw [hasParts_iff, hchop, hsplit]
  exact ⟨htrim.symm, rfl⟩

/-- A written line is read as the field with the breaks at the end of its last value cut. -/
theorem parse_line (h : f.WellFormed) (hgs : f.subfields = gs.map ofGroup)
    (hcodes : ∀ g ∈ gs, Payload.isCode g.1 = true) :
    parse f.line = (ofTag f.fullTag "").pushGroups (Payload.chopLast gs) := by
  have hdiv := Payload.isDivision_encode (Payload.isCode_of_mem_chopLast hcodes)
  have hparse := parse_of_isLabel (h.hasParts_line hgs hcodes) h.isLabel_fullTag hdiv
  rwa [String.ofList_toList, Payload.unescapeAll_escapeAll] at hparse

end WellFormed

theorem same_iff (f g : Field) :
    f.same g = true ↔
      f.tag = g.tag ∧ f.occurrence = g.occurrence ∧ f.subfields = g.subfields := by
  simp [same, and_assoc]

/-- Reading undoes writing exactly if the last value does not end in a break. -/
theorem parse_line_same_iff (f : Field) (h : f.WellFormed) :
    (parse f.line).same f = true ↔
      f.subfields = [] ∨
        ∀ sf ∈ f.subfields.getLast?, Text.endsIn Text.isBreak sf.value.toList = false := by
  obtain ⟨gs, hgs, hcodes, hvalues⟩ := exists_groups h.codes h.values
  have hof := h.ofTag_fullTag
  have hsubfields : (parse f.line).subfields =
      ((Payload.chopLast gs).filter fun g => !g.2.isEmpty).map ofGroup := by
    rw [h.parse_line hgs hcodes, subfields_pushGroups, hof]
    rfl
  have hlast : (∀ sf ∈ f.subfields.getLast?,
        Text.endsIn Text.isBreak sf.value.toList = false) ↔
      ∀ g ∈ gs.getLast?, Text.endsIn Text.isBreak g.2 = false := by
    rw [hgs, List.getLast?_map]
    cases gs.getLast? <;> simp [ofGroup]
  calc (parse f.line).same f = true
      ↔ (parse f.line).subfields = f.subfields := by
        rw [same_iff, h.parse_line hgs hcodes, hof]
        simp
    _ ↔ ((Payload.chopLast gs).filter fun g => !g.2.isEmpty) = gs := by
        rw [hsubfields, hgs, (List.map_injective_iff.mpr ofGroup_injective).eq_iff]
    _ ↔ ∀ sf ∈ f.subfields.getLast?, Text.endsIn Text.isBreak sf.value.toList = false := by
        rw [Payload.filter_chopLast_eq_iff hvalues, hlast]
    _ ↔ _ := by
        constructor
        · exact .inr
        · rintro (hnil | hclear)
          · simp [hnil]
          · exact hclear

def dollars : Field :=
  { tag := "021A", occurrence := "01", subfields := [⟨"a", "$$x\n"⟩, ⟨"9", "\r $"⟩] }

theorem wellFormed_dollars : dollars.WellFormed where
  tag := .inr (by decide)
  occurrence := .inr (by decide)
  codes := by
    intro sf hsf
    simp only [dollars, List.mem_cons, List.not_mem_nil, or_false] at hsf
    rcases hsf with rfl | rfl
    · exact ⟨'a', by decide, rfl⟩
    · exact ⟨'9', by decide, rfl⟩
  values := by decide

theorem parse_line_same_dollars :
    dollars.WellFormed ∧ (parse dollars.line).same dollars = true :=
  ⟨wellFormed_dollars, (parse_line_same_iff dollars wellFormed_dollars).mpr (.inr (by decide))⟩

end Field

end Biblio
