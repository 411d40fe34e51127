import Biblio.Field.Tag
import Biblio.Proofs.Ends

/-!
# The grammar of labels

A label is empty, a tag, or a tag, a slash and an occurrence. `IsLabel` is this grammar
with the tag and the occurrence that a label stands for; `resolve` gives them to a
field that is created with the label, and no other text without blank ends gives a
tag.
-/

namespace Biblio

namespace Tag

theorem isBlank_of_isDigit {c : Char} (h : isDigit c = true) : Text.isBlank c = false := by
  have hc : 48 ≤ c.toNat ∧ c.toNat ≤ 57 := by
    simpa [isDigit, Char.le_def, UInt32.le_iff_toNat_le] using h
  exact Text.isBlank_of_ascii (by omega) (by omega)

theorem isBlank_of_isClass {c : Char} (h : isClass c = true) : Text.isBlank c = false := by
  have hc : (65 ≤ c.toNat ∧ c.toNat ≤ 90) ∨ c = '@' := by
    simpa [isClass, Char.le_def, UInt32.le_iff_toNat_le] using h
  rcases hc with hc | rfl
  · exact Text.isBlank_of_ascii (by omega) (by omega)
  · decide

theorem isTag_iff (cs : List Char) :
    isTag cs = true ↔ ∃ a b c d, cs = [a, b, c, d] ∧
      isDigit a = true ∧ isDigit b = true ∧ isDigit c = true ∧ isClass d = true := by
  constructor
  · intro h
    unfold isTag at h
    split at h
    · next a b c d => exact ⟨a, b, c, d, rfl, by simpa [and_assoc] using h⟩
    · simp at h
  · rintro ⟨a, b, c, d, rfl, ha, hb, hc, hd⟩
    simp [isTag, ha, hb, hc, hd]

theorem isOccurrence_iff (cs : List Char) :
    isOccurrence cs = true ↔ ∃ a b, cs = [a, b] ∧ isDigit a = true ∧ isDigit b = true := by
  constructor
  · intro h
    unfold isOccurrence at h
    split at h
    · next a b => exact ⟨a, b, rfl, by simpa using h⟩
    · simp at h
  · rintro ⟨a, b, rfl, ha, hb⟩
    simp [isOccurrence, ha, hb]

/-- A character that is neither a digit nor a class is in no tag. -/
theorem notMem_of_isTag {c : Char} {t : List Char} (hdigit : isDigit c = false)
    (hclass : isClass c = false) (ht : isTag t = true) : c ∉ t := by
  rcases (isTag_iff t).mp ht with ⟨a, b, d, e, rfl, ha, hb, hd, he⟩
  intro hmem
  simp only [List.mem_cons, List.not_mem_nil, or_false] at hmem
  rcases hmem with rfl | rfl | rfl | rfl <;> simp_all

theorem notMem_of_isOccurrence {c : Char} {o : List Char} (hdigit : isDigit c = false)
    (ho : isOccurrence o = true) : c ∉ o := by
  rcases (isOccurrence_iff o).mp ho with ⟨a, b, rfl, ha, hb⟩
  intro hmem
  simp only [List.mem_cons, List.not_mem_nil, or_false] at hmem
  rcases hmem with rfl | rfl <;> simp_all

/-! ## Full tags -/

theorem splitFull?_tag {t : List Char} (ht : isTag t = true) : splitFull? t = some (t, []) := by
  rcases (isTag_iff t).mp ht with ⟨a, b, c, d, rfl, -⟩
  simp [splitFull?, ht]

theorem splitFull?_full {t o : List Char} (ht : isTag t = true) (ho : isOccurrence o = true) :
    splitFull? (t ++ '/' :: o) = some (t, o) := by
  rcases (isTag_iff t).mp ht with ⟨a, b, c, d, rfl, -⟩
  simp [splitFull?, ht, ho]

/-! ## Labels -/

/-- The text is a label that stands for this tag and this occurrence. -/
inductive IsLabel : List Char → String → String → Prop
  | nil : IsLabel [] "" ""
  | tag {t : List Char} (ht : isTag t = true) : IsLabel t (String.ofList t) ""
  | full {t o : List Char} (ht : isTag t = true) (ho : isOccurrence o = true) :
      IsLabel (t ++ '/' :: o) (String.ofList t) (String.ofList o)

theorem isLabel_of_splitFull? {cs t o : List Char} (h : splitFull? cs = some (t, o)) :
    IsLabel cs (String.ofList t) (String.ofList o) := by
  have hcut : cs.take 4 ++ cs.drop 4 = cs := List.take_append_drop 4 cs
  unfold splitFull? at h
  simp only at h
  split at h
  · next ht =>
    split at h
    · next hdrop =>
      obtain ⟨rfl, rfl⟩ := by simpa using h
      rw [hdrop, List.append_nil] at hcut
      rw [hcut] at ht ⊢
      exact .tag ht
    · next o' hdrop =>
      split at h
      · next ho =>
        obtain ⟨rfl, rfl⟩ := by simpa using h
        rw [hdrop] at hcut
        have hfull : IsLabel (cs.take 4 ++ '/' :: o') _ _ := .full ht ho
        rwa [hcut] at hfull
      · simp at h
    · simp at h
  · simp at h

namespace IsLabel

variable {label : List Char} {t o : String}

theorem endsIn_isBlank (h : IsLabel label t o) : Text.endsIn Text.isBlank label = false := by
  cases h with
  | nil => rfl
  | tag ht =>
      rcases (isTag_iff _).mp ht with ⟨a, b, c, d, rfl, -, -, -, hd⟩
      exact isBlank_of_isClass hd
  | full ht ho =>
      rcases (isOccurrence_iff _).mp ho with ⟨a, b, rfl, -, hb⟩
      rw [Text.endsIn_append _ (by simp)]
      exact isBlank_of_isDigit hb

theorem startsIn_isBlank (h : IsLabel label t o) :
    Text.startsIn Text.isBlank label = false := by
  cases h with
  | nil => rfl
  | tag ht =>
      rcases (isTag_iff _).mp ht with ⟨a, b, c, d, rfl, ha, -⟩
      exact isBlank_of_isDigit ha
  | full ht ho =>
      rcases (isTag_iff _).mp ht with ⟨a, b, c, d, rfl, ha, -⟩
      exact isBlank_of_isDigit ha

theorem dollar_notMem (h : IsLabel label t o) : '$' ∉ label := by
  cases h with
  | nil => simp
  | tag ht => exact notMem_of_isTag (by decide) (by decide) ht
  | full ht ho =>
      have htag := notMem_of_isTag (c := '$') (by decide) (by decide) ht
      have hocc := notMem_of_isOccurrence (c := '$') (by decide) ho
      simp [htag, hocc]

/-- A field that is created with a label gets the tag and the occurrence of the label. -/
theorem resolve (h : IsLabel label t o) : Tag.resolve (String.ofList label) "" = (t, o) := by
  have hchomp : Text.chomp label = label := Text.chomp_eq_self h.endsIn_isBlank
  cases h with
  | nil => rfl
  | tag ht =>
      rcases (isTag_iff _).mp ht with ⟨a, b, c, d, rfl, -⟩
      simp [Tag.resolve, hchomp, splitFull?_tag ht]
  | full ht ho =>
      rcases (isTag_iff _).mp ht with ⟨a, b, c, d, rfl, -⟩
      have hsplit := splitFull?_full ht ho
      simp only [List.cons_append, List.nil_append] at hchomp hsplit
      simp [Tag.resolve, hchomp, hsplit]

/-- The tag of a label is missing only if the label is. -/
theorem tag_eq_empty_iff (h : IsLabel label t o) : t = "" ↔ label = [] := by
  cases h with
  | nil => simp
  | tag ht =>
      rcases (isTag_iff _).mp ht with ⟨a, b, c, d, rfl, -⟩
      simp
  | full ht ho =>
      rcases (isTag_iff _).mp ht with ⟨a, b, c, d, rfl, -⟩
      simp

end IsLabel

/-- A text without blank ends that gives a tag is a label. -/
theorem exists_isLabel_of_resolve {cs : List Char}
    (hend : Text.endsIn Text.isBlank cs = false)
    (h : (resolve (String.ofList cs) "").1 ≠ "") : ∃ t o, IsLabel cs t o := by
  rw [resolve, String.toList_ofList, Text.chomp_eq_self hend] at h
  split at h
  · exact absurd rfl h
  · split at h
    · next hne => exact absurd rfl hne
    · split at h
      · next t o hsplit => exact ⟨_, _, isLabel_of_splitFull? hsplit⟩
      · exact absurd rfl h

end Tag

end Biblio
