import Biblio.Note
import Biblio.Proofs.Line.Read

/-!
# Rejected lines

A line is rejected for its label, or else for its payload, if that is not of the grammar.
`IsRejected` says so without a reader, and it is what `read` rejects. A line that is not rejected
gives a field without tag only if it has no label.
-/

namespace Biblio

/-- What is of one of two kinds that exclude each other is counted kind by kind. -/
theorem countP_or_of_exclude {α : Type} {p q : α → Bool}
    (h : ∀ x, ¬(p x = true ∧ q x = true)) (xs : List α) :
    xs.countP (fun x => p x || q x) = xs.countP p + xs.countP q := by
  induction xs with
  | nil => rfl
  | cons x xs ih =>
      have hx : (if (p x || q x) = true then 1 else 0) =
          (if p x = true then 1 else 0) + if q x = true then 1 else 0 := by
        cases hp : p x with
        | false => simp
        | true =>
            have hq : q x = false := by simpa [hp] using h x
            simp [hq]
      rw [List.countP_cons, List.countP_cons, List.countP_cons, ih, hx]
      omega

namespace Field

variable {line label payload : List Char} {e : Rejection}

/-- The line is rejected for its label, whatever its payload is, or for its payload if the label
is of the grammar. A missing label is. -/
inductive IsRejected : List Char → Rejection → Prop
  | tag {line label payload : List Char} (hparts : HasParts line label payload)
      (hlabel : ¬∃ t o, Tag.IsLabel label t o) : IsRejected line .tag
  | subfields {line label payload : List Char} (hparts : HasParts line label payload)
      (hlabel : ∃ t o, Tag.IsLabel label t o)
      (hpayload : ¬∃ gs, Payload.IsDivision payload gs) : IsRejected line .subfields

/-- The line has no label, and its payload is of the grammar. -/
inductive IsUnlabeled : List Char → Prop
  | intro {line payload : List Char} {gs : List Payload.Group}
      (hparts : HasParts line [] payload) (hdiv : Payload.IsDivision payload gs) :
      IsUnlabeled line

/-! ## What the reader rejects -/

/-- A label is of the grammar unless creating a field with it gives no tag. -/
theorem HasParts.exists_isLabel_iff (h : HasParts line label payload) :
    (∃ t o, Tag.IsLabel label t o) ↔
      ¬(label ≠ [] ∧ (ofTag (String.ofList label) "").tag = "") := by
  constructor
  · rintro ⟨t, o, hlabel⟩ ⟨hne, hempty⟩
    have htag : (ofTag (String.ofList label) "").tag = t := by
      rw [ofTag, hlabel.resolve]
    exact hne (hlabel.tag_eq_empty_iff.mp (htag.symm.trans hempty))
  · intro hok
    by_cases hnil : label = []
    · exact ⟨"", "", hnil ▸ .nil⟩
    · exact Tag.exists_isLabel_of_resolve h.endsIn_label fun hempty => hok ⟨hnil, hempty⟩

theorem HasParts.exists_isDivision_iff (h : HasParts line label payload) :
    (∃ gs, Payload.IsDivision payload gs) ↔ Payload.decode? payload ≠ none := by
  constructor
  · rintro ⟨gs, hdiv⟩
    rw [hdiv.decode?]
    simp
  · intro hread
    obtain ⟨gs, hgs⟩ := Option.ne_none_iff_exists'.mp hread
    exact (Payload.exists_isDivision_of_decode? hgs).resolve_right h.payload_ne_lineFeed

/-- The reader rejects the lines that are not of the grammar, and tells the two reasons
apart. -/
theorem read_eq_error_iff (line : String) (e : Rejection) :
    read line = .error e ↔ IsRejected line.toList e := by
  constructor
  · intro h
    obtain ⟨label, payload, hparts⟩ : ∃ label payload, HasParts line.toList label payload :=
      ⟨_, _, HasParts.of_split line.toList⟩
    rw [read_of_hasParts hparts] at h
    split at h
    · next hlabel =>
      obtain rfl := Except.error.inj h
      exact .tag hparts (mt hparts.exists_isLabel_iff.mp (not_not_intro hlabel))
    · next hlabel =>
      cases hread : Payload.decode? payload with
      | none =>
          rw [hread] at h
          obtain rfl := Except.error.inj h
          exact .subfields hparts (hparts.exists_isLabel_iff.mpr hlabel)
            fun hdiv => hparts.exists_isDivision_iff.mp hdiv hread
      | some gs =>
          rw [hread] at h
          cases h
  · intro h
    generalize hcs : line.toList = cs at h
    cases h with
    | tag hparts hlabel =>
        subst hcs
        rw [read_of_hasParts hparts, if_pos]
        exact not_not.mp (mt hparts.exists_isLabel_iff.mpr hlabel)
    | subfields hparts hlabel hpayload =>
        subst hcs
        have hread : Payload.decode? _ = none :=
          not_not.mp (mt hparts.exists_isDivision_iff.mpr hpayload)
        rw [read_of_hasParts hparts, if_neg (hparts.exists_isLabel_iff.mp hlabel), hread]

def rejection? (line : String) : Option Rejection :=
  match read line with
  | .ok _ => none
  | .error e => some e

theorem rejection?_eq_some_iff (line : String) (e : Rejection) :
    rejection? line = some e ↔ IsRejected line.toList e := by
  rw [← read_eq_error_iff, rejection?]
  cases read line <;> simp

instance (line : List Char) (e : Rejection) : Decidable (IsRejected line e) :=
  decidable_of_iff (rejection? (String.ofList line) = some e) (by
    rw [rejection?_eq_some_iff, String.toList_ofList])

theorem isUnlabeled_iff (line : List Char) :
    IsUnlabeled line ↔ Text.trim (splitLine (Text.chop line)).1 = [] ∧
      (Payload.decode? (splitLine (Text.chop line)).2).isSome = true := by
  have hparts := HasParts.of_split line
  rw [Option.isSome_iff_ne_none, ← hparts.exists_isDivision_iff]
  constructor
  · rintro ⟨hparts', hdiv⟩
    obtain ⟨hlabel, hpayload⟩ := hparts'.eq_split
    exact ⟨hlabel.symm, _, hpayload ▸ hdiv⟩
  · rintro ⟨hlabel, gs, hdiv⟩
    rw [hlabel] at hparts
    exact ⟨hparts, hdiv⟩

instance (line : List Char) : Decidable (IsUnlabeled line) :=
  decidable_of_iff _ (isUnlabeled_iff line).symm

/-! ## Lines without tag -/

/-- A line that is not rejected is of the grammar. -/
theorem exists_hasParts_or_isRejected (line : List Char) :
    (∃ label payload t o gs, HasParts line label payload ∧ Tag.IsLabel label t o ∧
      Payload.IsDivision payload gs) ∨ ∃ e, IsRejected line e := by
  have hparts := HasParts.of_split line
  by_cases hlabel : ∃ t o, Tag.IsLabel (Text.trim (splitLine (Text.chop line)).1) t o
  · by_cases hpayload : ∃ gs, Payload.IsDivision (splitLine (Text.chop line)).2 gs
    · obtain ⟨t, o, hto⟩ := hlabel
      obtain ⟨gs, hgs⟩ := hpayload
      exact .inl ⟨_, _, t, o, gs, hparts, hto, hgs⟩
    · exact .inr ⟨_, .subfields hparts hlabel hpayload⟩
  · exact .inr ⟨_, .tag hparts hlabel⟩

theorem IsRejected.not_isDivision (h : IsRejected line e) (hparts : HasParts line label payload)
    {t o : String} (hlabel : Tag.IsLabel label t o) (gs : List Payload.Group) :
    ¬Payload.IsDivision payload gs := by
  intro hdiv
  cases h with
  | tag hparts' hnone =>
      obtain rfl := hparts.eq_split.1.trans hparts'.eq_split.1.symm
      exact hnone ⟨t, o, hlabel⟩
  | subfields hparts' _ hnone =>
      obtain rfl := hparts.eq_split.2.trans hparts'.eq_split.2.symm
      exact hnone ⟨gs, hdiv⟩

theorem IsUnlabeled.not_isRejected (h : IsUnlabeled line) (e : Rejection) :
    ¬IsRejected line e := by
  obtain ⟨hparts, hdiv⟩ := h
  exact fun hrejected => hrejected.not_isDivision hparts .nil _ hdiv

/-- A line gives a field without tag if it is rejected or has no label. -/
theorem tag_parse_eq_empty_iff (line : String) :
    (parse line).tag = "" ↔
      (∃ e, IsRejected line.toList e) ∨ IsUnlabeled line.toList := by
  rcases exists_hasParts_or_isRejected line.toList with
    ⟨label, payload, t, o, gs, hparts, hlabel, hdiv⟩ | ⟨e, hrejected⟩
  · have htag : (parse line).tag = t := by
      rw [parse_of_isLabel hparts hlabel hdiv, tag_pushGroups, ofTag, hlabel.resolve]
    rw [htag, hlabel.tag_eq_empty_iff]
    constructor
    · rintro rfl
      exact .inr ⟨hparts, hdiv⟩
    · rintro (⟨e, hrejected⟩ | ⟨hparts', -⟩)
      · exact absurd hdiv (hrejected.not_isDivision hparts hlabel gs)
      · exact hparts.eq_split.1.trans hparts'.eq_split.1.symm
  · rw [parse_of_read_error ((read_eq_error_iff line e).mpr hrejected)]
    exact iff_of_true rfl (.inl ⟨e, hrejected⟩)

/-! ## Messages -/

def complaint? (line : List Char) : Option String :=
  if IsRejected line .tag then
    some ("invalid tag in line " ++ Text.quote (String.ofList line))
  else if IsRejected line .subfields then
    some ("invalid subfield data in line " ++ Text.quote (String.ofList line))
  else none

theorem complaint?_eq (line : List Char) :
    complaint? line = (rejection? (String.ofList line)).map fun e =>
      (Note.rejected e (String.ofList line)).message := by
  have hiff : ∀ e, IsRejected line e ↔ rejection? (String.ofList line) = some e := by
    intro e
    rw [rejection?_eq_some_iff, String.toList_ofList]
  simp only [complaint?, hiff]
  cases rejection? (String.ofList line) with
  | none => rfl
  | some e => cases e <;> rfl

theorem isSome_complaint?_iff (line : List Char) :
    (complaint? line).isSome = true ↔ ∃ e, IsRejected line e := by
  simp only [complaint?_eq, Option.isSome_map, Option.isSome_iff_exists, rejection?_eq_some_iff,
    String.toList_ofList]

/-- Among lines, those that give a field without tag are those on which there is a message and
those without label. -/
theorem countP_parse_tag (ls : List (List Char)) :
    (ls.map fun l => parse (String.ofList l)).countP (·.tag = "") =
      (ls.filterMap complaint?).length + ls.countP fun l => IsUnlabeled l := by
  have hexclude : ∀ l, ¬((complaint? l).isSome = true ∧ decide (IsUnlabeled l) = true) := by
    rintro l ⟨hcomplaint, hunlabeled⟩
    obtain ⟨e, hrejected⟩ := (isSome_complaint?_iff l).mp hcomplaint
    exact (of_decide_eq_true hunlabeled).not_isRejected e hrejected
  rw [List.length_filterMap_eq_countP, ← countP_or_of_exclude hexclude, List.countP_map]
  refine List.countP_congr fun l _ => ?_
  have hiff := tag_parse_eq_empty_iff (String.ofList l)
  rw [String.toList_ofList, ← isSome_complaint?_iff] at hiff
  simpa using hiff

end Field

end Biblio
