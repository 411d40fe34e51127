import Biblio.Proofs.Built
import Biblio.Proofs.Line.Layout

/-!
# Reading what was written of a line

A line is read, its field is written, and what is written is read again. The tag and the
occurrence are the same as before. The subfields are so too, except that breaks at the end of
the last value are cut: the reader of the line left them in place if groups without value
stood behind them, and the writer leaves those groups out. Such lines are told by the
relation `CoversBreak`, and for all others the second reading gives the same field.
-/

namespace Biblio

namespace Payload

variable {gs : List Group}

theorem valued_append (gs hs : List Group) : valued (gs ++ hs) = valued gs ++ valued hs :=
  List.filter_append ..

theorem valued_eq_nil_iff : valued gs = [] ↔ ∀ g ∈ gs, g.2 = [] := by
  simp [valued, List.filter_eq_nil_iff]

/-- The last group that has a value is followed by groups without value only. -/
theorem getLast?_valued_eq_some_iff (g : Group) :
    (valued gs).getLast? = some g ↔
      g.2 ≠ [] ∧ ∃ front behind, gs = front ++ g :: behind ∧ ∀ h ∈ behind, h.2 = [] := by
  constructor
  · intro hlast
    induction gs using List.reverseRecOn with
    | nil => exact absurd hlast (by simp [valued])
    | append_singleton gs h ih =>
        by_cases hh : h.2 = []
        · have hnone : valued [h] = [] := valued_eq_nil_iff.mpr (by simpa using hh)
          rw [valued_append, hnone, List.append_nil] at hlast
          obtain ⟨hg, front, behind, rfl, hbehind⟩ := ih hlast
          refine ⟨hg, front, behind ++ [h], by simp, ?_⟩
          simpa [or_imp, forall_and, hh] using hbehind
        · have hself : valued [h] = [h] := valued_eq_self (by simpa using hh)
          rw [valued_append, hself, List.getLast?_concat] at hlast
          obtain rfl := Option.some.inj hlast
          exact ⟨hh, gs, [], rfl, by simp⟩
  · rintro ⟨hg, front, behind, rfl, hbehind⟩
    have hself : valued [g] = [g] := valued_eq_self (by simpa using hg)
    rw [List.append_cons, valued_append, valued_append, valued_eq_nil_iff.mpr hbehind,
      List.append_nil, hself, List.getLast?_concat]

theorem IsRaw.endsIn_unescape {raw : List Char} (h : IsRaw raw) :
    Text.endsIn Text.isBreak (unescape raw) = Text.endsIn Text.isBreak raw := by
  rw [← endsIn_encodeValue, h.encodeValue_unescape]

theorem concat_append (gs hs : List Group) : concat (gs ++ hs) = concat gs ++ concat hs :=
  List.flatMap_append ..

/-- The last group ends as its value does, if it has one. -/
theorem endsIn_concat_append (front : List Group) {g : Group} (hg : g.2 ≠ []) :
    Text.endsIn Text.isBreak (concat (front ++ [g])) = Text.endsIn Text.isBreak g.2 := by
  have hlast : concat [g] = ['$', g.1] ++ g.2 := by simp [concat]
  rw [concat_append, hlast, ← List.append_assoc, Text.endsIn_append _ hg]

end Payload

namespace Field

variable {f : Field}

/-! ## Cut ends -/

/-- The subfields with the breaks at the end of the last value cut, and without the last one
if nothing is left of its value. -/
def cutLast : List Subfield → List Subfield
  | [] => []
  | [sf] =>
    let value := String.ofList (Text.chop sf.value.toList)
    if value = "" then [] else [{ sf with value }]
  | sf :: sf' :: sfs => sf :: cutLast (sf' :: sfs)

theorem cutLast_map_ofGroup {gs : List Payload.Group} (h : ∀ g ∈ gs, g.2 ≠ []) :
    cutLast (gs.map ofGroup) =
      ((Payload.chopLast gs).filter fun g => !g.2.isEmpty).map ofGroup := by
  fun_induction Payload.chopLast gs with
  | case1 => rfl
  | case2 g =>
      have hempty : String.ofList (Text.chop g.2) = "" ↔ Text.chop g.2 = [] := by
        rw [← String.toList_inj, String.toList_ofList, String.toList_empty]
      by_cases hchop : Text.chop g.2 = []
      · simp [cutLast, ofGroup, hchop]
      · simp [cutLast, ofGroup, hempty, hchop]
  | case3 g g' gs ih =>
      have hg : g.2 ≠ [] := h g (by simp)
      have hrest := ih fun x hx => h x (by simp [hx])
      rw [List.map_cons, List.map_cons, cutLast, ← List.map_cons, hrest]
      simp [hg]

/-- What is written of a well-formed field is read as the field with the breaks at its end
cut. -/
theorem WellFormed.parse_line_eq (h : f.WellFormed) :
    (parse f.line).tag = f.tag ∧ (parse f.line).occurrence = f.occurrence ∧
      (parse f.line).subfields = cutLast f.subfields := by
  obtain ⟨gs, hgs, hcodes, hvalues⟩ := exists_groups h.codes h.values
  have hparse := h.parse_line hgs hcodes
  rw [h.ofTag_fullTag] at hparse
  rw [hparse, tag_pushGroups, occurrence_pushGroups, subfields_pushGroups, hgs,
    cutLast_map_ofGroup hvalues]
  exact ⟨rfl, rfl, rfl⟩

theorem wellFormed_parse (line : String) : (parse line).WellFormed :=
  have hbuilt : (parse line).IsBuilt True := isBuilt_parse line
  hbuilt.wellFormed trivial

/-! ## Covered breaks -/

variable {line label payload : List Char} {gs : List Payload.Group} {t o : String}

/-- A line of a field in which a value ends in a break and groups without value follow, at
least one and no others. -/
inductive CoversBreak : List Char → Prop
  | intro {line label payload raw : List Char} {t o : String} {c : Char}
      {front behind : List Payload.Group} (hparts : HasParts line label payload)
      (hlabel : Tag.IsLabel label t o)
      (hdiv : Payload.IsDivision payload (front ++ (c, raw) :: behind))
      (hbreak : Text.endsIn Text.isBreak raw = true) (hsome : behind ≠ [])
      (hbehind : ∀ g ∈ behind, g.2 = []) : CoversBreak line

/-- The breaks at the end of a line belong to no part of it. -/
theorem HasParts.endsIn_payload (h : HasParts line label payload) :
    Text.endsIn Text.isBreak payload = false := by
  cases h with
  | intro _ _ _ _ _ _ hclear _ =>
      by_cases hpayload : payload = []
      · simp [hpayload]
      · rwa [Text.endsIn_append _ hpayload] at hclear

/-- A line of a field covers a break exactly if its last value ends in one. -/
theorem coversBreak_iff (hparts : HasParts line label payload) (hlabel : Tag.IsLabel label t o)
    (hdiv : Payload.IsDivision payload gs) :
    CoversBreak line ↔
      ∃ g, (Payload.valued gs).getLast? = some g ∧ Text.endsIn Text.isBreak g.2 = true := by
  constructor
  · rintro ⟨hparts', -, hdiv', hbreak, -, hbehind⟩
    obtain rfl := hparts.eq_split.2.trans hparts'.eq_split.2.symm
    obtain rfl := hdiv.unique hdiv'
    refine ⟨_, (Payload.getLast?_valued_eq_some_iff _).mpr ⟨?_, _, _, rfl, hbehind⟩, hbreak⟩
    rintro rfl
    exact absurd hbreak (by simp)
  · rintro ⟨⟨c, raw⟩, hlast, hbreak⟩
    obtain ⟨hraw, front, behind, rfl, hbehind⟩ :=
      (Payload.getLast?_valued_eq_some_iff _).mp hlast
    refine .intro hparts hlabel hdiv hbreak ?_ hbehind
    -- Without a group behind it, the value would end the payload, and its break be cut.
    rintro rfl
    have hclear := hparts.endsIn_payload
    rw [hdiv.eq_concat, Payload.endsIn_concat_append front hraw, hbreak] at hclear
    exact absurd hclear (by simp)

theorem endsIn_last_parse_iff (line : String) :
    ((parse line).subfields = [] ∨
      ∀ sf ∈ (parse line).subfields.getLast?, Text.endsIn Text.isBreak sf.value.toList = false) ↔
      ¬ CoversBreak line.toList := by
  have hparts := HasParts.of_split line.toList
  generalize Text.trim (splitLine (Text.chop line.toList)).1 = label at hparts
  generalize (splitLine (Text.chop line.toList)).2 = payload at hparts
  by_cases h : ∃ t o gs, Tag.IsLabel label t o ∧ Payload.IsDivision payload gs
  · obtain ⟨t, o, gs, hlabel, hdiv⟩ := h
    have hraw : ∀ g ∈ (Payload.valued gs).getLast?, Payload.IsRaw g.2 := fun g hg =>
      hdiv.isRaw_of_mem g (List.mem_of_mem_filter (List.mem_of_getLast? hg))
    have hsub : (parse line).subfields = (Payload.unescapeAll (Payload.valued gs)).map ofGroup := by
      rw [parse_of_isLabel hparts hlabel hdiv]
      exact subfields_ofParts label hdiv.isRaw_of_mem
    rw [coversBreak_iff hparts hlabel hdiv, hsub, Payload.unescapeAll, List.map_map,
      List.getLast?_map]
    cases hlast : (Payload.valued gs).getLast? with
    | none => simp
    | some g =>
        rw [hlast] at hraw
        have hne : Payload.valued gs ≠ [] := by
          intro hnil
          simp [hnil] at hlast
        simp [hne, ofGroup, (hraw g rfl).endsIn_unescape]
  · have hcovers : ¬ CoversBreak line.toList := by
      rintro ⟨hparts', hlabel', hdiv', -⟩
      have hlabel : label = _ := hparts.eq_split.1.trans hparts'.eq_split.1.symm
      have hpayload : payload = _ := hparts.eq_split.2.trans hparts'.eq_split.2.symm
      exact h ⟨_, _, _, hlabel ▸ hlabel', hpayload ▸ hdiv'⟩
    have hparse := parse_of_not_isLabel hparts h
    simp [hparse, hcovers]

/-- Reading what was written of a line gives the tag, the occurrence and the subfields that
the line gave, with the breaks at the end of the last value cut. So the field is the same as
before unless the line covers a break with groups without value. -/
theorem parse_line_parse (line : String) :
    (parse (parse line).line).tag = (parse line).tag ∧
      (parse (parse line).line).occurrence = (parse line).occurrence ∧
      (parse (parse line).line).subfields = cutLast (parse line).subfields ∧
      ((parse (parse line).line).same (parse line) = true ↔ ¬ CoversBreak line.toList) := by
  have hform := wellFormed_parse line
  obtain ⟨htag, hocc, hsub⟩ := hform.parse_line_eq
  refine ⟨htag, hocc, hsub, ?_⟩
  rw [parse_line_same_iff _ hform, endsIn_last_parse_iff]

/-- The break behind the value is covered by a group without value, and is gone when the line
that is written is read. -/
theorem not_same_parse_line_parse :
    (parse "021A $aFaust\r$b").subfields = [⟨"a", "Faust\r"⟩] ∧
      (parse (parse "021A $aFaust\r$b").line).subfields = [⟨"a", "Faust"⟩] ∧
      (parse (parse "021A $aFaust\r$b").line).same (parse "021A $aFaust\r$b") = false := by
  decide

end Field

end Biblio
