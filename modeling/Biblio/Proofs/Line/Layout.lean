import Biblio.Proofs.Line.Write

/-!
# The layout of lines

Reading a line and writing its field loses nothing but layout. What is written are the
label of the line and those of its groups that have a value, each as it stands in the
line, with one space between label and payload and nothing around them. `ofParts` is the
field of a label and of groups with raw values; a line that is laid out like this is
written back as it was.
-/

namespace Biblio

namespace Payload

def concat (gs : List Group) : List Char :=
  gs.flatMap fun g => '$' :: g.1 :: g.2

def valued (gs : List Group) : List Group :=
  gs.filter fun g => !g.2.isEmpty

variable {cs : List Char} {gs : List Group}

theorem valued_eq_self (h : ∀ g ∈ gs, g.2 ≠ []) : valued gs = gs := by
  rw [valued, List.filter_eq_self]
  intro g hg
  simpa using h g hg

theorem mem_concat_of_mem_concat_valued {c : Char} (h : c ∈ concat (valued gs)) :
    c ∈ concat gs := by
  obtain ⟨g, hg, hc⟩ := List.mem_flatMap.mp h
  exact List.mem_flatMap.mpr ⟨g, List.mem_of_mem_filter hg, hc⟩

theorem concat_payload (gs : List Group) : concat gs = [] ∨ (concat gs).head? = some '$' := by
  cases gs with
  | nil => exact .inl rfl
  | cons g gs => exact .inr rfl

theorem isDivision_concat (hcode : ∀ g ∈ gs, isCode g.1 = true) (hraw : ∀ g ∈ gs, IsRaw g.2) :
    IsDivision (concat gs) gs := by
  induction gs with
  | nil => exact .nil
  | cons g gs ih =>
      rw [List.forall_mem_cons] at hcode hraw
      exact .cons hcode.1 hraw.1 (ih hcode.2 hraw.2)

namespace IsDivision

theorem eq_concat (h : IsDivision cs gs) : cs = concat gs := by
  induction h with
  | nil => rfl
  | cons _ _ _ ih =>
      rw [ih]
      rfl

/-- Groups without value can be deleted anywhere. -/
theorem valued (h : IsDivision cs gs) : IsDivision (concat (valued gs)) (valued gs) :=
  isDivision_concat (fun g hg => h.isCode_of_mem g (List.mem_of_mem_filter hg))
    fun g hg => h.isRaw_of_mem g (List.mem_of_mem_filter hg)

theorem encode_unescapeAll (h : IsDivision cs gs) : encode (unescapeAll gs) = concat gs :=
  h.eq_encode.symm.trans h.eq_concat

end IsDivision

/-- A raw value is empty before it is read or not at all. -/
theorem filter_isEmpty_unescapeAll (h : ∀ g ∈ gs, IsRaw g.2) :
    ((unescapeAll gs).filter fun g => !g.2.isEmpty) = unescapeAll (valued gs) := by
  rw [unescapeAll, unescapeAll, valued, List.filter_map]
  congr 1
  apply List.filter_congr
  intro g hg
  simp [(h g hg).isEmpty_unescape]

end Payload

namespace Field

/-! ## Fields of parts -/

def ofParts (label : List Char) (gs : List Payload.Group) : Field :=
  (ofTag (String.ofList label) "").pushGroups (Payload.unescapeAll gs)

variable {label payload : List Char} {gs : List Payload.Group} {t o : String}

theorem pushGroups_filter (f : Field) (gs : List Payload.Group) :
    f.pushGroups (gs.filter fun g => !g.2.isEmpty) = f.pushGroups gs := by
  induction gs generalizing f with
  | nil => rfl
  | cons g gs ih =>
      rw [pushGroups_cons, List.filter_cons]
      cases hg : g.2 with
      | nil => simpa using ih f
      | cons c cs =>
          simp only [List.isEmpty_cons, Bool.not_false, if_true]
          rw [pushGroups_cons, ih, hg]

/-- Groups without value leave no trace in the field. -/
theorem ofParts_valued (h : ∀ g ∈ gs, Payload.IsRaw g.2) :
    ofParts label (Payload.valued gs) = ofParts label gs := by
  rw [ofParts, ofParts, ← Payload.filter_isEmpty_unescapeAll h, pushGroups_filter]

theorem fullTag_ofParts (h : Tag.IsLabel label t o) (gs : List Payload.Group) :
    (ofParts label gs).fullTag = String.ofList label := by
  have htag : (ofParts label gs).tag = t := by
    rw [ofParts, tag_pushGroups, ofTag, h.resolve]
  have hoccurrence : (ofParts label gs).occurrence = o := by
    rw [ofParts, occurrence_pushGroups, ofTag, h.resolve]
  exact fullTag_of_isLabel (by rwa [htag, hoccurrence])

theorem subfields_ofParts (label : List Char) (h : ∀ g ∈ gs, Payload.IsRaw g.2) :
    (ofParts label gs).subfields =
      (Payload.unescapeAll (Payload.valued gs)).map ofGroup := by
  rw [ofParts, subfields_pushGroups, Payload.filter_isEmpty_unescapeAll h]
  rfl

/-! ## Written lines -/

/-- A label and a payload with one space between them if there are both. -/
def layout (label payload : List Char) : List Char :=
  if label ≠ [] ∧ payload ≠ [] then label ++ ' ' :: payload else label ++ payload

theorem toList_line (f : Field) : f.line.toList = layout f.fullTag.toList f.payload.toList := by
  rw [line, layout]
  simp only [ne_eq, String.toList_eq_nil_iff]
  split <;> simp

/-- What is written for the field of parts. -/
theorem toList_line_ofParts (hlabel : Tag.IsLabel label t o)
    (hdiv : Payload.IsDivision payload gs) :
    (ofParts label gs).line.toList = layout label (Payload.concat (Payload.valued gs)) := by
  rw [toList_line, fullTag_ofParts hlabel, String.toList_ofList,
    toList_payload (subfields_ofParts label hdiv.isRaw_of_mem), hdiv.valued.encode_unescapeAll]

theorem mem_of_mem_layout {c : Char} (h : c ∈ layout label payload) :
    c = ' ' ∨ c ∈ label ∨ c ∈ payload := by
  rw [layout] at h
  split at h
  · simpa [or_left_comm] using h
  · exact .inr (List.mem_append.mp h)

/-- A label and a payload are the parts of the line in which they are laid out, unless there
are breaks at its end. -/
theorem hasParts_layout (hlabel : Tag.IsLabel label t o)
    (hpayload : payload = [] ∨ payload.head? = some '$')
    (hclear : Text.endsIn Text.isBreak payload = false) :
    HasParts (layout label payload) label payload := by
  obtain ⟨space, hlayout, hspace⟩ :
      ∃ space, layout label payload = label ++ space ++ payload ∧
        ((∀ c ∈ space, c = ' ') ∧ (payload = [] → space = [])) := by
    by_cases h : label ≠ [] ∧ payload ≠ []
    · exact ⟨[' '], by simp [layout, h], by simp [h.2]⟩
    · exact ⟨[], by rw [layout, if_neg h, List.append_nil], by simp⟩
  have hblank : ∀ c ∈ space, Text.isBlank c = true := by
    intro c hc
    rw [hspace.1 c hc]
    decide
  have hend : Text.endsIn Text.isBreak ([] ++ label ++ space ++ payload) = false := by
    by_cases hnil : payload = []
    · have hbreak := Text.endsIn_of_imp (fun _ => Text.isBlank_of_isBreak) hlabel.endsIn_isBlank
      simpa [hnil, hspace.2 hnil] using hbreak
    · rw [Text.endsIn_append _ hnil, hclear]
  have hdollar : ∀ c ∈ label, c ≠ '$' := by
    rintro c hc rfl
    exact hlabel.dollar_notMem hc
  have hparts : HasParts ([] ++ label ++ space ++ payload ++ []) label payload :=
    .intro (by simp) hdollar hlabel.startsIn_isBlank hlabel.endsIn_isBlank hblank hpayload hend
      (by simp)
  simpa [hlayout] using hparts

/-- The field of parts is read back from its line, unless there are breaks at its end. -/
theorem parse_line_ofParts (hlabel : Tag.IsLabel label t o)
    (hdiv : Payload.IsDivision payload gs)
    (hclear : Text.endsIn Text.isBreak (Payload.concat (Payload.valued gs)) = false) :
    parse (ofParts label gs).line = ofParts label gs := by
  have hparts : HasParts (ofParts label gs).line.toList label
      (Payload.concat (Payload.valued gs)) := by
    rw [toList_line_ofParts hlabel hdiv]
    exact hasParts_layout hlabel (Payload.concat_payload _) hclear
  calc parse (ofParts label gs).line = ofParts label (Payload.valued gs) :=
        parse_of_isLabel hparts hlabel hdiv.valued
    _ = ofParts label gs := ofParts_valued hdiv.isRaw_of_mem

theorem HasParts.mem_of_mem_append {line label payload : List Char}
    (h : HasParts line label payload) : ∀ c ∈ label ++ payload, c ∈ line := by
  cases h
  intro c hc
  rcases List.mem_append.mp hc with hc | hc <;> simp [hc]

/-- Every line gives a field of parts, which are of the characters of the line. -/
theorem exists_parse_eq_ofParts (line : String) :
    ∃ label payload gs t o, Tag.IsLabel label t o ∧ Payload.IsDivision payload gs ∧
      parse line = ofParts label gs ∧ ∀ c ∈ label ++ payload, c ∈ line.toList := by
  have hparts := HasParts.of_split line.toList
  generalize Text.trim (splitLine (Text.chop line.toList)).1 = label at hparts
  generalize (splitLine (Text.chop line.toList)).2 = payload at hparts
  by_cases h : ∃ t o gs, Tag.IsLabel label t o ∧ Payload.IsDivision payload gs
  · obtain ⟨t, o, gs, hlabel, hdiv⟩ := h
    exact ⟨label, payload, gs, t, o, hlabel, hdiv, parse_of_isLabel hparts hlabel hdiv,
      hparts.mem_of_mem_append⟩
  · exact ⟨[], [], [], "", "", .nil, .nil, parse_of_not_isLabel hparts h, by simp⟩

/-- Reading a line of the grammar and writing its field leaves the label, a space and the
groups of the payload that have a value. So a line of a label and of groups with values that
is laid out like this, without breaks at its end, is written back as it is. -/
theorem line_parse (line : String) :
    (∀ label payload t o gs, HasParts line.toList label payload → Tag.IsLabel label t o →
      Payload.IsDivision payload gs →
      (parse line).line.toList = layout label (Payload.concat (Payload.valued gs))) ∧
    (∀ label payload t o gs, line.toList = layout label payload → Tag.IsLabel label t o →
      Payload.IsDivision payload gs → (∀ g ∈ gs, g.2 ≠ []) →
      Text.endsIn Text.isBreak payload = false → (parse line).line = line) := by
  have hwritten : ∀ label payload t o gs, HasParts line.toList label payload →
      Tag.IsLabel label t o → Payload.IsDivision payload gs →
      (parse line).line.toList = layout label (Payload.concat (Payload.valued gs)) := by
    intro label payload t o gs hparts hlabel hdiv
    rw [parse_of_isLabel hparts hlabel hdiv]
    exact toList_line_ofParts hlabel hdiv
  refine ⟨hwritten, ?_⟩
  intro label payload t o gs hline hlabel hdiv hvalues hclear
  have hpayload : payload = Payload.concat (Payload.valued gs) := by
    rw [Payload.valued_eq_self hvalues, hdiv.eq_concat]
  have hstart : payload = [] ∨ payload.head? = some '$' :=
    hpayload ▸ Payload.concat_payload (Payload.valued gs)
  have hparts : HasParts line.toList label payload :=
    hline ▸ hasParts_layout hlabel hstart hclear
  apply String.toList_inj.mp
  rw [hwritten label payload t o gs hparts hlabel hdiv, ← hpayload, hline]

/-- A line with blank characters around its label, a pair of dollar signs, a group without value
and breaks at the end, and the line that is left of it. -/
theorem line_parse_loose :
    let label := ['0', '2', '1', 'A']
    let gs := [('a', ['$', '$', 'x']), ('b', [])]
    HasParts " 021A\t$a$$x$b\r\n".toList label ['$', 'a', '$', '$', 'x', '$', 'b'] ∧
      Tag.IsLabel label "021A" "" ∧
      Payload.IsDivision ['$', 'a', '$', '$', 'x', '$', 'b'] gs ∧
      (parse " 021A\t$a$$x$b\r\n").line.toList =
        ['0', '2', '1', 'A', ' ', '$', 'a', '$', '$', 'x'] ∧
      (parse "021A $a$$x").line = "021A $a$$x" := by
  have hlabel : Tag.IsLabel ['0', '2', '1', 'A'] "021A" "" := .tag (by decide)
  have hraw : Payload.IsRaw ['$', '$', 'x'] := .pair (.plain (by decide) .nil)
  have hdiv : Payload.IsDivision ['$', 'a', '$', '$', 'x', '$', 'b']
      [('a', ['$', '$', 'x']), ('b', [])] :=
    .cons (by decide) hraw (.cons (by decide) .nil .nil)
  have hleft : Payload.IsDivision ['$', 'a', '$', '$', 'x'] [('a', ['$', '$', 'x'])] :=
    .cons (by decide) hraw .nil
  have hbefore : ∀ c ∈ [' '], Text.isBlank c = true := List.forall_mem_singleton.mpr (by decide)
  have hdollar : ∀ c ∈ ['0', '2', '1', 'A'], c ≠ '$' := by simp
  have hafter : ∀ c ∈ ['\t'], Text.isBlank c = true := List.forall_mem_singleton.mpr (by decide)
  have hclear : Text.endsIn Text.isBreak ([' '] ++ ['0', '2', '1', 'A'] ++ ['\t'] ++
      ['$', 'a', '$', '$', 'x', '$', 'b']) = false := by decide
  have hbreaks : ∀ c ∈ ['\r', '\n'], Text.isBreak c = true := by simp [Text.isBreak]
  have hparts : HasParts " 021A\t$a$$x$b\r\n".toList ['0', '2', '1', 'A']
      ['$', 'a', '$', '$', 'x', '$', 'b'] :=
    .intro hbefore hdollar (by decide) (by decide) hafter (.inr rfl) hclear hbreaks
  refine ⟨hparts, hlabel, hdiv, ?_, ?_⟩
  · exact ((line_parse _).1 _ _ _ _ _ hparts hlabel hdiv).trans (by decide)
  · exact (line_parse _).2 _ _ _ _ _ (by decide) hlabel hleft (by decide) (by decide)

end Field

end Biblio
