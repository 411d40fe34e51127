import Biblio.Proofs.Line.Layout
import Biblio.Proofs.Store.Step
import Biblio.Request.Record

/-!
# Records and their lines

A record that is read from a text has one field for each line of the text that is not
blank, and is written with one line for each field. No field that was read from a line
has a break in its own line, and the line is blank only if it is empty, which it is only
for a field without tag and subfields. So a written record is read as it was, less the
fields of that kind, and from then on writing and reading change nothing.
-/

namespace Biblio

/-! ## Lines of texts -/

namespace Text

def dropEmptyLines (text : String) : String :=
  "\n".intercalate
    (((text.toList.splitOn '\n').filter fun l => !l.isEmpty).map String.ofList)

variable {l : List Char} {ls : List (List Char)}

theorem isBreak_of_mem_lines {cs : List Char} (hl : l ∈ lines cs) :
    ∀ c ∈ l, isBreak c = false := by
  induction cs generalizing l with
  | nil =>
      rw [lines_nil, List.mem_singleton] at hl
      simp [hl]
  | cons c cs ih =>
      rw [lines] at hl
      split at hl
      · rcases List.mem_cons.mp hl with rfl | hl
        · simp
        · exact ih hl
      · next hc =>
        obtain ⟨m, ms, hms⟩ := List.exists_cons_of_ne_nil (lines_ne_nil cs)
        rw [hms] at hl ih
        rcases List.mem_cons.mp hl with rfl | hl
        · simpa [hc] using ih (l := m) (by simp)
        · exact ih (by simp [hl])

theorem lines_eq_singleton (h : ∀ c ∈ l, isBreak c = false) : lines l = [l] := by
  induction l with
  | nil => rfl
  | cons c l ih =>
      rw [List.forall_mem_cons] at h
      rw [lines, if_neg (by simp [h.1]), ih h.2]

/-- At a break a text is cut into lines on both sides on its own. -/
theorem lines_append_break {c : Char} (hc : isBreak c = true) (cs ds : List Char) :
    lines (cs ++ c :: ds) = lines cs ++ lines ds := by
  induction cs with
  | nil => exact lines_cons_of_isBreak ds hc
  | cons d cs ih =>
      rw [List.cons_append, lines, lines, ih]
      split
      · rfl
      · obtain ⟨l, ls, hls⟩ := List.exists_cons_of_ne_nil (lines_ne_nil cs)
        rw [hls]
        rfl

theorem lines_append_lineFeed (h : ∀ c ∈ l, isBreak c = false) (cs : List Char) :
    lines (l ++ '\n' :: cs) = l :: lines cs := by
  rw [lines_append_break (by decide), lines_eq_singleton h, List.singleton_append]

/-- Lines without breaks that are joined by line feeds are told apart. -/
theorem lines_intercalate (hne : ls ≠ []) (h : ∀ l ∈ ls, ∀ c ∈ l, isBreak c = false) :
    lines (['\n'].intercalate ls) = ls := by
  induction ls with
  | nil => exact absurd rfl hne
  | cons l ls ih =>
      rw [List.forall_mem_cons] at h
      cases ls with
      | nil => simpa using lines_eq_singleton h.1
      | cons m ms =>
          rw [List.intercalate_cons_cons, List.append_assoc, List.singleton_append,
            lines_append_lineFeed h.1, ih (by simp) h.2]

theorem solidLines_intercalate (h : ∀ l ∈ ls, ∀ c ∈ l, isBreak c = false) :
    solidLines (['\n'].intercalate ls) = ls.filter fun l => !blank l := by
  by_cases hne : ls = []
  · subst hne
    rfl
  · rw [solidLines, lines_intercalate hne h]

theorem dropEmptyLines_intercalate {xs : List String}
    (h : ∀ x ∈ xs, ∀ c ∈ x.toList, isBreak c = false) :
    dropEmptyLines ("\n".intercalate xs) = "\n".intercalate (xs.filter (· ≠ "")) := by
  have hsplit : ((("\n".intercalate xs).toList.splitOn '\n').filter fun l => !l.isEmpty) =
      (xs.map String.toList).filter fun l => !l.isEmpty := by
    rw [String.toList_intercalate]
    by_cases hne : xs = []
    · subst hne
      rfl
    · congr 1
      refine List.splitOn_intercalate '\n' ?_ (by simpa using hne)
      intro l hl hmem
      obtain ⟨x, hx, rfl⟩ := List.mem_map.mp hl
      exact absurd (h x hx '\n' hmem) (by decide)
  rw [dropEmptyLines, hsplit, List.filter_map, List.map_map]
  congr 1
  rw [show String.ofList ∘ String.toList = id from funext fun _ => String.ofList_toList,
    List.map_id]
  apply List.filter_congr
  intro x _
  by_cases hx : x = "" <;> simp [hx]

end Text

/-! ## Fields in texts -/

namespace Field

def parseLines (text : String) : List Field :=
  (Text.solidLines text.toList).map fun l => parse (String.ofList l)

def writeLines (fs : List Field) : String :=
  "\n".intercalate (fs.map line)

theorem toList_writeLines (fs : List Field) :
    (writeLines fs).toList = ['\n'].intercalate (fs.map fun f => f.line.toList) := by
  rw [writeLines, String.toList_intercalate, List.map_map]
  rfl

def isVoid (f : Field) : Bool :=
  f.tag = "" && f.subfields.isEmpty

/-- A field that is read back from its own line, in which there is no break, and whose line
is blank only if the field is void. -/
structure HasLine (f : Field) : Prop where
  parse_line : parse f.line = f
  isBreak_line : ∀ c ∈ f.line.toList, Text.isBreak c = false
  blank_line : Text.blank f.line.toList = f.isVoid
  line_eq_empty_iff : f.line = "" ↔ f.isVoid = true

variable {label : List Char} {gs : List Payload.Group} {t o : String} {fs : List Field}

theorem concat_eq_nil_iff : Payload.concat gs = [] ↔ gs = [] := by
  cases gs <;> simp [Payload.concat]

theorem layout_eq_nil_iff {label payload : List Char} :
    layout label payload = [] ↔ label = [] ∧ payload = [] := by
  rw [layout]
  split
  · next h => simp [h]
  · simp

theorem isVoid_ofParts (hlabel : Tag.IsLabel label t o) (hraw : ∀ g ∈ gs, Payload.IsRaw g.2) :
    (ofParts label gs).isVoid = true ↔
      layout label (Payload.concat (Payload.valued gs)) = [] := by
  have htag : (ofParts label gs).tag = t := by
    rw [ofParts, tag_pushGroups, ofTag, hlabel.resolve]
  rw [isVoid, htag, subfields_ofParts label hraw, layout_eq_nil_iff, concat_eq_nil_iff]
  simp [hlabel.tag_eq_empty_iff, Payload.unescapeAll]

/-- What is laid out starts with a visible character. -/
theorem blank_layout (hlabel : Tag.IsLabel label t o) (gs : List Payload.Group) :
    Text.blank (layout label (Payload.concat gs)) = true ↔
      layout label (Payload.concat gs) = [] := by
  constructor
  · intro hblank
    rw [Text.blank, List.all_eq_true] at hblank
    rw [layout_eq_nil_iff, concat_eq_nil_iff]
    have hlabelNil : label = [] := by
      cases hcs : label with
      | nil => rfl
      | cons c cs =>
          have hc := hlabel.startsIn_isBlank
          rw [hcs, Text.startsIn_cons] at hc
          have hmem : c ∈ layout label (Payload.concat gs) := by
            rw [layout]
            split <;> simp [hcs]
          rw [hblank c hmem] at hc
          exact absurd hc (by simp)
    refine ⟨hlabelNil, ?_⟩
    cases gs with
    | nil => rfl
    | cons g gs =>
        have hdollar := hblank '$' (by simp [layout, hlabelNil, Payload.concat])
        exact absurd hdollar (by decide)
  · intro hnil
    rw [hnil]
    rfl

/-- A field that is read from a line without breaks has such a line too. -/
theorem hasLine_parse {line : String} (h : ∀ c ∈ line.toList, Text.isBreak c = false) :
    (parse line).HasLine := by
  obtain ⟨label, payload, gs, t, o, hlabel, hdiv, hparse, hmem⟩ := exists_parse_eq_ofParts line
  have hwritten := toList_line_ofParts hlabel hdiv
  have hvoid := isVoid_ofParts hlabel hdiv.isRaw_of_mem
  have hclear : ∀ c ∈ Payload.concat (Payload.valued gs), Text.isBreak c = false := by
    intro c hc
    have hpayload := Payload.mem_concat_of_mem_concat_valued hc
    rw [← hdiv.eq_concat] at hpayload
    exact h c (hmem c (by simp [hpayload]))
  rw [hparse]
  refine ⟨parse_line_ofParts hlabel hdiv (Text.endsIn_of_forall hclear), ?_, ?_, ?_⟩
  · intro c hc
    rw [hwritten] at hc
    rcases mem_of_mem_layout hc with rfl | hc | hc
    · decide
    · exact h c (hmem c (by simp [hc]))
    · exact hclear c hc
  · rw [hwritten, Bool.eq_iff_iff, blank_layout hlabel, hvoid]
  · rw [← String.toList_eq_nil_iff, hwritten, hvoid]

theorem hasLine_of_mem_parseLines {text : String} : ∀ f ∈ parseLines text, f.HasLine := by
  intro f hf
  obtain ⟨l, hl, rfl⟩ := List.mem_map.mp hf
  apply hasLine_parse
  rw [String.toList_ofList]
  exact Text.isBreak_of_mem_lines (List.mem_of_mem_filter hl)

/-- Fields that were read from lines are read back from their lines, the void ones
excepted. -/
theorem parseLines_writeLines (h : ∀ f ∈ fs, f.HasLine) :
    parseLines (writeLines fs) = fs.filter fun f => !f.isVoid := by
  have hbreak : ∀ l ∈ fs.map fun f => f.line.toList, ∀ c ∈ l, Text.isBreak c = false := by
    intro l hl
    obtain ⟨f, hf, rfl⟩ := List.mem_map.mp hl
    exact (h f hf).isBreak_line
  have hblank : (fs.filter fun f => !Text.blank f.line.toList) =
      fs.filter fun f => !f.isVoid :=
    List.filter_congr fun f hf => by rw [(h f hf).blank_line]
  have hread : ∀ f ∈ fs.filter fun f => !f.isVoid,
      parse (String.ofList f.line.toList) = f := by
    intro f hf
    rw [String.ofList_toList, (h f (List.mem_of_mem_filter hf)).parse_line]
  calc parseLines (writeLines fs)
      = ((fs.map fun f => f.line.toList).filter fun l => !Text.blank l).map
          fun l => parse (String.ofList l) := by
        rw [parseLines, toList_writeLines, Text.solidLines_intercalate hbreak]
    _ = (fs.filter fun f => !f.isVoid).map fun f => parse (String.ofList f.line.toList) := by
        simp only [List.filter_map, List.map_map, ← hblank, Function.comp_def]
    _ = fs.filter fun f => !f.isVoid := by
        rw [List.map_congr_left hread, List.map_id']

theorem writeLines_filter (h : ∀ f ∈ fs, f.HasLine) :
    writeLines (fs.filter fun f => !f.isVoid) = Text.dropEmptyLines (writeLines fs) := by
  have hbreak : ∀ x ∈ fs.map line, ∀ c ∈ x.toList, Text.isBreak c = false := by
    intro x hx
    obtain ⟨f, hf, rfl⟩ := List.mem_map.mp hx
    exact (h f hf).isBreak_line
  have hempty : (fs.filter fun f => !f.isVoid) = fs.filter fun f => decide (f.line ≠ "") := by
    apply List.filter_congr
    intro f hf
    rw [Bool.eq_iff_iff, decide_eq_true_eq, ne_eq, (h f hf).line_eq_empty_iff]
    simp
  rw [writeLines, writeLines, Text.dropEmptyLines_intercalate hbreak, List.filter_map, hempty]
  rfl

end Field

/-! ## Records in texts -/

namespace Store

variable {s : Store} {r : RecordRef} {fs : List Field}

structure Holds (s : Store) (r : RecordRef) (fs : List Field) : Prop where
  hasRecord : s.HasRecord r
  hasField : ∀ f ∈ (s.record r).fields, s.HasField f
  fieldsOf_eq : s.fieldsOf r = fs

def withNewEntry (s : Store) (r : RecordRef) (n : Option Note) (x : Field) : Store :=
  ((s.withNote? n).withNewField x).withEntry r s.nextField

def summary? (s : Store) (r : RecordRef) : Option Note :=
  if ((s.record r).lookup "").length ≠ 0 then
    some (.degraded (s.record r).fields.length ((s.record r).lookup "").length)
  else none

theorem textOf_eq_writeLines (s : Store) (r : RecordRef) :
    s.textOf r = Field.writeLines (s.fieldsOf r) := rfl

theorem Holds.withNote? (h : s.Holds r fs) (n : Option Note) : (s.withNote? n).Holds r fs :=
  ⟨h.hasRecord, h.hasField, h.fieldsOf_eq⟩

theorem Holds.withNewField (h : s.Holds r fs) (x : Field) : (s.withNewField x).Holds r fs where
  hasRecord := h.hasRecord
  hasField := by
    intro f hf
    exact (h.hasField f hf).withNewField x
  fieldsOf_eq := by
    have hfields : (s.withNewField x).record r = s.record r := rfl
    rw [← h.fieldsOf_eq, fieldsOf, fieldsOf, hfields]
    exact List.map_congr_left fun f hf => field_withNewField_of_hasField x (h.hasField f hf)

/-- An entry behind the fields of a record. -/
theorem Holds.withEntry (h : s.Holds r fs) {f : FieldRef} (hf : s.HasField f) :
    (s.withEntry r f).Holds r (fs ++ [s.field f]) where
  hasRecord := h.hasRecord.withEntry r f
  hasField := by
    have hfields := h.hasField
    rw [record_withEntry, if_pos ⟨rfl, h.hasRecord⟩, Record.fields_push]
    intro g hg
    rcases List.mem_append.mp hg with hg | hg
    · exact hfields g hg
    · rw [List.mem_singleton.mp hg]
      exact hf
  fieldsOf_eq := by
    rw [← h.fieldsOf_eq, fieldsOf, record_withEntry, if_pos ⟨rfl, h.hasRecord⟩,
      Record.fields_push, List.map_append]
    rfl

theorem field_withNewEntry (s : Store) (r : RecordRef) (n : Option Note) (x : Field) :
    (s.withNewEntry r n x).field s.nextField = x :=
  field_withNewField (s.withNote? n) x

theorem field_withNewEntry_of_hasField {f : FieldRef} (hf : s.HasField f) (n : Option Note)
    (x : Field) : (s.withNewEntry r n x).field f = s.field f :=
  field_withNewField_of_hasField (s := s.withNote? n) x hf

theorem record_withNewEntry (hr : s.HasRecord r) (n : Option Note) (x : Field) :
    (s.withNewEntry r n x).record r = (s.record r).push x.tag s.nextField := by
  have hnew : ((s.withNote? n).withNewField x).HasRecord r := hr
  rw [withNewEntry, record_withEntry, if_pos ⟨rfl, hnew⟩]
  exact congrArg (fun y => (s.record r).push y.tag s.nextField) (s.field_withNewEntry r n x)

theorem Holds.withNewEntry (h : s.Holds r fs) (n : Option Note) (x : Field) :
    (s.withNewEntry r n x).Holds r (fs ++ [x]) := by
  have hlast : ((s.withNote? n).withNewField x).HasField s.nextField :=
    (s.withNote? n).hasField_nextField x
  have hentry := ((h.withNote? n).withNewField x).withEntry hlast
  rwa [show ((s.withNote? n).withNewField x).field s.nextField = x from
    s.field_withNewEntry r n x] at hentry

theorem holds_withNewRecord (s : Store) : (s.withNewRecord []).Holds s.nextRecord [] where
  hasRecord := s.hasRecord_nextRecord []
  hasField := by simp [record_withNewRecord]
  fieldsOf_eq := by simp [fieldsOf, record_withNewRecord]

end Store

namespace Action

variable {s t : Store} {r : RecordRef} {fs : List Field}

/-- Appending a line always adds the field that it writes, and takes the note on the line. -/
theorem exec_appendLine (r : RecordRef) (line : String) (s : Store) :
    (appendLine r line).exec s =
      (.ok (), s.withNewEntry r (Note.ofLine? line) (Field.parse line)) := by
  rw [appendLine, exec_bind, exec_parseField]
  rfl

theorem exec_appendLines (h : s.Holds r fs) (ls : List (List Char)) :
    ∃ t, (ls.forM fun l => appendLine r (String.ofList l)).exec s = (.ok (), t) ∧
      t.Holds r (fs ++ ls.map fun l => Field.parse (String.ofList l)) := by
  induction ls generalizing s fs with
  | nil => exact ⟨s, rfl, by simpa using h⟩
  | cons l ls ih =>
      have hl := h.withNewEntry (Note.ofLine? (String.ofList l)) (Field.parse (String.ofList l))
      obtain ⟨t, hlines, ht⟩ := ih hl
      refine ⟨t, ?_, by simpa using ht⟩
      rw [List.forM_eq_forM, List.forM_cons, exec_bind, exec_appendLine]
      exact hlines

theorem exec_noteDegraded (r : RecordRef) (s : Store) :
    (noteDegraded r).exec s = (.ok (), s.withNote? (s.summary? r)) := by
  rw [noteDegraded, exec_bind, exec_record, Store.summary?]
  dsimp only
  split <;> rfl

/-- What reading a text comes to once its lines are in the new record. -/
theorem exec_readRecord_of_lines {text : String}
    (h : ((Text.solidLines text.toList).forM fun l =>
      appendLine s.nextRecord (String.ofList l)).exec (s.withNewRecord []) = (.ok (), t)) :
    (readRecord (.text text)).exec s =
      (.ok s.nextRecord, t.withNote? (t.summary? s.nextRecord)) := by
  rw [readRecord, parseRecord, exec_bind, exec_newRecord]
  dsimp only
  rw [exec_bind, h]
  dsimp only
  rw [exec_bind, exec_noteDegraded]
  rfl

/-- Reading a text always gives a record, with the fields that the lines of the text write. -/
theorem exec_readRecord (text : String) (s : Store) :
    ∃ t, (readRecord (.text text)).exec s = (.ok s.nextRecord, t) ∧
      t.Holds s.nextRecord (Field.parseLines text) := by
  obtain ⟨t, hlines, ht⟩ := exec_appendLines s.holds_withNewRecord (Text.solidLines text.toList)
  rw [List.nil_append] at ht
  exact ⟨_, exec_readRecord_of_lines hlines, ht.withNote? _⟩

/-- A record that was read from a text, `r`, survives being written and read: `q` has its
fields one by one, less the void ones, its text is that of `r` without the empty lines, and
a further round, to `p`, changes nothing. -/
theorem exec_readRecord_textOf (text : String) (s : Store) :
    ∃ r q p t u v, (readRecord (.text text)).exec s = (.ok r, t) ∧
      (readRecord (.text (t.textOf r))).exec t = (.ok q, u) ∧
      (readRecord (.text (u.textOf q))).exec u = (.ok p, v) ∧
      t.fieldsOf r = Field.parseLines text ∧
      u.fieldsOf q = (t.fieldsOf r).filter (fun f => ¬(f.tag = "" ∧ f.subfields = [])) ∧
      u.textOf q = Text.dropEmptyLines (t.textOf r) ∧
      v.fieldsOf p = u.fieldsOf q ∧ v.textOf p = u.textOf q := by
  obtain ⟨t, hr, ht⟩ := exec_readRecord text s
  obtain ⟨u, hq, hu⟩ := exec_readRecord (t.textOf s.nextRecord) t
  obtain ⟨v, hp, hv⟩ := exec_readRecord (u.textOf t.nextRecord) u
  have hlines : ∀ f ∈ Field.parseLines text, f.HasLine := Field.hasLine_of_mem_parseLines
  have hread : u.fieldsOf t.nextRecord =
      (Field.parseLines text).filter fun f => !f.isVoid := by
    rw [hu.fieldsOf_eq, Store.textOf_eq_writeLines, ht.fieldsOf_eq,
      Field.parseLines_writeLines hlines]
  have hagain : v.fieldsOf u.nextRecord = u.fieldsOf t.nextRecord := by
    have hrest : ∀ f ∈ u.fieldsOf t.nextRecord, f.HasLine := by
      rw [hu.fieldsOf_eq]
      exact Field.hasLine_of_mem_parseLines
    rw [hv.fieldsOf_eq, Store.textOf_eq_writeLines, Field.parseLines_writeLines hrest, hread,
      List.filter_filter]
    simp
  have hvoid : ∀ f : Field, (!f.isVoid) = decide ¬(f.tag = "" ∧ f.subfields = []) := by
    intro f
    rw [Bool.eq_iff_iff]
    simp [Field.isVoid]
  refine ⟨s.nextRecord, t.nextRecord, u.nextRecord, t, u, v, hr, hq, hp, ht.fieldsOf_eq, ?_, ?_,
    hagain, ?_⟩
  · rw [hread, ht.fieldsOf_eq, funext hvoid]
  · rw [Store.textOf_eq_writeLines, hread, Field.writeLines_filter hlines,
      Store.textOf_eq_writeLines, ht.fieldsOf_eq]
  · rw [Store.textOf_eq_writeLines, hagain, Store.textOf_eq_writeLines]

end Action

end Biblio
