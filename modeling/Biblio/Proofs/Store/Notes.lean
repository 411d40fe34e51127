import Biblio.Proofs.Line.Rejected
import Biblio.Proofs.Store.Lines

/-!
# The log of a record that is read

Reading a text takes one note for each of its lines that is rejected, in the order of the lines,
and at the end another one if there are fields without tag. Appending a line takes the note of
that line and no other, which makes the notes on lines an invariant of the loop over them. The
numbers in the note at the end come from the index of the record, which files its fields
meanwhile.
-/

namespace Biblio

/-! ## Entries of the log -/

namespace Text

theorem lines_eq_splitOnP (cs : List Char) : lines cs = cs.splitOnP isBreak := by
  induction cs with
  | nil => rfl
  | cons c cs ih =>
      rw [lines, List.splitOnP_cons_eq_if_modifyHead, ih]
      split
      · rfl
      · obtain ⟨l, ls, hls⟩ := List.exists_cons_of_ne_nil (lines_ne_nil cs)
        rw [← ih, hls]
        rfl

end Text

namespace Note

def entry (n : Note) : NoteLevel × String :=
  (n.level, n.message)

/-- The note on a line, in which there is no break, shows the message on the line. -/
theorem entry_ofLine? {l : List Char} (hl : ∀ c ∈ l, Text.isBreak c = false) :
    (ofLine? (String.ofList l)).map entry = (Field.complaint? l).map (NoteLevel.debug, ·) := by
  have hchop : Text.chop l = l := Text.dropEndWhile_eq_self (Text.endsIn_of_forall hl)
  rw [Field.complaint?_eq, Field.rejection?, ofLine?]
  cases Field.read (String.ofList l) with
  | ok f => rfl
  | error e =>
      rw [String.toList_ofList, hchop]
      cases e <;> rfl

end Note

namespace Store

variable {s t : Store} {r : RecordRef} {ls : List (List Char)}

def log (s : Store) : List (NoteLevel × String) :=
  s.notes.toList.map Note.entry

theorem log_withNote? (s : Store) (n : Option Note) :
    (s.withNote? n).log = s.log ++ (n.map Note.entry).toList := by
  cases n <;> simp [log, withNote?]

/-! ## Lines that are read into a record -/

structure HasRead (s t : Store) (r : RecordRef) (ls : List (List Char)) : Prop
    extends t.Holds r (ls.map fun l => Field.parse (String.ofList l)) where
  record_eq : t.record r = t.gather (t.record r).fields
  log_eq : t.log = s.log ++ (ls.filterMap Field.complaint?).map (NoteLevel.debug, ·)

theorem hasRead_withNewRecord (s : Store) :
    s.HasRead (s.withNewRecord []) s.nextRecord [] where
  toHolds := s.holds_withNewRecord
  record_eq := by simp [record_withNewRecord, gather]
  log_eq := by simp [log, withNewRecord]

namespace HasRead

variable (h : s.HasRead t r ls)
include h

theorem gather_withNewEntry (n : Option Note) (x : Field) :
    (t.withNewEntry r n x).gather (t.record r).fields = t.record r := by
  refine (gather_congr fun f hf => ?_).trans h.record_eq.symm
  rw [field_withNewEntry_of_hasField (h.hasField f hf)]

/-- A line leaves the message on it, if there is one, and no other. -/
theorem withLine {l : List Char} (hl : ∀ c ∈ l, Text.isBreak c = false) :
    s.HasRead (t.withNewEntry r (Note.ofLine? (String.ofList l)) (Field.parse (String.ofList l)))
      r (ls ++ [l]) where
  toHolds := by
    rw [List.map_append]
    exact h.toHolds.withNewEntry _ _
  record_eq := by
    rw [record_withNewEntry h.hasRecord, Record.fields_push, gather_concat,
      h.gather_withNewEntry, field_withNewEntry]
  log_eq := by
    change (t.withNote? (Note.ofLine? (String.ofList l))).log = _
    rw [log_withNote?, h.log_eq, Note.entry_ofLine? hl, List.filterMap_append,
      List.map_append, List.append_assoc]
    cases hl' : Field.complaint? l <;> simp [hl']

theorem length_lookup_eq_countP :
    ((t.record r).lookup "").length = (t.fieldsOf r).countP (·.tag = "") := by
  rw [h.record_eq, lookup_gather, fieldsOf, List.countP_map, List.countP_eq_length_filter]
  rfl

/-- The index gives as many fields without tag as there are lines with a message and lines
without label. -/
theorem length_lookup :
    ((t.record r).lookup "").length =
      (ls.filterMap Field.complaint?).length + ls.countP fun l => Field.IsUnlabeled l := by
  rw [h.length_lookup_eq_countP, h.fieldsOf_eq, Field.countP_parse_tag]

theorem length_fields : (t.record r).fields.length = ls.length := by
  have hlength := congrArg List.length h.fieldsOf_eq
  rwa [fieldsOf, List.length_map, List.length_map] at hlength

theorem length_lookup_ne_zero_iff :
    ((t.record r).lookup "").length ≠ 0 ↔ ∃ f ∈ t.fieldsOf r, f.tag = "" := by
  rw [h.length_lookup_eq_countP, ← Nat.pos_iff_ne_zero, List.countP_pos_iff]
  simp

/-- The note on the record counts the lines, and has the number that the index gives. -/
theorem entry_summary? :
    ((t.summary? r).map Note.entry).toList =
      if ∃ f ∈ t.fieldsOf r, f.tag = "" then
        [(.debug, "parsed record with " ++ toString ls.length ++ " fields, " ++
          toString ((t.record r).lookup "").length ++ " invalid")]
      else [] := by
  rw [summary?, ← h.length_fields]
  simp only [h.length_lookup_ne_zero_iff]
  split <;> rfl

end HasRead

end Store

namespace Action

variable {s t : Store} {r : RecordRef} {ls : List (List Char)}

/-- What one line leaves adds up over lines. -/
theorem exec_appendLines_hasRead (h : s.HasRead t r ls) {ks : List (List Char)}
    (hks : ∀ l ∈ ks, ∀ c ∈ l, Text.isBreak c = false) :
    ∃ u, (ks.forM fun l => appendLine r (String.ofList l)).exec t = (.ok (), u) ∧
      s.HasRead u r (ls ++ ks) := by
  induction ks generalizing t ls with
  | nil => exact ⟨t, rfl, by simpa using h⟩
  | cons l ks ih =>
      rw [List.forall_mem_cons] at hks
      obtain ⟨u, hlines, hu⟩ := ih (h.withLine hks.1) hks.2
      refine ⟨u, ?_, by simpa using hu⟩
      rw [List.forM_eq_forM, List.forM_cons, exec_bind, exec_appendLine]
      exact hlines

/-- Reading a text leaves the messages on the lines that are rejected, in their order, and behind
them, if a field has no tag, one message on the record. The lines that the reader of fields
rejects are those that are not of the grammar. The message on the record gives the number of
lines that are not blank and that of the fields without tag, which is the number of the messages
on lines and of the lines without label whose payload is of the grammar. -/
theorem exec_readRecord_log (text : String) (s : Store) :
    ∃ ls r t invalid,
      ls = (text.toList.splitOnP Text.isBreak).filter (fun l => !Text.blank l) ∧
      (readRecord (.text text)).exec s = (.ok r, t) ∧
      (r.fieldsByTag (.text "")).exec t = (.ok invalid, t) ∧
      t.log = s.log ++ (ls.filterMap Field.complaint?).map (NoteLevel.debug, ·) ++
        (if ∃ f ∈ t.fieldsOf r, f.tag = "" then
          [(.debug, "parsed record with " ++ toString ls.length ++ " fields, " ++
            toString invalid.length ++ " invalid")]
        else []) ∧
      (∀ l ∈ ls, ∀ e, Field.read (String.ofList l) = .error e ↔ Field.IsRejected l e) ∧
      invalid.length = (ls.filterMap Field.complaint?).length +
        ls.countP fun l => Field.IsUnlabeled l := by
  have hbreak : ∀ l ∈ Text.solidLines text.toList, ∀ c ∈ l, Text.isBreak c = false :=
    fun l hl => Text.isBreak_of_mem_lines (List.mem_of_mem_filter hl)
  obtain ⟨t, hlines, ht⟩ := exec_appendLines_hasRead s.hasRead_withNewRecord hbreak
  rw [List.nil_append] at ht
  refine ⟨Text.solidLines text.toList, s.nextRecord, t.withNote? (t.summary? s.nextRecord),
    (t.record s.nextRecord).lookup "", ?_, exec_readRecord_of_lines hlines, rfl, ?_, ?_,
    ht.length_lookup⟩
  · rw [Text.solidLines, Text.lines_eq_splitOnP]
  · rw [Store.log_withNote?, ht.log_eq, ht.entry_summary?]
    rfl
  · intro l _ e
    rw [Field.read_eq_error_iff, String.toList_ofList]

/-- A line with both parts wrong has one message, a blank line and one without label have none. -/
example : ((readRecord (.text "003 $\n \n003@ $\n$a\n003@ $0x")).exec {}).2.log =
    [(.debug, "invalid tag in line '003 $'"), (.debug, "invalid subfield data in line '003@ $'"),
      (.debug, "parsed record with 4 fields, 3 invalid")] := by
  decide +kernel

end Action

end Biblio
