import Biblio.Proofs.Line.Write
import Biblio.Proofs.Store.Frame
import Biblio.Proofs.Store.Lines

/-!
# Records of joined texts

Two texts that are joined by breaks, however many and whichever, are read as they are read
on their own, one behind the other. So a line is read in the same way whatever stands
around it, and it does not matter how lines are separated. Reading a text is the same as
appending its lines to an empty record.
-/

namespace Biblio

/-! ## Runs of breaks -/

namespace Text

def IsBreakRun (text : String) : Prop :=
  text ≠ "" ∧ ∀ c ∈ text.toList, isBreak c = true

instance (text : String) : Decidable (IsBreakRun text) :=
  decidable_of_iff (text ≠ "" ∧ text.toList.all isBreak = true) (by simp [IsBreakRun])

def IsLine (text : String) : Prop :=
  ∀ c ∈ text.toList, isBreak c = false

instance (text : String) : Decidable (IsLine text) :=
  decidable_of_iff ((text.toList.all fun c => !isBreak c) = true) (by simp [IsLine])

theorem solidLines_append_break {c : Char} (hc : isBreak c = true) (cs ds : List Char) :
    solidLines (cs ++ c :: ds) = solidLines cs ++ solidLines ds := by
  rw [solidLines, lines_append_break hc, List.filter_append]
  rfl

/-- Breaks in front of a text leave blank lines only. -/
theorem solidLines_breaks_append {ns : List Char} (hns : ∀ c ∈ ns, isBreak c = true)
    (ds : List Char) : solidLines (ns ++ ds) = solidLines ds := by
  induction ns with
  | nil => rfl
  | cons c ns ih =>
      rw [List.forall_mem_cons] at hns
      rw [← ih hns.2]
      exact solidLines_append_break hns.1 [] (ns ++ ds)

/-- Two texts that are joined by breaks have the lines of the one and of the other. -/
theorem solidLines_join {n : String} (hn : IsBreakRun n) (cs ds : List Char) :
    solidLines (cs ++ n.toList ++ ds) = solidLines cs ++ solidLines ds := by
  obtain ⟨hne, hbreaks⟩ := hn
  cases hns : n.toList with
  | nil => exact absurd (String.toList_eq_nil_iff.mp hns) hne
  | cons c ns =>
      rw [hns, List.forall_mem_cons] at hbreaks
      rw [List.append_assoc, List.cons_append, solidLines_append_break hbreaks.1,
        solidLines_breaks_append hbreaks.2]

end Text

namespace Field

def ofLine? (line : String) : Option Field :=
  if Text.blank line.toList then none else some (parse line)

theorem parseLines_join {n : String} (hn : Text.IsBreakRun n) (a b : String) :
    parseLines (a ++ n ++ b) = parseLines a ++ parseLines b := by
  rw [parseLines, String.toList_append, String.toList_append, Text.solidLines_join hn,
    List.map_append]
  rfl

theorem parseLines_line {l : String} (hl : Text.IsLine l) :
    parseLines l = (ofLine? l).toList := by
  rw [parseLines, Text.solidLines, Text.lines_eq_singleton hl, ofLine?]
  cases h : Text.blank l.toList <;> simp [h]

end Field

/-! ## Records and their fields -/

namespace Store

variable {s t : Store} {r : RecordRef} {fs : List Field}

structure Files (s : Store) (r : RecordRef) (fs : List Field) : Prop extends s.Holds r fs where
  tags_eq : (s.record r).tags = ((fs.map Field.tag).filter (· ≠ "")).eraseDups
  lookup_eq : ∀ tag : String,
    ((s.record r).lookup tag).map s.field = fs.filter fun x => x.tag == tag

theorem IsIndexed.files (hs : s.IsIndexed) (h : s.Holds r fs) : s.Files r fs where
  toHolds := h
  tags_eq := by
    rw [hs.tags_eq, fieldTags, ← h.fieldsOf_eq, fieldsOf, List.map_map]
    rfl
  lookup_eq := by
    intro tag
    rw [hs.lookup_eq, ← h.fieldsOf_eq, fieldsOf, List.filter_map]
    rfl

/-- A record that stays as it is with its fields has the same fields afterwards. -/
theorem Holds.sameOn {R : RecordRef → Prop} (h : s.Holds r fs) (hR : R r)
    (hst : SameOn (fun _ => True) R s t) : t.Holds r fs := by
  obtain ⟨hrecord, heq⟩ := hst.record r hR h.hasRecord
  have hfields : ∀ f ∈ (s.record r).fields, t.HasField f ∧ t.field f = s.field f :=
    fun f hf => hst.field f trivial (h.hasField f hf)
  refine ⟨hrecord, ?_, ?_⟩
  · rw [heq]
    exact fun f hf => (hfields f hf).1
  · rw [← h.fieldsOf_eq, fieldsOf, fieldsOf, heq]
    exact List.map_congr_left fun f hf => (hfields f hf).2

theorem sameRecord_of_fieldsOf_eq {q : RecordRef} (h : s.fieldsOf r = s.fieldsOf q) :
    s.sameRecord r q = true := by
  have hself : ∀ x : Field, x.same x = true := fun x => (Field.same_iff x x).mpr ⟨rfl, rfl, rfl⟩
  have hall : ∀ xs : List Field, ((xs.zip xs).all fun p => p.1.same p.2) = true := by
    intro xs
    induction xs with
    | nil => rfl
    | cons x xs ih => rw [List.zip_cons_cons, List.all_cons, hself, ih, Bool.and_self]
  rw [sameRecord, h]
  simpa using hall (s.fieldsOf q)

end Store

/-! ## Reading -/

namespace Action

variable {s t : Store}

/-- Whether reading a text gives, in every store whose records are indexed, a record of
certain fields. -/
def Reads (text : String) (fs : List Field) : Prop :=
  ∀ s : Store, s.IsIndexed → ∃ r t, (readRecord (.text text)).exec s = (.ok r, t) ∧
    t.IsIndexed ∧ t.Files r fs

theorem reads_parseLines (text : String) : Reads text (Field.parseLines text) := by
  intro s hs
  obtain ⟨t, hrun, ht⟩ := exec_readRecord text s
  have hsteps : (readRecord (.text text)).Steps True s := steps_readRecord trivial _
  obtain ⟨hst, -⟩ := hsteps.of_exec_eq_ok hs hrun
  exact ⟨_, t, hrun, hs.mono hst, (hs.mono hst).files ht⟩

/-- What reading a text gives is determined by the text. -/
theorem reads_iff_eq_parseLines {text : String} {fs : List Field} :
    Reads text fs ↔ fs = Field.parseLines text := by
  constructor
  · intro h
    obtain ⟨r, t, hrun, -, hr⟩ := h {} Store.isIndexed_empty
    obtain ⟨q, u, hrun', -, hq⟩ := reads_parseLines text {} Store.isIndexed_empty
    obtain ⟨hvalue, rfl⟩ := Prod.mk.inj (hrun.symm.trans hrun')
    obtain rfl := Except.ok.inj hvalue
    rw [← hr.fieldsOf_eq, hq.fieldsOf_eq]
  · rintro rfl
    exact reads_parseLines text

def appendLines (r : RecordRef) (ls : List (List Char)) : Action Unit :=
  ls.forM fun l => r.append (.text (String.ofList l))

theorem spares_appendLines (r : RecordRef) (ls : List (List Char)) :
    (appendLines r ls).Spares (fun _ => True) (· ≠ r) := by
  induction ls with
  | nil => exact spares_pure _
  | cons l ls ih => exact (r.spares_append _).bind fun _ => ih

/-- The empty record, after the lines of a text have been appended to it, is equal to the record
that is read from the text and files its fields in the same way. -/
theorem exec_appendLines_eq_readRecord (hs : s.IsIndexed) (text : String) :
    ∃ r q t u v, (readRecord (.text text)).exec s = (.ok r, t) ∧
      (createRecord .null).exec t = (.ok q, u) ∧
      (appendLines q (Text.solidLines text.toList)).exec u = (.ok (), v) ∧
      v.sameRecord r q = true ∧ v.Files r (Field.parseLines text) ∧
      v.Files q (Field.parseLines text) := by
  obtain ⟨r, t, hrun, ht, hr⟩ := reads_parseLines text s hs
  obtain ⟨v, happend, hq⟩ := exec_appendLines t.holds_withNewRecord (Text.solidLines text.toList)
  have hnew : t.Leads False (t.withNewRecord []) := .single (.newRecord (by simp))
  have hsteps : (appendLines t.nextRecord (Text.solidLines text.toList)).Steps True
      (t.withNewRecord []) :=
    runs_forM fun l _ u _ => t.nextRecord.steps_append trivial
      (show Arg.IsIn True u (.text (String.ofList l)) from trivial)
  have hv : v.IsIndexed := (ht.mono hnew).mono (hsteps.of_exec_eq_ok (ht.mono hnew) happend).1
  have hne : r ≠ t.nextRecord := by
    rintro rfl
    exact Nat.lt_irrefl _ hr.hasRecord
  have hspared := spares_appendLines t.nextRecord (Text.solidLines text.toList)
    (t.withNewRecord [])
  rw [show (appendLines t.nextRecord _).exec _ = _ from happend] at hspared
  have hrv := (hr.toHolds.sameOn trivial hnew.same).sameOn hne hspared
  refine ⟨r, t.nextRecord, t, _, v, hrun, rfl, happend, ?_, hv.files hrv, hv.files hq⟩
  apply Store.sameRecord_of_fieldsOf_eq
  rw [hrv.fieldsOf_eq, hq.fieldsOf_eq]
  rfl

/-- Every text is read, and which fields it gives is told line by line: what is joined by breaks
gives the fields of the one part and then those of the other, whichever breaks they are; a line
gives the field that it writes, or none if it is blank, whatever is read around it; and reading
a text is the same as appending its lines to the empty record. -/
theorem reads_join :
    (∀ text, ∃ fs, Reads text fs) ∧
      (∀ a b n fs gs, Text.IsBreakRun n → Reads a fs → Reads b gs →
        Reads (a ++ n ++ b) (fs ++ gs)) ∧
      (∀ a b n m fs, Text.IsBreakRun n → Text.IsBreakRun m → Reads (a ++ n ++ b) fs →
        Reads (a ++ m ++ b) fs) ∧
      (∀ l, Text.IsLine l → Reads l (Field.ofLine? l).toList) ∧
      (∀ a l b n m fs gs, Text.IsBreakRun n → Text.IsLine l → Text.IsBreakRun m → Reads a fs →
        Reads b gs → Reads (a ++ n ++ l ++ m ++ b) (fs ++ (Field.ofLine? l).toList ++ gs)) ∧
      ∀ (text : String) (s : Store), s.IsIndexed →
        ∃ fs r q t u v, (readRecord (.text text)).exec s = (.ok r, t) ∧
          (createRecord .null).exec t = (.ok q, u) ∧
          (appendLines q (Text.solidLines text.toList)).exec u = (.ok (), v) ∧
          v.sameRecord r q = true ∧ v.Files r fs ∧ v.Files q fs := by
  simp only [reads_iff_eq_parseLines]
  refine ⟨fun text => ⟨_, rfl⟩, ?_, ?_, fun l hl => (Field.parseLines_line hl).symm, ?_, ?_⟩
  · rintro a b n _ _ hn rfl rfl
    rw [Field.parseLines_join hn]
  · rintro a b n m _ hn hm rfl
    rw [Field.parseLines_join hn, Field.parseLines_join hm]
  · rintro a l b n m _ _ hn hl hm rfl rfl
    rw [Field.parseLines_join hm, Field.parseLines_join hn, Field.parseLines_line hl]
  · intro text s hs
    exact ⟨_, exec_appendLines_eq_readRecord hs text⟩

/-- A line that no field is written by stands between two that are well formed. -/
theorem reads_join_spoiled :
    Text.IsBreakRun "\r\n\n" ∧ Text.IsLine "?" ∧
      Reads ("003@ $0x" ++ "\r\n\n" ++ "?" ++ "\n" ++ "021A $ay")
        [Field.parse "003@ $0x", Field.parse "?", Field.parse "021A $ay"] := by
  obtain ⟨-, -, -, hline, hbetween, -⟩ := reads_join
  have hfirst := hline "003@ $0x" (by decide)
  have hlast := hline "021A $ay" (by decide)
  exact ⟨by decide, by decide,
    hbetween _ "?" _ "\r\n\n" "\n" _ _ (by decide) (by decide) (by decide) hfirst hlast⟩

end Action

end Biblio
