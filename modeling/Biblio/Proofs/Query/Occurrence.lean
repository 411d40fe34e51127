import Biblio.Proofs.Line.Reread
import Biblio.Proofs.Query.Count
import Biblio.Proofs.Query.Located
import Mathlib.Algebra.BigOperators.Group.Finset.Basic
import Mathlib.Data.Finset.NAry

/-!
# Fields of a tag by occurrence

Of the fields of a tag a locator takes all, those without occurrence, those with one, or those
with a certain one. The occurrences of a record that is read from a text are pairs of digits,
whatever the text is, and each pair of digits can stand in a locator. So the fields of a tag
fall apart into those without occurrence and one class for each pair of digits.
-/

namespace Biblio

open Biblio.Action

variable {s t : Store}

/-! ## Pairs of digits -/

namespace Tag

def digits : Finset Char :=
  (Finset.range 10).image fun n => Char.ofNat (48 + n)

theorem mem_digits_iff {c : Char} : c ∈ digits ↔ isDigit c = true := by
  rw [digits, Finset.mem_image]
  constructor
  · rintro ⟨n, hn, rfl⟩
    revert n
    decide
  · intro h
    have hc : 48 ≤ c.toNat ∧ c.toNat ≤ 57 := by
      simpa [isDigit, Char.le_def, UInt32.le_iff_toNat_le] using h
    refine ⟨c.toNat - 48, Finset.mem_range.mpr (by omega), ?_⟩
    rw [Nat.add_sub_cancel' hc.1, Char.ofNat_toNat]

def occurrences : Finset String :=
  Finset.image₂ (fun a b => String.ofList [a, b]) digits digits

theorem mem_occurrences_iff {o : String} : o ∈ occurrences ↔ isOccurrence o.toList = true := by
  rw [occurrences, Finset.mem_image₂, isOccurrence_iff]
  constructor
  · rintro ⟨a, ha, b, hb, rfl⟩
    exact ⟨a, b, String.toList_ofList, mem_digits_iff.mp ha, mem_digits_iff.mp hb⟩
  · rintro ⟨a, b, ho, ha, hb⟩
    refine ⟨a, mem_digits_iff.mpr ha, b, mem_digits_iff.mpr hb, ?_⟩
    rw [← ho, String.ofList_toList]

end Tag

/-! ## Locators of one tag -/

namespace Locator

variable {tag : String} {m : OccurrenceMatcher}

/-- The locator of the fields with a tag and an occurrence under a condition. -/
def ofTag (tag : String) (m : OccurrenceMatcher) : Locator :=
  { alternatives := [{ tag, occurrence := m }], wantField := true, source := tag ++ m.write }

theorem parse_ofTag (htag : Tag.isTag tag.toList = true) (hm : m.WellFormed) :
    parse (tag ++ m.write) = .ok (ofTag tag m) := by
  have hform : ({ ofTag tag m with source := "" } : Locator).WellFormed :=
    { ne_nil := by simp [ofTag]
      alternatives := by simpa [ofTag] using ⟨htag, hm, by simp⟩
      fields := by simp [ofTag]
      values := by simp [ofTag]
      cardinality := ⟨none, rfl⟩ }
  have hwrite : ({ ofTag tag m with source := "" } : Locator).writePlan = tag ++ m.write := by
    simp [writePlan, ofTag, Alternative.write]
  have hparse := hform.parse_writePlan
  rw [hwrite] at hparse
  exact hparse

end Locator

namespace Request

/-- A locator that is given as a text. -/
theorem exec_all_text {x : String} {p : Locator} (hp : Locator.parse x = .ok p) (filters : Arg)
    (r : RecordRef) (s : Store) :
    (all (.text x) filters (.record r)).exec s =
      (all (.locator p) filters (.record r)).exec s := by
  have hplan : Arg.toLocator (.text x) .null = pure p := Arg.toLocator_of_parse hp
  rw [exec_all_record, RecordRef.all_text, hplan, pure_bind]
  rfl

end Request

/-! ## Classes of occurrences -/

namespace Store

/-- Whether fields fall apart into some without occurrence and some with one, and the latter
into classes, one for each occurrence. -/
structure FallApart (s : Store) (every without given : List FieldRef)
    (exactly : String → List FieldRef) : Prop where
  without_sublist : without.Sublist every
  given_sublist : given.Sublist every
  mem_without_iff : ∀ f ∈ every, (f ∈ without ↔ f ∉ given)
  occurrence_mem : ∀ f ∈ given, (s.field f).occurrence ∈ Tag.occurrences
  mem_exact_iff : ∀ f ∈ given, ∀ o ∈ Tag.occurrences, (f ∈ exactly o ↔ o = (s.field f).occurrence)
  length_eq : every.length = without.length + ∑ o ∈ Tag.occurrences, (exactly o).length

variable {every : List FieldRef}

/-- The fields with a certain occurrence are counted among those that have one. -/
theorem length_filter_eq_count {o : String} (ho : o ≠ "") (every : List FieldRef) :
    (every.filter fun f => (s.field f).occurrence == o).length =
      ((every.filter fun f => (s.field f).occurrence != "").map fun f =>
        (s.field f).occurrence).count o := by
  rw [List.count, List.countP_map, List.countP_filter, List.countP_eq_length_filter]
  congr 1
  apply List.filter_congr
  intro f _
  by_cases hf : (s.field f).occurrence = o <;> simp [hf, ho]

/-- The fields with an occurrence are as many as those of all classes together. -/
theorem length_filter_occurrence
    (h : ∀ f ∈ every, (s.field f).occurrence = "" ∨ (s.field f).occurrence ∈ Tag.occurrences) :
    (every.filter fun f => (s.field f).occurrence != "").length =
      ∑ o ∈ Tag.occurrences, (every.filter fun f => (s.field f).occurrence == o).length := by
  have hne : ∀ o ∈ Tag.occurrences, o ≠ "" := by
    rintro _ ho rfl
    exact absurd (Tag.mem_occurrences_iff.mp ho) (by decide)
  have hmem : ∀ o ∈ (((every.filter fun f => (s.field f).occurrence != "").map fun f =>
      (s.field f).occurrence : List String) : Multiset String), o ∈ Tag.occurrences := by
    intro o ho
    obtain ⟨f, hf, rfl⟩ := List.mem_map.mp (Multiset.mem_coe.mp ho)
    obtain ⟨hf, hgiven⟩ := List.mem_filter.mp hf
    exact (h f hf).resolve_left (bne_iff_ne.mp hgiven)
  have hcard := Multiset.sum_count_eq_card hmem
  simp only [Multiset.coe_count, Multiset.coe_card, List.length_map] at hcard
  rw [← hcard]
  exact Finset.sum_congr rfl fun o ho => (length_filter_eq_count (hne o ho) every).symm

theorem fallApart
    (h : ∀ f ∈ every, (s.field f).occurrence = "" ∨ (s.field f).occurrence ∈ Tag.occurrences) :
    s.FallApart every (every.filter fun f => (s.field f).occurrence == "")
      (every.filter fun f => (s.field f).occurrence != "")
      fun o => every.filter fun f => (s.field f).occurrence == o where
  without_sublist := List.filter_sublist
  given_sublist := List.filter_sublist
  mem_without_iff := by
    intro f hf
    simp [hf]
  occurrence_mem := by
    intro f hf
    obtain ⟨hf, hne⟩ := List.mem_filter.mp hf
    exact (h f hf).resolve_left (bne_iff_ne.mp hne)
  mem_exact_iff := by
    intro f hf o _
    rw [List.mem_filter, and_iff_right (List.mem_of_mem_filter hf), beq_iff_eq, eq_comm]
  length_eq := by
    rw [← length_filter_occurrence h]
    exact List.length_eq_length_filter_add _

/-! ## Records that are read -/

theorem located_ofTag (s : Store) (r : RecordRef) (tag : String) (m : OccurrenceMatcher) :
    s.located (Locator.ofTag tag m).alternatives (s.record r).fields =
      (s.tagged r tag).filter fun f => m.accepts (s.field f).occurrence := by
  rw [Locator.ofTag, located, List.flatMap_singleton, tagged, List.filter_filter]
  apply List.filter_congr
  intro f _
  rw [Bool.eq_iff_iff, decide_eq_true_eq, Bool.and_eq_true, m.accepts_iff, beq_iff_eq,
    Alternative.Matches, and_comm]

/-- A field of a record that is read has no occurrence or a pair of digits. -/
theorem Holds.occurrence_mem {r : RecordRef} {text : String}
    (h : s.Holds r (Field.parseLines text)) {f : FieldRef} (hf : f ∈ (s.record r).fields) :
    (s.field f).occurrence = "" ∨ (s.field f).occurrence ∈ Tag.occurrences := by
  have hmem : s.field f ∈ Field.parseLines text := by
    rw [← h.fieldsOf_eq]
    exact List.mem_map_of_mem hf
  obtain ⟨l, -, hl⟩ := List.mem_map.mp hmem
  rw [← hl, Tag.mem_occurrences_iff]
  exact (Field.wellFormed_parse _).occurrence.imp_right And.left

/-- The fields of a tag under a condition on the occurrence. -/
theorem IsIndexed.givesRecordOf_ofTag (hs : s.IsIndexed) {r : RecordRef} (hr : s.HasRecord r)
    {tag : String} (htag : Tag.isTag tag.toList = true) {m : OccurrenceMatcher}
    (hm : m.WellFormed) :
    (Request.all (.text (tag ++ m.write)) .null (.record r)).GivesRecordOf s
      ((s.tagged r tag).filter fun f => m.accepts (s.field f).occurrence) := by
  intro t hst
  have hall := Request.gives_all_null (l := Locator.ofTag tag m) (hs.hasField r) hst
    (List.Subset.refl _) hs (RecordRef.isRecordOf hr hst) rfl
  rw [located_ofTag] at hall
  rw [Gives, Request.exec_all_text (Locator.parse_ofTag htag hm)]
  exact hall

theorem IsIndexed.givesRecordOf_tag (hs : s.IsIndexed) {r : RecordRef} (hr : s.HasRecord r)
    {tag : String} (htag : Tag.isTag tag.toList = true) :
    (Request.all (.text tag) .null (.record r)).GivesRecordOf s (s.tagged r tag) := by
  have hall := hs.givesRecordOf_ofTag hr htag (m := {}) rfl
  have hwrite : tag ++ ({} : OccurrenceMatcher).write = tag := String.append_empty
  have haccepts : (fun f => ({} : OccurrenceMatcher).accepts (s.field f).occurrence) =
      fun _ => true := rfl
  rwa [hwrite, haccepts, List.filter_true] at hall

/-- Occurrences divide the fields of a tag. Whatever text a record is read from, each field of a
tag is found either without occurrence or with one, and the latter under the one pair of digits
that is its occurrence; so the numbers of fields found add up. -/
theorem Reachable.occurrences_divide (h : s.Reachable) (text : String) :
    ∃ r t, (readRecord (.text text)).exec s = (.ok r, t) ∧
      ∀ tag : String, Tag.isTag tag.toList = true →
        let all := fun locator : String => Request.all (.text locator) .null (.record r)
        ∃ every without given exactly,
          (all tag).GivesRecordOf t every ∧ (all (tag ++ "/")).GivesRecordOf t without ∧
          (all (tag ++ "/xx")).GivesRecordOf t given ∧
          (∀ o ∈ Tag.occurrences, (all (tag ++ "/" ++ o)).GivesRecordOf t (exactly o)) ∧
          t.FallApart every without given exactly := by
  obtain ⟨r, t, hrun, ht, hfiles⟩ := reads_parseLines text s h.isIndexed
  refine ⟨r, t, hrun, fun tag htag => ?_⟩
  have hr := hfiles.hasRecord
  refine ⟨_, _, _, _, ht.givesRecordOf_tag hr htag,
    ht.givesRecordOf_ofTag hr htag (m := { mode := .none }) rfl,
    ht.givesRecordOf_ofTag hr htag (m := { mode := .some }) rfl, fun o ho => ?_,
    fallApart fun f hf => hfiles.toHolds.occurrence_mem (List.mem_of_mem_filter hf)⟩
  rw [String.append_assoc]
  exact ht.givesRecordOf_ofTag hr htag (m := { mode := .exact, value := o })
    (Tag.mem_occurrences_iff.mp ho)

/-- Between the fields of the tag stands a line that writes no field. -/
theorem occurrences_divide_damaged :
    Tag.isTag "028C".toList = true ∧
      ∃ r t every without given exactly,
        (readRecord (.text "028C/01 $aA\n?\n028C $aB")).exec {} = (.ok r, t) ∧
        (Request.all (.text "028C") .null (.record r)).GivesRecordOf t every ∧
        (Request.all (.text "028C/01") .null (.record r)).GivesRecordOf t (exactly "01") ∧
        t.FallApart every without given exactly := by
  obtain ⟨r, t, hread, hdivide⟩ := Reachable.empty.occurrences_divide "028C/01 $aA\n?\n028C $aB"
  obtain ⟨every, without, given, exactly, hevery, -, -, hexact, hclasses⟩ :=
    hdivide "028C" (by decide)
  exact ⟨by decide, r, t, every, without, given, exactly, hread, hevery,
    hexact "01" (Tag.mem_occurrences_iff.mpr (by decide)), hclasses⟩

end Store

end Biblio
