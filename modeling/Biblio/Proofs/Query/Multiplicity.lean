import Biblio.Proofs.Query.Located
import Mathlib.Algebra.BigOperators.Group.List.Basic

/-!
# How often fields are found

A locator of fields neither loses nor invents a field: it finds a field as often as the record
has it, once for each of its alternatives that matches the field. So locating once more in what
was found changes nothing if no field is matched twice, although what was found is in the order
of the alternatives. If a field is matched twice, it does change something.
-/

namespace Biblio

open Biblio.Action

variable {s : Store}

namespace Store

variable {a : Alternative} {as : List Alternative} {fs : List FieldRef} {f : FieldRef}

def matchCount (s : Store) (as : List Alternative) (f : FieldRef) : Nat :=
  as.countP fun a => a.Matches (s.field f)

theorem matchCount_cons (s : Store) (a : Alternative) (as : List Alternative) (f : FieldRef) :
    s.matchCount (a :: as) f =
      s.matchCount as f + if a.Matches (s.field f) then 1 else 0 := by
  simp only [matchCount, List.countP_cons, decide_eq_true_eq]

theorem matchCount_pos_iff : 0 < s.matchCount as f ↔ ∃ a ∈ as, a.Matches (s.field f) := by
  simp only [matchCount, List.countP_pos_iff, decide_eq_true_eq]

theorem located_cons (s : Store) (a : Alternative) (as : List Alternative) (fs : List FieldRef) :
    s.located (a :: as) fs =
      (fs.filter fun f => a.Matches (s.field f)) ++ s.located as fs := rfl

/-! ## Counts -/

theorem count_filter_matches (s : Store) (a : Alternative) (fs : List FieldRef) (f : FieldRef) :
    (fs.filter fun f => a.Matches (s.field f)).count f =
      fs.count f * if a.Matches (s.field f) then 1 else 0 := by
  by_cases hf : a.Matches (s.field f)
  · rw [List.count_filter (by simpa using hf), if_pos hf, Nat.mul_one]
  · rw [if_neg hf, Nat.mul_zero, List.count_eq_zero]
    simp [hf]

/-- A field is located once by each alternative that matches it. -/
theorem count_located (s : Store) (as : List Alternative) (fs : List FieldRef) (f : FieldRef) :
    (s.located as fs).count f = fs.count f * s.matchCount as f := by
  induction as with
  | nil => rfl
  | cons a as ih =>
      rw [located_cons, List.count_append, ih, count_filter_matches, matchCount_cons, Nat.mul_add,
        Nat.add_comm]

theorem length_filter_matches (s : Store) (a : Alternative) (fs : List FieldRef) :
    (fs.filter fun f => a.Matches (s.field f)).length =
      (fs.map fun f => if a.Matches (s.field f) then 1 else 0).sum := by
  induction fs with
  | nil => rfl
  | cons f fs ih =>
      rw [List.filter_cons, List.map_cons, List.sum_cons, ← ih]
      by_cases hf : a.Matches (s.field f) <;> simp [hf, Nat.add_comm]

theorem length_located (s : Store) (as : List Alternative) (fs : List FieldRef) :
    (s.located as fs).length = (fs.map (s.matchCount as)).sum := by
  induction as with
  | nil =>
      rw [show s.matchCount [] = fun _ => 0 from rfl]
      simp [located]
  | cons a as ih =>
      rw [located_cons, List.length_append, ih, length_filter_matches, Nat.add_comm,
        ← List.sum_map_add, funext (s.matchCount_cons a as)]

/-! ## Locating once more -/

/-- Fields that an alternative matches, and no other one, are located as they are. -/
theorem located_eq_self (ha : a ∈ as) (hmatch : ∀ f ∈ fs, a.Matches (s.field f))
    (honce : ∀ f ∈ fs, s.matchCount as f ≤ 1) : s.located as fs = fs := by
  induction as with
  | nil => cases ha
  | cons b as ih =>
      rw [located_cons]
      have hsplit : ∀ f ∈ fs, s.matchCount as f + (if b.Matches (s.field f) then 1 else 0) ≤ 1 :=
        fun f hf => matchCount_cons s b as f ▸ honce f hf
      rcases List.mem_cons.mp ha with rfl | ha
      · -- The alternative comes first, and no later one matches anything.
        have hrest : s.located as fs = [] := by
          refine List.eq_nil_iff_forall_not_mem.mpr fun f hf => ?_
          obtain ⟨hf, hlater⟩ := mem_located.mp hf
          have hpos := matchCount_pos_iff.mpr hlater
          have hle := hsplit f hf
          rw [if_pos (hmatch f hf)] at hle
          omega
        rw [hrest, List.append_nil, List.filter_eq_self]
        exact fun f hf => decide_eq_true (hmatch f hf)
      · -- The alternative comes later, and this one matches nothing.
        have hnone : (fs.filter fun f => b.Matches (s.field f)) = [] := by
          refine List.filter_eq_nil_iff.mpr fun f hf hb => ?_
          have hpos := matchCount_pos_iff.mpr ⟨a, ha, hmatch f hf⟩
          have hle := hsplit f hf
          rw [if_pos (of_decide_eq_true hb)] at hle
          omega
        rw [hnone, List.nil_append]
        exact ih ha fun f hf => Nat.le_of_add_right_le (hsplit f hf)

theorem located_located (honce : ∀ f ∈ fs, s.matchCount as f ≤ 1) :
    s.located as (s.located as fs) = s.located as fs := by
  -- What an alternative matches among the located fields is what it matches among all of them.
  have hblock : ∀ a ∈ as, ((s.located as fs).filter fun f => a.Matches (s.field f)) =
      fs.filter fun f => a.Matches (s.field f) := by
    intro a ha
    rw [filter_located]
    refine located_eq_self ha (fun f hf => ?_) fun f hf => honce f (List.mem_of_mem_filter hf)
    exact of_decide_eq_true (List.mem_filter.mp hf).2
  rw [located, List.flatMap_congr hblock, ← located]

/-- If each of some fields is matched, and all together no more often than there are fields, each
of them is matched once. -/
theorem matchCount_le_one_of_sum_le (hpos : ∀ f ∈ fs, 0 < s.matchCount as f)
    (hsum : (fs.map (s.matchCount as)).sum ≤ fs.length) : ∀ f ∈ fs, s.matchCount as f ≤ 1 := by
  induction fs with
  | nil => simp
  | cons f fs ih =>
      rw [List.forall_mem_cons] at hpos
      have hlength := List.length_le_sum_of_one_le _ (List.forall_mem_map.mpr hpos.2)
      rw [List.length_map] at hlength
      rw [List.map_cons, List.sum_cons, List.length_cons] at hsum
      exact List.forall_mem_cons.mpr ⟨by omega, ih hpos.2 (by omega)⟩

/-- Locating once more keeps the number of fields only if no field is matched twice. -/
theorem matchCount_le_one_of_length_eq
    (h : (s.located as (s.located as fs)).length = (s.located as fs).length) :
    ∀ f ∈ fs, s.matchCount as f ≤ 1 := by
  rw [length_located] at h
  have hpos : ∀ f ∈ s.located as fs, 0 < s.matchCount as f := fun f hf =>
    matchCount_pos_iff.mpr (mem_located.mp hf).2
  intro f hf
  rcases Nat.eq_zero_or_pos (s.matchCount as f) with hzero | hmatched
  · omega
  · have hmem := mem_located.mpr ⟨hf, matchCount_pos_iff.mp hmatched⟩
    exact matchCount_le_one_of_sum_le hpos h.le f hmem

/-! ## All matches -/

/-- A locator of fields finds a field as often as the record has it, times the number of its
alternatives that match the field. Looking for all matches once more gives an equal record if,
and only if, no field of the record is matched by two alternatives. -/
theorem Reachable.count_all (h : s.Reachable) {r : RecordRef} (hr : s.HasRecord r) {p : Locator}
    (hp : p.wantField = true) :
    let all := Request.all (.locator p) .null
    ∃ fs, (all (.record r)).GivesRecordOf s fs ∧
      (∀ f, fs.count f = (s.record r).fields.count f *
        p.alternatives.countP fun a => a.Matches (s.field f)) ∧
      ((∀ f ∈ (s.record r).fields, p.alternatives.countP (fun a => a.Matches (s.field f)) ≤ 1) ↔
        (all (.record r) >>= all).GiveEqual s (all (.record r))) := by
  intro all
  have hs := h.isIndexed
  have hfs := hs.hasField r
  have honce : (all (.record r)).GivesRecordOf s (s.located p.alternatives (s.record r).fields) :=
    fun t hst => Request.gives_all_null hfs hst (List.Subset.refl _) hs
      (RecordRef.isRecordOf hr hst) hp
  have htwice : (all (.record r) >>= all).GivesRecordOf s
      (s.located p.alternatives (s.located p.alternatives (s.record r).fields)) :=
    AlwaysGives.bind honce fun v t hst hv =>
      Request.gives_all_null hfs hst (s.located_subset _ _) hs hv hp
  refine ⟨_, honce, fun f => count_located s _ _ f, fun hmatched => ?_, fun hequal => ?_⟩
  · rw [located_located hmatched] at htwice
    exact htwice.giveEqual honce
  · exact matchCount_le_one_of_length_eq (hequal.length_eq htwice honce)

def othersTwice : Locator :=
  { alternatives := [{ tag := "028C" }, { tag := "028C", occurrence := { mode := .some } }]
    wantField := true
    source := "028C|028C/xx" }

/-- The authors are found once each, and are found so again. A field that is matched twice is
found twice, and more often in what was found. -/
theorem count_all_people :
    people.Reachable ∧ people.HasRecord ⟨0⟩ ∧
      (Request.all (.locator authors) .null (.record ⟨0⟩) >>=
        Request.all (.locator authors) .null).GiveEqual people
          (Request.all (.locator authors) .null (.record ⟨0⟩)) ∧
      (∃ fs, (Request.all (.locator othersTwice) .null (.record ⟨0⟩)).GivesRecordOf people fs ∧
        fs.count ⟨0⟩ = 2) ∧
      ¬(Request.all (.locator othersTwice) .null (.record ⟨0⟩) >>=
        Request.all (.locator othersTwice) .null).GiveEqual people
          (Request.all (.locator othersTwice) .null (.record ⟨0⟩)) := by
  have hr : people.HasRecord ⟨0⟩ := by decide
  obtain ⟨-, -, -, hauthors⟩ := reachable_people.count_all hr (p := authors) rfl
  obtain ⟨fs, hgives, hcount, hothers⟩ := reachable_people.count_all hr (p := othersTwice) rfl
  refine ⟨reachable_people, hr, hauthors.mp (by decide), ⟨fs, hgives, ?_⟩, fun hequal => ?_⟩
  · rw [hcount]
    decide
  · exact absurd (hothers.mpr hequal) (by decide)

end Store

end Biblio
