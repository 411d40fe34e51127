import Biblio.Proofs.Store.Reachable
import Mathlib.Algebra.GroupWithZero.Nat

/-!
# The index of a record

The index of a record by tag against a scan of its fields: each bucket has the fields with
its tag, in their order and as often as the record has them, and the tags come in the
order of their first appearance. The tags of fields never change, so that this holds after
every history.
-/

namespace Biblio

/-! ## Distinct elements -/

theorem eraseDups_concat {α : Type} [DecidableEq α] (xs : List α) (x : α) :
    (xs ++ [x]).eraseDups = if x ∈ xs then xs.eraseDups else xs.eraseDups ++ [x] := by
  rw [List.eraseDups_append]
  by_cases h : x ∈ xs <;> simp [List.removeAll, List.eraseDups_cons, h]

theorem eraseDups_filter {α : Type} [BEq α] [LawfulBEq α] (p : α → Bool) :
    ∀ xs : List α, (xs.filter p).eraseDups = xs.eraseDups.filter p
  | [] => by simp
  | x :: xs => by
    -- All copies of the head are dropped at once, so that the induction is on the length.
    have ih := eraseDups_filter p (xs.filter fun y => !y == x)
    rw [List.eraseDups_cons, List.filter_cons, List.filter_cons]
    by_cases hx : p x = true
    · rw [if_pos hx, if_pos hx, List.eraseDups_cons, ← ih, List.filter_filter,
        List.filter_filter]
      simp only [Bool.and_comm]
    · rw [if_neg hx, if_neg hx, ← ih, List.filter_filter]
      congr 1
      apply List.filter_congr
      intro y _
      by_cases hy : y = x
      · subst hy
        simp [hx]
      · simp [hy]
termination_by xs => xs.length
decreasing_by
  exact Nat.lt_succ_of_le (List.length_filter_le _ _)

/-- Each element is one of the occurrences of a distinct one. -/
theorem sum_count_eraseDups {α : Type} [BEq α] [LawfulBEq α] :
    ∀ xs : List α, (xs.eraseDups.map xs.count).sum = xs.length
  | [] => rfl
  | x :: xs => by
    have ih := sum_count_eraseDups (xs.filter fun y => !y == x)
    have hcount : ∀ y ∈ (xs.filter fun y => !y == x).eraseDups,
        (x :: xs).count y = (xs.filter fun y => !y == x).count y := by
      intro y hy
      rw [List.mem_eraseDups, List.mem_filter] at hy
      have hyx : x ≠ y := by
        rintro rfl
        simp at hy
      rw [List.count_cons_of_ne hyx, List.count_filter (p := fun z => !z == x) hy.2]
    have hsplit : xs.count x + (xs.filter fun y => !y == x).length = xs.length := by
      rw [List.count, List.countP_eq_length_filter, ← List.length_eq_length_filter_add]
    rw [List.eraseDups_cons, List.map_cons, List.sum_cons, List.map_congr_left hcount, ih,
      List.count_cons_self, List.length_cons]
    omega
termination_by xs => xs.length
decreasing_by
  exact Nat.lt_succ_of_le (List.length_filter_le _ _)

namespace Store

variable {s : Store}

def fieldTags (s : Store) (r : RecordRef) : List String :=
  (s.record r).fields.map fun f => (s.field f).tag

def tagged (s : Store) (r : RecordRef) (tag : String) : List FieldRef :=
  (s.record r).fields.filter fun f => (s.field f).tag == tag

theorem keys_gather (s : Store) (fs : List FieldRef) :
    (s.gather fs).index.keys = (fs.map fun f => (s.field f).tag).eraseDups := by
  induction fs using List.reverseRecOn with
  | nil => rfl
  | append_singleton fs f ih =>
      rw [gather_concat, Record.push, Grouping.keys_add, ih, List.map_append, List.map_singleton,
        eraseDups_concat]
      simp only [List.mem_eraseDups]

theorem IsIndexed.tags_eq (hs : s.IsIndexed) (r : RecordRef) :
    (s.record r).tags = ((s.fieldTags r).filter (· ≠ "")).eraseDups := by
  have hkeys : (s.record r).index.keys = (s.fieldTags r).eraseDups := by
    rw [fieldTags, ← keys_gather, ← hs.record_eq r]
  rw [Record.tags, hkeys, eraseDups_filter]

theorem length_tagged (s : Store) (r : RecordRef) (tag : String) :
    (s.tagged r tag).length = (s.fieldTags r).count tag := by
  rw [tagged, fieldTags, List.count, List.countP_map, List.countP_eq_length_filter]
  rfl

/-- Every field is in the bucket without tag or in that of a tag. -/
theorem IsIndexed.sum_length_lookup (hs : s.IsIndexed) (r : RecordRef) :
    ((s.record r).lookup "").length +
        ((s.record r).tags.map fun t => ((s.record r).lookup t).length).sum =
      (s.record r).fields.length := by
  have hlookup : ∀ t, ((s.record r).lookup t).length = (s.fieldTags r).count t := by
    intro t
    rw [hs.lookup_eq, ← tagged, length_tagged]
  have hcount : ∀ t ∈ ((s.fieldTags r).filter (· ≠ "")).eraseDups,
      (s.fieldTags r).count t = ((s.fieldTags r).filter (· ≠ "")).count t := by
    intro t ht
    rw [List.mem_eraseDups, List.mem_filter] at ht
    rw [List.count_filter (p := fun t => decide (t ≠ "")) ht.2]
  have hsplit : (s.fieldTags r).count "" + ((s.fieldTags r).filter (· ≠ "")).length =
      (s.fieldTags r).length := by
    have hne : ∀ t ∈ s.fieldTags r, (!(t == "")) = decide (t ≠ "") := by
      intro t _
      by_cases h : t = "" <;> simp [h]
    rw [List.count, List.countP_eq_length_filter, ← List.filter_congr hne,
      ← List.length_eq_length_filter_add]
  rw [hlookup, hs.tags_eq, funext hlookup, List.map_congr_left hcount, sum_count_eraseDups,
    hsplit, fieldTags, List.length_map]

/-- After every history, the bucket of each tag is what a scan of the record finds, the tags
are the distinct ones that the fields have, and no field is missing from the buckets. -/
theorem Reachable.index_eq_scan (h : s.Reachable) (r : RecordRef) :
    (∀ t : String, (r.fieldsByTag (.text t)).exec s = (.ok (s.tagged r t), s)) ∧
      (s.record r).tags = ((s.fieldTags r).filter (· ≠ "")).eraseDups ∧
      ((s.record r).lookup "").length +
          ((s.record r).tags.map fun t => ((s.record r).lookup t).length).sum =
        (s.record r).fields.length := by
  refine ⟨fun t => ?_, h.isIndexed.tags_eq r, h.isIndexed.sum_length_lookup r⟩
  rw [tagged, ← h.isIndexed.lookup_eq]
  rfl

/-- A field is put twice into a record and then appended to it; another one without tag is
appended too, and at last something that is no field. -/
def repeated : Store :=
  let s := ((Request.create "Field" [.text "003@"]).exec {}).2
  let s := ((Request.create "Record" [.list [.field ⟨0⟩, .field ⟨0⟩]]).exec s).2
  let s := ((Request.call (.record ⟨0⟩) "append" [.field ⟨0⟩]).exec s).2
  let s := ((Request.call (.record ⟨0⟩) "append" [.text "x"]).exec s).2
  ((Request.call (.record ⟨0⟩) "append" [.int 1]).exec s).2

theorem reachable_repeated : repeated.Reachable := by
  have hfield : ∀ {t : Store}, t.HasField ⟨0⟩ → ∀ v ∈ [(.field ⟨0⟩ : Arg)], Arg.IsIn True t v := by
    simp [Arg.IsIn, Value.All]
  have hlist : ∀ {t : Store}, t.HasField ⟨0⟩ →
      ∀ v ∈ [(.list [.field ⟨0⟩, .field ⟨0⟩] : Arg)], Arg.IsIn True t v := by
    intro t h v hv
    obtain rfl := List.mem_singleton.mp hv
    exact (Value.all_fields [⟨0⟩, ⟨0⟩]).mpr (by simpa using h)
  have hrecord : ∀ t, Datum.IsIn t (.record ⟨0⟩) := fun _ => trivial
  have hcreated := (Reachable.empty.create "Field" (Arg.isIn_texts ["003@"])).create "Record"
    (hlist (by decide))
  have hgrown := (hcreated.call (hrecord _) "append" (hfield (by decide))).call (hrecord _)
    "append" (Arg.isIn_texts ["x"])
  exact hgrown.call (hrecord _) "append" (by simp [Arg.IsIn, Value.All])

theorem index_eq_scan_repeated :
    repeated.Reachable ∧
      ((⟨0⟩ : RecordRef).fieldsByTag (.text "003@")).exec repeated =
        (.ok [⟨0⟩, ⟨0⟩, ⟨0⟩], repeated) ∧
      (repeated.record ⟨0⟩).tags = ["003@"] := by
  obtain ⟨hlookup, htags, -⟩ := reachable_repeated.index_eq_scan ⟨0⟩
  refine ⟨reachable_repeated, ?_, ?_⟩
  · rw [hlookup, show repeated.tagged ⟨0⟩ "003@" = [⟨0⟩, ⟨0⟩, ⟨0⟩] by decide]
  · rw [htags]
    decide

end Store

end Biblio
