import Biblio.Proofs.Index
import Biblio.Proofs.Locator.Write
import Biblio.Proofs.Query.Quiet

/-!
# Queries as scans

The query engine looks at buckets of the index only. What it finds is what a scan of all
fields of the record finds that is made for each alternative of the locator anew: the
fields with the tag of the alternative and an occurrence of its mode, in the order of the
record.
-/

namespace Biblio

open Biblio.Action

/-! ## Matching fields -/

namespace OccurrenceMatcher

def Accepts (m : OccurrenceMatcher) (occurrence : String) : Prop :=
  match m.mode with
  | .any => True
  | .none => occurrence = ""
  | .some => occurrence ≠ ""
  | .exact => occurrence = m.value

theorem accepts_iff (m : OccurrenceMatcher) (occurrence : String) :
    m.accepts occurrence = true ↔ m.Accepts occurrence := by
  rw [accepts, Accepts]
  cases m.mode <;> simp

instance (m : OccurrenceMatcher) (occurrence : String) : Decidable (m.Accepts occurrence) :=
  decidable_of_iff _ (m.accepts_iff occurrence)

end OccurrenceMatcher

/-- Whether a field has the tag of an alternative and an occurrence of its mode. -/
def Alternative.Matches (a : Alternative) (x : Field) : Prop :=
  x.tag = a.tag ∧ a.occurrence.Accepts x.occurrence

instance (a : Alternative) (x : Field) : Decidable (a.Matches x) :=
  inferInstanceAs (Decidable (_ ∧ _))

namespace Store

variable {s : Store}

/-- The matches of alternatives that a scan of a record finds. -/
def scan (s : Store) (r : RecordRef) (as : List Alternative) : List Query.Match :=
  as.flatMap fun a => ((s.record r).fields.filter fun f => a.Matches (s.field f)).map (a, ·)

theorem mem_scan {r : RecordRef} {as : List Alternative} {m : Query.Match} :
    m ∈ s.scan r as ↔
      m.1 ∈ as ∧ m.2 ∈ (s.record r).fields ∧ m.1.Matches (s.field m.2) := by
  obtain ⟨a, f⟩ := m
  simp only [scan, List.mem_flatMap, List.mem_map, List.mem_filter, decide_eq_true_eq,
    Prod.mk.injEq]
  constructor
  · rintro ⟨a, ha, f, hf, rfl, rfl⟩
    exact ⟨ha, hf⟩
  · rintro ⟨ha, hf⟩
    exact ⟨a, ha, f, hf, rfl, rfl⟩

/-- The index finds what a scan finds. -/
theorem IsIndexed.matching_eq_scan (hs : s.IsIndexed) (r : RecordRef) (as : List Alternative) :
    Query.matching s (s.record r).lookup as = s.scan r as := by
  rw [Query.matching, scan]
  congr 1
  funext a
  rw [hs.lookup_eq, List.filter_filter]
  congr 1
  apply List.filter_congr
  intro f _
  rw [Bool.eq_iff_iff, Bool.and_eq_true, decide_eq_true_eq, Query.accepts,
    OccurrenceMatcher.accepts_iff, beq_iff_eq, Alternative.Matches, and_comm]

end Store

/-! ## Quiet filters -/

namespace Arg

/-- Whether an argument gives conditions that neither fail nor change the store when they
are put to the fields of a record. -/
structure QuietOnFields (s : Store) (r : RecordRef) (filters : Arg)
    (ps : List Query.Predicate) : Prop where
  given : filters.predicates.exec s = (.ok ps, s)
  quiet : ∀ p ∈ ps, ∀ f ∈ (s.record r).fields, ∃ b, (p f).exec s = (.ok b, s)

/-- Whether an argument gives a chain that neither fails nor changes the store on the
values of a record. -/
structure QuietOnValues (s : Store) (r : RecordRef) (filters : Arg) (c : Chain) : Prop where
  given : (Chain.ofArg filters).exec s = (.ok c, s)
  quiet : ∀ f ∈ (s.record r).fields, ∀ x ∈ (s.field f).values,
    ∃ w, (c.apply x).exec s = (.ok w, s)

end Arg

/-! ## All matches -/

theorem Value.texts_injective {φ : Type} :
    Function.Injective (Value.texts : List String → Value φ) := by
  intro xs ys h
  exact List.map_injective_iff.mpr (fun _ _ => Value.text.inj) (Value.list.inj h)

namespace RecordRef

variable {s : Store} {r : RecordRef} {l : Locator} {filters : Arg}
  {ps : List Query.Predicate} {c : Chain}

theorem exec_filtersFor_fields (hl : l.wantField = true) (h : filters.QuietOnFields s r ps) :
    (filtersFor l filters).exec s = (.ok (ps, .pass), s) := by
  rw [filtersFor, if_pos hl, exec_bind_of h.given, exec_pure]

theorem exec_filtersFor_values (hl : l.wantField = false) (h : filters.QuietOnValues s r c) :
    (filtersFor l filters).exec s = (.ok ([], c.sieve), s) := by
  rw [filtersFor, if_neg (by simp [hl]), exec_bind_of h.given, exec_pure]

theorem quiet_of_mem_scan (h : filters.QuietOnFields s r ps) (as : List Alternative) :
    ∀ p ∈ ps, ∀ f ∈ (s.scan r as).map Prod.snd, ∃ b, (p f).exec s = (.ok b, s) := by
  intro p hp f hf
  obtain ⟨m, hm, rfl⟩ := List.mem_map.mp hf
  exact h.quiet p hp m.2 (Store.mem_scan.mp hm).2.1

theorem keeps_of_mem_scan (h : filters.QuietOnValues s r c) {as : List Alternative}
    {m : Query.Match} (hm : m ∈ s.scan r as) :
    c.sieve.Keeps s (c.kept s) (s.field m.2).values :=
  Chain.keeps_sieve (h.quiet m.2 (Store.mem_scan.mp hm).2.1)

theorem exec_allMatches_fields (hs : s.IsIndexed) (hl : l.wantField = true)
    (h : filters.QuietOnFields s r ps) :
    (r.allMatches l filters).exec s =
      (.ok (.record s.nextRecord), s.withNewRecord
        (((s.scan r l.alternatives).map Prod.snd).filter (Query.meets s ps))) := by
  have hkeep := Query.exec_keepFields (quiet_of_mem_scan h l.alternatives)
  rw [← hs.matching_eq_scan] at hkeep ⊢
  rw [allMatches, exec_bind_of (exec_filtersFor_fields hl h), exec_get_bind]
  dsimp only
  rw [if_pos hl, exec_bind_of hkeep]
  rfl

theorem exec_allMatches_values (hs : s.IsIndexed) (hl : l.wantField = false)
    (hsel : ∀ a ∈ l.alternatives, a.subfield ≠ none) (h : filters.QuietOnValues s r c) :
    (r.allMatches l filters).exec s =
      (.ok (.texts ((s.scan r l.alternatives).flatMap fun m =>
        (Query.contribution s (c.kept s) m).1)), s) := by
  have hscan : ∀ m ∈ s.scan r l.alternatives, m.1.subfield ≠ none := fun m hm =>
    hsel m.1 (Store.mem_scan.mp hm).1
  have hcollect := Query.exec_collectValues hscan fun m hm => keeps_of_mem_scan h hm
  rw [← hs.matching_eq_scan] at hcollect ⊢
  rw [allMatches, exec_bind_of (exec_filtersFor_values hl h), exec_get_bind]
  dsimp only
  rw [if_neg (by simp [hl]), exec_bind_of hcollect, exec_pure]

/-! ## Answers -/

/-- What a query for fields gives in a store: several fields are a new record. -/
def fieldAnswer (s : Store) (x : Query.Answer FieldRef) :
    Except Fault (Datum × Option QueryError) × Store :=
  match x.outcome with
  | .single f => (.ok (.ofOption .field f, x.error), s)
  | .several fs => (.ok (.record s.nextRecord, x.error), s.withNewRecord fs)

theorem exec_evaluate_of_fields (hl : l.wantField = true) (h : filters.QuietOnFields s r ps)
    {answer : Query.Answer FieldRef}
    (hanswer : (Query.evaluateFields s (s.record r).lookup l ps).exec s = (.ok answer, s)) :
    (r.evaluate l filters).exec s = fieldAnswer s answer := by
  rw [evaluate, exec_bind_of (exec_filtersFor_fields hl h), exec_get_bind]
  dsimp only
  rw [if_pos hl, exec_bind_of hanswer]
  cases houtcome : answer.outcome with
  | single f =>
      rw [fieldAnswer, houtcome]
      rfl
  | several fs =>
      rw [fieldAnswer, houtcome]
      rfl

theorem exec_evaluate_of_values (hl : l.wantField = false) (h : filters.QuietOnValues s r c)
    {answer : Query.Answer String}
    (hanswer : (Query.evaluateValues s (s.record r).lookup l c.sieve).exec s = (.ok answer, s)) :
    (r.evaluate l filters).exec s = (.ok (valueResult answer.outcome, answer.error), s) := by
  rw [evaluate, exec_bind_of (exec_filtersFor_values hl h), exec_get_bind]
  dsimp only
  rw [if_neg (by simp [hl]), exec_bind_of hanswer, exec_pure]

end RecordRef

namespace FieldRef

variable {s : Store} {r : RecordRef} {filters : Arg} {c : Chain}

theorem exec_query (h : filters.QuietOnValues s r c) {f : FieldRef}
    (hf : f ∈ (s.record r).fields) (sel : Selector) :
    (f.query sel filters).exec s = (.ok (Query.select (c.kept s) (s.field f) sel), s) := by
  rw [query, exec_bind_of h.given, exec_bind_of (exec_field f s)]
  exact Query.exec_queryField (Chain.keeps_sieve (h.quiet f hf)) sel

/-- What a match contributes is what querying its field gives. -/
theorem exec_query_of_mem_scan (h : filters.QuietOnValues s r c) {as : List Alternative}
    (hsel : ∀ a ∈ as, a.subfield ≠ none) {m : Query.Match} (hm : m ∈ s.scan r as) :
    ∃ sel, m.1.subfield = some sel ∧
      (m.2.query sel filters).exec s = (.ok (Query.contribution s (c.kept s) m), s) := by
  obtain ⟨ha, hf, -⟩ := Store.mem_scan.mp hm
  obtain ⟨sel, hmsel⟩ := Option.ne_none_iff_exists'.mp (hsel m.1 ha)
  refine ⟨sel, hmsel, ?_⟩
  rw [exec_query h hf, Query.contribution, hmsel]
  rfl

end FieldRef

namespace Store

variable {s : Store}

theorem filter_meets_scan (s : Store) (r : RecordRef) (as : List Alternative)
    (ps : List Query.Predicate) :
    ((s.scan r as).map Prod.snd).filter (Query.meets s ps) =
      as.flatMap fun a => (s.record r).fields.filter fun f =>
        a.Matches (s.field f) ∧ ∀ q ∈ ps, (q f).value? s = some true := by
  rw [scan, List.map_flatMap, List.filter_flatMap]
  congr 1
  funext a
  rw [List.map_map, show Prod.snd ∘ (fun f : FieldRef => (a, f)) = id from rfl, List.map_id,
    List.filter_filter]
  apply List.filter_congr
  intro f _
  rw [Bool.eq_iff_iff]
  simp [Query.meets, and_comm]

/-- All matches of a locator are found as a scan of the record would find them. Of the
fields that a locator of fields matches, those are in the answer that meet all conditions;
a locator of values collects what querying each matched field on its own gives. -/
theorem Reachable.all_eq_scan (h : s.Reachable) (r : RecordRef) {t : String}
    {subfield : Option String} {p : Locator} (hp : Locator.parse t subfield = .ok p)
    (filters : Arg) :
    (p.wantField = true → ∀ ps, filters.QuietOnFields s r ps →
      (r.all (.locator p) .null filters).exec s =
        (.ok (.record s.nextRecord), s.withNewRecord (p.alternatives.flatMap fun a =>
          (s.record r).fields.filter fun f =>
            a.Matches (s.field f) ∧ ∀ q ∈ ps, (q f).value? s = some true))) ∧
    (p.wantField = false → ∀ c, filters.QuietOnValues s r c →
      (∀ m ∈ s.scan r p.alternatives, ∃ sel, m.1.subfield = some sel ∧
        (m.2.query sel filters).exec s = (.ok (Query.contribution s (c.kept s) m), s)) ∧
      (r.all (.locator p) .null filters).exec s =
        (.ok (.texts ((s.scan r p.alternatives).flatMap fun m =>
          (Query.contribution s (c.kept s) m).1)), s)) := by
  constructor
  · intro hfield ps hquiet
    rw [← filter_meets_scan]
    exact r.exec_allMatches_fields h.isIndexed hfield hquiet
  · intro hvalue c hquiet
    have hsel := (Locator.wellFormed_of_parse hp).values hvalue
    exact ⟨fun m hm => FieldRef.exec_query_of_mem_scan hquiet hsel hm,
      r.exec_allMatches_values h.isIndexed hvalue hsel hquiet⟩

/-- A record of two fields, of which the first one has a repeated subfield. -/
def people : Store :=
  let s := ((Request.create "Field" [.text "028C", .text "01"]).exec {}).2
  let s := ((Request.call (.field ⟨0⟩) "append" [.text "a", .text "John"]).exec s).2
  let s := ((Request.call (.field ⟨0⟩) "append" [.text "a", .text "Doe"]).exec s).2
  let s := ((Request.create "Field" [.text "028A"]).exec s).2
  let s := ((Request.call (.field ⟨1⟩) "append" [.text "a", .text "Jane"]).exec s).2
  ((Request.create "Record" [.list [.field ⟨0⟩, .field ⟨1⟩]]).exec s).2

theorem reachable_people : people.Reachable := by
  have hfield : ∀ {t : Store} {f : FieldRef}, t.HasField f → Datum.IsIn t (.field f) :=
    fun h => h
  have hjohn := ((Reachable.empty.create "Field" (Arg.isIn_texts ["028C", "01"])).call
    (hfield (f := ⟨0⟩) (by decide)) "append" (Arg.isIn_texts ["a", "John"])).call
    (hfield (f := ⟨0⟩) (by decide)) "append" (Arg.isIn_texts ["a", "Doe"])
  have hjane := (hjohn.create "Field" (Arg.isIn_texts ["028A"])).call
    (hfield (f := ⟨1⟩) (by decide)) "append" (Arg.isIn_texts ["a", "Jane"])
  refine hjane.create "Record" ?_
  intro v hv
  obtain rfl := List.mem_singleton.mp hv
  exact (Value.all_fields [⟨0⟩, ⟨1⟩]).mpr (by decide)

/-- A condition that is put to tags is quiet. -/
theorem quietOnFields_tagStarts (s : Store) (r : RecordRef) (x : String) :
    Arg.QuietOnFields s r (.callback (Builtin.tagStarts x).call)
      [Arg.condition (Builtin.tagStarts x).call] where
  given := rfl
  quiet := by
    intro p hp f _
    obtain rfl := List.mem_singleton.mp hp
    exact ⟨_, rfl⟩

theorem quietOnValues_suffix (s : Store) (r : RecordRef) (x : String) :
    Arg.QuietOnValues s r (.callback (Builtin.suffix x).call) [.each (Builtin.suffix x).call] where
  given := rfl
  quiet := fun _ _ _ _ => Chain.exec_apply_each rfl

def authors : Locator :=
  { alternatives := [{ tag := "028A" }, { tag := "028C", occurrence := { mode := .some } }]
    wantField := true
    source := "028A|028C/xx" }

def authorNames : Locator :=
  { alternatives :=
      [{ tag := "028A", subfield := some { code := some "a" } },
        { tag := "028C", occurrence := { mode := .some }, subfield := some { code := some "a" } }]
    wantField := false
    source := "028A$a|028C/xx$a" }

theorem all_eq_scan_people :
    people.Reachable ∧
      (RecordRef.all ⟨0⟩ (.locator authors) .null
          (.callback (Builtin.tagStarts "028C").call)).exec people =
        (.ok (.record ⟨1⟩), people.withNewRecord [⟨0⟩]) ∧
      (RecordRef.all ⟨0⟩ (.locator authorNames) .null
          (.callback (Builtin.suffix ".").call)).exec people =
        (.ok (.texts ["Jane.", "John.", "Doe."]), people) := by
  have hauthors : Locator.parse "028A|028C/xx" = .ok authors := rfl
  have hnames : Locator.parse "028A$a|028C/xx$a" = .ok authorNames := rfl
  have hfields := (reachable_people.all_eq_scan ⟨0⟩ hauthors _).1 rfl _
    (quietOnFields_tagStarts people ⟨0⟩ "028C")
  have hvalues := (reachable_people.all_eq_scan ⟨0⟩ hnames _).2 rfl _
    (quietOnValues_suffix people ⟨0⟩ ".")
  exact ⟨reachable_people, hfields, hvalues.2⟩

end Store

end Biblio
