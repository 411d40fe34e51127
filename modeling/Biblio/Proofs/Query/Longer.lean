import Biblio.Proofs.Query.First
import Biblio.Proofs.Query.Reading
import Mathlib.Data.List.Flatten

/-!
# Queries of a longer record

What a query finds comes in blocks, one for each alternative of the locator. A field that is
put behind those of a record adds what it contributes to the end of the block of each
alternative that matches it, and takes nothing away. If no alternative matches the field, no
query can tell the longer record from the shorter one.
-/

namespace Biblio

open Biblio.Action

variable {s : Store}

/-! ## Blocks of matches -/

namespace Store

variable {r q : RecordRef} {f : FieldRef} {as : List Alternative}

/-- The matches of several alternatives are those of each of them in turn. -/
theorem scan_eq_flatMap (s : Store) (r : RecordRef) (as : List Alternative) :
    s.scan r as = as.flatMap fun a => s.scan r [a] := by
  simp only [scan, List.flatMap_singleton]

section

variable (hq : (s.record q).fields = (s.record r).fields ++ [f])
include hq

/-- The last field of a record is the last match of each alternative that matches it. -/
theorem scan_singleton_of_append (a : Alternative) :
    s.scan q [a] = s.scan r [a] ++ if a.Matches (s.field f) then [(a, f)] else [] := by
  simp only [scan, List.flatMap_singleton, hq, List.filter_append, List.map_append]
  congr 1
  by_cases hf : a.Matches (s.field f) <;> simp [hf]

theorem scan_of_append (as : List Alternative) :
    s.scan q as =
      as.flatMap fun a => s.scan r [a] ++ if a.Matches (s.field f) then [(a, f)] else [] := by
  rw [scan_eq_flatMap]
  exact congrArg as.flatMap (funext fun a => scan_singleton_of_append hq a)

theorem scan_singleton_of_not_matches {a : Alternative} (hf : ¬a.Matches (s.field f)) :
    s.scan q [a] = s.scan r [a] := by
  rw [scan_singleton_of_append hq, if_neg hf, List.append_nil]

end

end Store

/-! ## Lookups with the same matches -/

namespace Query

/-- Whether two lookups give the same matches for each of the alternatives. -/
def SameMatches (s : Store) (lookup lookup' : Lookup) (as : List Alternative) : Prop :=
  ∀ a ∈ as, (lookup a.tag).filter (accepts s a) = (lookup' a.tag).filter (accepts s a)

variable {lookup lookup' : Lookup} {as : List Alternative} {l : Locator}

theorem matching_congr (h : SameMatches s lookup lookup' as) :
    matching s lookup as = matching s lookup' as := by
  rw [matching, matching, List.flatMap_congr]
  intro a ha
  rw [h a ha]

theorem firstValue_congr (h : SameMatches s lookup lookup' as) (v : Sieve) :
    firstValue s lookup v as = firstValue s lookup' v as := by
  induction as with
  | nil => rfl
  | cons a as ih =>
      have hfind : (lookup a.tag).find? (accepts s a) = (lookup' a.tag).find? (accepts s a) := by
        rw [← List.head?_filter, h a (by simp), List.head?_filter]
      rw [firstValue, firstValue, hfind, ih fun b hb => h b (by simp [hb])]

theorem evaluateFields_congr (h : SameMatches s lookup lookup' l.alternatives)
    (ps : List Predicate) : evaluateFields s lookup l ps = evaluateFields s lookup' l ps := by
  rw [evaluateFields, evaluateFields, matching_congr h]

theorem evaluateValues_congr (h : SameMatches s lookup lookup' l.alternatives) (v : Sieve) :
    evaluateValues s lookup l v = evaluateValues s lookup' l v := by
  rw [evaluateValues, evaluateValues, matching_congr h, firstValue_congr h]

end Query

namespace RecordRef

variable {r q : RecordRef} {l : Locator}

/-- Whether a record answers a query as another one does, whichever query it is: for the first
match, for all of them, for a result with an error, or whether there is a match. -/
structure AnswersAs (s : Store) (q r : RecordRef) (l : Locator) (filters : Arg) : Prop where
  first : (q.first (.locator l) .null filters).exec s = (r.first (.locator l) .null filters).exec s
  all : (q.all (.locator l) .null filters).exec s = (r.all (.locator l) .null filters).exec s
  query : (q.query (.locator l) .null filters).exec s = (r.query (.locator l) .null filters).exec s
  has : (q.has (.locator l) .null).exec s = (r.has (.locator l) .null).exec s

/-- What is done behind the reading of filters is done in the store as it was. -/
theorem exec_filtersFor_bind_congr {β : Type}
    {f g : List Query.Predicate × Query.Sieve → Action β} (l : Locator) (filters : Arg)
    (hfg : ∀ x, (f x).exec s = (g x).exec s) :
    (filtersFor l filters >>= f).exec s = (filtersFor l filters >>= g).exec s := by
  rcases ((Arg.readsAlike_self s filters).filtersFor l).cases with ⟨e, hread, -⟩ | ⟨x, hread, -⟩
  · rw [exec_bind, exec_bind, hread]
  · rw [exec_bind_of hread, exec_bind_of hread, hfg x]

section

variable (h : Query.SameMatches s (s.record q).lookup (s.record r).lookup l.alternatives)
include h

theorem exec_first_congr (filters : Arg) :
    (q.first (.locator l) .null filters).exec s = (r.first (.locator l) .null filters).exec s := by
  refine exec_filtersFor_bind_congr l filters fun x => ?_
  change (q.firstMatch l x.1 x.2).exec s = (r.firstMatch l x.1 x.2).exec s
  rw [firstMatch, firstMatch, exec_get_bind, exec_get_bind]
  dsimp only
  rw [Query.matching_congr h, Query.firstValue_congr h]

theorem answersAs_of_sameMatches (filters : Arg) : q.AnswersAs s r l filters where
  first := exec_first_congr h filters
  all := by
    refine exec_filtersFor_bind_congr l filters fun x => ?_
    rw [exec_get_bind, exec_get_bind, Query.matching_congr h]
  query := by
    refine exec_filtersFor_bind_congr l filters fun x => ?_
    rw [exec_get_bind, exec_get_bind]
    dsimp only
    rw [Query.evaluateFields_congr h, Query.evaluateValues_congr h]
  has := by
    rw [has, has, exec_bind, exec_bind, exec_first_congr h .null]

end

end RecordRef

/-! ## What a further field adds -/

namespace Arg

variable {r q : RecordRef} {filters : Arg}

/-- Conditions that are quiet on the fields of a record are so on some of them. -/
theorem QuietOnFields.subset {ps : List Query.Predicate} (h : filters.QuietOnFields s q ps)
    (hsub : (s.record r).fields ⊆ (s.record q).fields) : filters.QuietOnFields s r ps where
  given := h.given
  quiet := fun p hp f hf => h.quiet p hp f (hsub hf)

theorem QuietOnValues.subset {c : Chain} (h : filters.QuietOnValues s q c)
    (hsub : (s.record r).fields ⊆ (s.record q).fields) : filters.QuietOnValues s r c where
  given := h.given
  quiet := fun f hf => h.quiet f (hsub hf)

end Arg

def Locator.only (l : Locator) (a : Alternative) : Locator :=
  { l with alternatives := [a] }

namespace RecordRef

variable {α : Type} {r q : RecordRef} {f : FieldRef} {l : Locator} {filters : Arg}

/-- Whether a query of a record finds, alternative by alternative, what it finds of a shorter
record, the block of the alternative, and behind it something more. A block is what the query
finds if it has no other alternative. -/
structure FindsMore (s : Store) (q r : RecordRef) (l : Locator) (filters : Arg)
    (found : List α → Except Fault Datum × Store) (block more : Alternative → List α) : Prop where
  alone : ∀ a ∈ l.alternatives,
    (r.all (.locator (l.only a)) .null filters).exec s = found (block a)
  shorter : (r.all (.locator l) .null filters).exec s = found (l.alternatives.flatMap block)
  longer : (q.all (.locator l) .null filters).exec s =
    found (l.alternatives.flatMap fun a => block a ++ more a)
  sublist : (l.alternatives.flatMap block).Sublist
    (l.alternatives.flatMap fun a => block a ++ more a)

/-- A query that puts together what each match of a scan gives finds more of a longer record. -/
theorem findsMore_of_append (hq : (s.record q).fields = (s.record r).fields ++ [f])
    {found : List α → Except Fault Datum × Store} (out : Query.Match → List α)
    (hall : ∀ x m, (s.record x).fields ⊆ (s.record q).fields → m.wantField = l.wantField →
      m.alternatives ⊆ l.alternatives → (x.all (.locator m) .null filters).exec s =
        found ((s.scan x m.alternatives).flatMap out)) :
    q.FindsMore s r l filters found (fun a => (s.scan r [a]).flatMap out)
      fun a => if a.Matches (s.field f) then out (a, f) else [] := by
  have hsub : (s.record r).fields ⊆ (s.record q).fields := by
    rw [hq]
    exact List.subset_append_left _ _
  refine ⟨fun a ha => ?_, ?_, ?_, ?_⟩
  · exact hall r (l.only a) hsub rfl (by simpa [Locator.only] using ha)
  · rw [hall r l hsub rfl (List.Subset.refl _), Store.scan_eq_flatMap, List.flatMap_assoc]
  · rw [hall q l (List.Subset.refl _) rfl (List.Subset.refl _), Store.scan_of_append hq,
      List.flatMap_assoc]
    congr 2
    funext a
    rw [List.flatMap_append]
    by_cases hf : a.Matches (s.field f) <;> simp [hf]
  · exact .flatMap_right _ fun a _ => List.sublist_append_left _ _

theorem filter_map_snd_eq_flatMap (ms : List Query.Match) (b : FieldRef → Bool) :
    (ms.map Prod.snd).filter b = ms.flatMap fun m => if b m.2 then [m.2] else [] := by
  induction ms with
  | nil => rfl
  | cons m ms ih => cases hm : b m.2 <;> simp [hm, ih]

end RecordRef

namespace Store

/-- A field behind those of a record only adds to what queries find. To the block of each
alternative that matches it, and to no other, it adds at the end what it contributes: itself if
it meets the conditions, or the values that querying it gives. If no alternative matches it, then
whatever the filters are, the longer record answers as the shorter one. -/
theorem Reachable.longer_finds_more (h : s.Reachable) {r q : RecordRef} {f : FieldRef}
    (hq : (s.record q).fields = (s.record r).fields ++ [f]) {t : String}
    {subfield : Option String} {p : Locator} (hp : Locator.parse t subfield = .ok p)
    (filters : Arg) :
    (p.wantField = true → ∀ ps, filters.QuietOnFields s q ps →
      ∃ block more : Alternative → List FieldRef,
        q.FindsMore s r p filters (fun fs => (.ok (.record s.nextRecord), s.withNewRecord fs))
          block more ∧
        ∀ a, more a =
          if a.Matches (s.field f) ∧ ∀ c ∈ ps, (c f).value? s = some true then [f] else []) ∧
    (p.wantField = false → ∀ c, filters.QuietOnValues s q c →
      ∃ block more : Alternative → List String,
        q.FindsMore s r p filters (fun xs => (.ok (.texts xs), s)) block more ∧
        ∀ a ∈ p.alternatives, (¬a.Matches (s.field f) → more a = []) ∧
          (a.Matches (s.field f) → ∃ sel e, a.subfield = some sel ∧
            (f.query sel filters).exec s = (.ok (more a, e), s))) ∧
    ((∀ a ∈ p.alternatives, ¬a.Matches (s.field f)) → q.AnswersAs s r p filters) := by
  have hs := h.isIndexed
  refine ⟨fun hfield ps hquiet => ?_, fun hvalue c hquiet => ?_, fun hnone => ?_⟩
  · refine ⟨_, _, RecordRef.findsMore_of_append hq
      (fun m => if Query.meets s ps m.2 then [m.2] else []) ?_, fun a => ?_⟩
    · intro x m hsub hm _
      rw [← RecordRef.filter_map_snd_eq_flatMap]
      exact RecordRef.exec_allMatches_fields hs (hm.trans hfield) (hquiet.subset hsub)
    · by_cases hf : a.Matches (s.field f) <;> simp [hf, Query.meets]
  · have hsel := (Locator.wellFormed_of_parse hp).values hvalue
    refine ⟨_, _, RecordRef.findsMore_of_append hq
      (fun m => (Query.contribution s (c.kept s) m).1) ?_, fun a ha => ⟨?_, ?_⟩⟩
    · intro x m hsub hm has
      exact RecordRef.exec_allMatches_values hs (hm.trans hvalue) (fun a ha => hsel a (has ha))
        (hquiet.subset hsub)
    · exact fun hf => if_neg hf
    · intro hf
      have hmem : (a, f) ∈ s.scan q p.alternatives := mem_scan.mpr ⟨ha, by simp [hq], hf⟩
      obtain ⟨sel, hasel, hquery⟩ := FieldRef.exec_query_of_mem_scan hquiet hsel hmem
      exact ⟨sel, _, hasel, by rw [if_pos hf, hquery]⟩
  · refine RecordRef.answersAs_of_sameMatches (fun a ha => ?_) filters
    have hscan := scan_singleton_of_not_matches hq (hnone a ha)
    rw [← hs.matching_eq_scan, ← hs.matching_eq_scan] at hscan
    simpa [Query.matching, Function.comp_def] using congrArg (List.map Prod.snd) hscan

def household : Store :=
  let s := ((Request.create "Field" [.text "028A"]).exec people).2
  let s := ((Request.call (.field ⟨2⟩) "append" [.text "a", .text "Ann"]).exec s).2
  ((Request.create "Record" [.list [.field ⟨0⟩, .field ⟨1⟩, .field ⟨2⟩]]).exec s).2

theorem reachable_household : household.Reachable := by
  have hfield : ∀ {t : Store} {f : FieldRef}, t.HasField f → Datum.IsIn t (.field f) :=
    fun h => h
  have hann := (reachable_people.create "Field" (Arg.isIn_texts ["028A"])).call
    (hfield (f := ⟨2⟩) (by decide)) "append" (Arg.isIn_texts ["a", "Ann"])
  refine hann.create "Record" ?_
  intro v hv
  obtain rfl := List.mem_singleton.mp hv
  exact (Value.all_fields [⟨0⟩, ⟨1⟩, ⟨2⟩]).mpr (by decide)

def namesAround : Locator :=
  { alternatives :=
      [{ tag := "028A", subfield := some { code := some "a" } },
        { tag := "028C", subfield := some { code := some "a" } },
        { tag := "028A", occurrence := { mode := .none },
          subfield := some { code := some "a" } }],
    wantField := false, source := "028A$a|028C$a|028A/$a" }

/-- The new name stands at the end of two of the three blocks, and a query for other authors
finds nothing new. -/
theorem longer_finds_more_household :
    household.Reachable ∧
      (household.record ⟨1⟩).fields = (household.record ⟨0⟩).fields ++ [⟨2⟩] ∧
      (RecordRef.all ⟨0⟩ (.locator namesAround) .null .null).exec household =
        (.ok (.texts (["Jane"] ++ ["John", "Doe"] ++ ["Jane"])), household) ∧
      (RecordRef.all ⟨1⟩ (.locator namesAround) .null .null).exec household =
        (.ok (.texts (["Jane", "Ann"] ++ ["John", "Doe"] ++ ["Jane", "Ann"])), household) ∧
      ∀ p, Locator.parse "!028C/xx$a!" = .ok p →
        RecordRef.AnswersAs household ⟨1⟩ ⟨0⟩ p .null := by
  have hq : (household.record ⟨1⟩).fields = (household.record ⟨0⟩).fields ++ [⟨2⟩] := by decide
  have hp : Locator.parse "028A$a|028C$a|028A/$a" = .ok namesAround := rfl
  have hquiet : Arg.QuietOnValues household ⟨1⟩ .null [] := ⟨rfl, fun _ _ _ _ => ⟨_, rfl⟩⟩
  obtain ⟨block, more, hfinds, hmore⟩ :=
    (reachable_household.longer_finds_more hq hp .null).2.1 rfl [] hquiet
  have hblock : ∀ a ∈ namesAround.alternatives, ∀ xs,
      (RecordRef.all ⟨0⟩ (.locator (namesAround.only a)) .null .null).exec household =
        (.ok (.texts xs), household) → block a = xs := by
    intro a ha xs hrun
    have hblock := (hfinds.alone a ha).symm.trans hrun
    exact Value.texts_injective (Except.ok.inj (congrArg Prod.fst hblock))
  have hann : ∀ a ∈ namesAround.alternatives, a.subfield = some { code := some "a" } →
      a.Matches (household.field ⟨2⟩) → more a = ["Ann"] := by
    intro a ha hsel hmatch
    obtain ⟨sel, e, hasel, hquery⟩ := (hmore a ha).2 hmatch
    obtain rfl := Option.some.inj (hsel.symm.trans hasel)
    exact (Prod.mk.inj (Except.ok.inj (congrArg Prod.fst hquery))).1.symm
  have hblocks : namesAround.alternatives.map block = [["Jane"], ["John", "Doe"], ["Jane"]] := by
    rw [namesAround, List.map_cons, List.map_cons, List.map_singleton,
      hblock _ (by decide) ["Jane"] rfl, hblock _ (by decide) ["John", "Doe"] rfl,
      hblock _ (by decide) ["Jane"] rfl]
  have hmores : namesAround.alternatives.map more = [["Ann"], [], ["Ann"]] := by
    rw [namesAround, List.map_cons, List.map_cons, List.map_singleton,
      hann _ (by decide) rfl (by decide), (hmore _ (by decide)).1 (by decide),
      hann _ (by decide) rfl (by decide)]
  refine ⟨reachable_household, hq, ?_, ?_, fun p hp => ?_⟩
  · rw [hfinds.shorter, List.flatMap_def, hblocks]
    rfl
  · have hadded : namesAround.alternatives.map (fun a => block a ++ more a) =
        List.zipWith (· ++ ·) (namesAround.alternatives.map block)
          (namesAround.alternatives.map more) := by
      simp [List.zipWith_map]
    rw [hfinds.longer, List.flatMap_def, hadded, hblocks, hmores]
    rfl
  · refine (reachable_household.longer_finds_more hq hp .null).2.2 ?_
    obtain rfl := Except.ok.inj hp
    decide

end Store

end Biblio
