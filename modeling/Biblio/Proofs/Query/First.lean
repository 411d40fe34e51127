import Biblio.Proofs.Query.Scan

/-!
# First matches

The first match of a locator is told by all its matches: the first field is the first of
all fields, and the first value is the first one that the first matched field contributes.
Fields and alternatives behind that one have no say, even if it contributes nothing.
-/

namespace Biblio

open Biblio.Action

/-! ## Selectors that ask for the first value -/

namespace Query

variable {keep : String → Option String}

/-- Asking for the first value by default does not change which one is first. -/
theorem head?_select_withDefault (keep : String → Option String) (x : Field) (sel : Selector) :
    (select keep x (sel.withDefault "?")).1.head? = (select keep x sel).1.head? := by
  rcases sel with ⟨_ | code, cardinality, placeholder⟩
  · simp [Selector.withDefault]
  · by_cases h : cardinality = ""
    · subst h
      have hnone : ({ code := some code, placeholder } : Selector).flag? = none := rfl
      have hoptional : ({ code := some code, cardinality := "?", placeholder } : Selector).flag? =
          some .optional := Flag.ofText?_write .optional
      rw [show Selector.withDefault ⟨some code, "", placeholder⟩ "?" =
        ⟨some code, "?", placeholder⟩ from rfl]
      simp only [select, checkValues, hnone, hoptional]
      cases (x.valuesFor code).filterMap keep <;> cases placeholder <;> simp
    · simp [Selector.withDefault, h]

end Query

/-! ## The first match of a scan -/

namespace Store

variable {s : Store}

theorem scan_cons (s : Store) (r : RecordRef) (a : Alternative) (as : List Alternative) :
    s.scan r (a :: as) =
      ((s.record r).fields.filter fun f => a.Matches (s.field f)).map (a, ·) ++ s.scan r as := rfl

/-- The alternative of the first match is the first one that matches a field. -/
theorem find?_eq_head?_scan (s : Store) (r : RecordRef) (as : List Alternative) :
    (as.find? fun a => (s.record r).fields.any fun f => a.Matches (s.field f)) =
      (s.scan r as).head?.map Prod.fst := by
  induction as with
  | nil => rfl
  | cons a as ih =>
      rw [scan_cons, List.find?_cons]
      cases hfound : (s.record r).fields.filter fun f => a.Matches (s.field f) with
      | nil =>
          have hany : ((s.record r).fields.any fun f => a.Matches (s.field f)) = false := by
            simpa using hfound
          rw [hany]
          exact ih
      | cons f fs =>
          have hmem : f ∈ (s.record r).fields.filter fun f => a.Matches (s.field f) := by
            simp [hfound]
          have hany : ((s.record r).fields.any fun f => a.Matches (s.field f)) = true :=
            List.any_eq_true.mpr ⟨f, List.mem_filter.mp hmem⟩
          rw [hany]
          rfl

end Store

def Locator.withoutSubfields (l : Locator) : Locator :=
  { l with alternatives := l.alternatives.map fun a => { a with subfield := none },
           wantField := true }

namespace Store

theorem scan_withoutSubfields (s : Store) (r : RecordRef) (l : Locator) :
    (s.scan r l.withoutSubfields.alternatives).map Prod.snd =
      (s.scan r l.alternatives).map Prod.snd := by
  rw [Locator.withoutSubfields, scan, scan, List.flatMap_map, List.map_flatMap, List.map_flatMap]
  congr 1
  funext a
  rw [List.map_map, List.map_map]
  rfl

end Store

namespace RecordRef

variable {s : Store} {r : RecordRef} {l : Locator} {filters : Arg}
  {ps : List Query.Predicate} {c : Chain}

/-- What the queries for all matches, for the first one and, without a flag, for the first
one with its error answer for a locator. -/
structure Answers (s : Store) (r : RecordRef) (l : Locator) (filters : Arg)
    (found : Datum × Store) (head : Datum) (e : Option QueryError) : Prop where
  all : (r.all (.locator l) .null filters).exec s = (.ok found.1, found.2)
  first : (r.first (.locator l) .null filters).exec s = (.ok head, s)
  query : l.cardinality = "" →
    (r.query (.locator l) .null filters).exec s = (.ok (head, e), s)

/-! ## Locators of fields -/

theorem exec_firstField_scan (hs : s.IsIndexed) (h : filters.QuietOnFields s r ps)
    (as : List Alternative) :
    (Query.firstField ps ((Query.matching s (s.record r).lookup as).map Prod.snd)).exec s =
      (.ok (((s.scan r as).map Prod.snd).filter (Query.meets s ps)).head?, s) := by
  rw [hs.matching_eq_scan]
  exact Query.exec_firstField (quiet_of_mem_scan h as)

theorem exec_first_fields (hs : s.IsIndexed) (hl : l.wantField = true)
    (h : filters.QuietOnFields s r ps) :
    (r.first (.locator l) .null filters).exec s =
      (.ok (.ofOption .field
        (((s.scan r l.alternatives).map Prod.snd).filter (Query.meets s ps)).head?), s) := by
  change (filtersFor l filters >>= fun x => r.firstMatch l x.1 x.2).exec s = _
  rw [exec_bind_of (exec_filtersFor_fields hl h), firstMatch, exec_get_bind]
  dsimp only
  rw [if_pos hl, exec_bind_of (exec_firstField_scan hs h l.alternatives), exec_pure]

theorem answers_fields (hs : s.IsIndexed) (hl : l.wantField = true)
    (h : filters.QuietOnFields s r ps) :
    let fs := ((s.scan r l.alternatives).map Prod.snd).filter (Query.meets s ps)
    r.Answers s l filters (.record s.nextRecord, s.withNewRecord fs)
      (.ofOption .field fs.head?) none where
  all := exec_allMatches_fields hs hl h
  first := exec_first_fields hs hl h
  query := by
    intro hcardinality
    have hanswer : (Query.evaluateFields s (s.record r).lookup l ps).exec s =
        (.ok ⟨.single (((s.scan r l.alternatives).map Prod.snd).filter
          (Query.meets s ps)).head?, none⟩, s) := by
      rw [Query.evaluateFields, if_pos hcardinality,
        exec_bind_of (exec_firstField_scan hs h l.alternatives), exec_pure]
    exact exec_evaluate_of_fields hl h hanswer

/-! ## Locators of values -/

/-- The first value of the first match, if there is a match, and the error of its field. -/
def firstOf (s : Store) (r : RecordRef) (l : Locator) (c : Chain) :
    Option String × Option QueryError :=
  ((s.scan r l.alternatives).head?.map (Query.firstContribution s (c.kept s))).getD (none, none)

theorem exec_firstValue_scan (hs : s.IsIndexed) (hsel : ∀ a ∈ l.alternatives, a.subfield ≠ none)
    (h : filters.QuietOnValues s r c) :
    (Query.firstValue s (s.record r).lookup c.sieve l.alternatives).exec s =
      (.ok (firstOf s r l c), s) := by
  have hkeeps : ∀ m ∈ (s.scan r l.alternatives).head?,
      c.sieve.Keeps s (c.kept s) (s.field m.2).values := fun m hm =>
    keeps_of_mem_scan h (List.mem_of_head? hm)
  rw [firstOf]
  rw [← hs.matching_eq_scan] at hkeeps ⊢
  exact Query.exec_firstValue hsel hkeeps

theorem answers_values (hs : s.IsIndexed) (hl : l.wantField = false)
    (hsel : ∀ a ∈ l.alternatives, a.subfield ≠ none) (h : filters.QuietOnValues s r c) :
    r.Answers s l filters
      (.texts ((s.scan r l.alternatives).flatMap fun m =>
        (Query.contribution s (c.kept s) m).1), s)
      (.ofOption .text (firstOf s r l c).1)
      (if (firstOf s r l c).1.isSome then none else (firstOf s r l c).2) where
  all := exec_allMatches_values hs hl hsel h
  first := by
    change (filtersFor l filters >>= fun x => r.firstMatch l x.1 x.2).exec s = _
    rw [exec_bind_of (exec_filtersFor_values hl h), firstMatch, exec_get_bind]
    dsimp only
    rw [if_neg (by simp [hl]), exec_bind_of (exec_firstValue_scan hs hsel h), exec_pure]
  query := by
    intro hcardinality
    have hanswer : (Query.evaluateValues s (s.record r).lookup l c.sieve).exec s =
        (.ok ⟨.single (firstOf s r l c).1,
          if (firstOf s r l c).1.isSome then none else (firstOf s r l c).2⟩, s) := by
      rw [Query.evaluateValues, if_pos hcardinality,
        exec_bind_of (exec_firstValue_scan hs hsel h), exec_pure]
    exact exec_evaluate_of_values hl h hanswer

/-- The field that the first value comes from. -/
theorem exec_first_withoutSubfields (hs : s.IsIndexed) (r : RecordRef) (l : Locator) :
    (r.first (.locator l.withoutSubfields) .null .null).exec s =
      (.ok (.ofOption .field ((s.scan r l.alternatives).head?.map Prod.snd)), s) := by
  have hquiet : Arg.QuietOnFields s r .null [] := ⟨rfl, by simp⟩
  have hmeets : Query.meets s [] = fun _ => true := rfl
  rw [exec_first_fields hs rfl hquiet, Store.scan_withoutSubfields, hmeets, List.filter_true,
    List.head?_map]

end RecordRef

namespace Store

variable {s : Store}

/-- The first match is the head of all matches. For values it is the first of those that the
first matching field contributes through the first alternative that has a matching field,
`sel` being its selector; `rest`, what every later match contributes, has no part in it. -/
theorem Reachable.first_eq_head_all (h : s.Reachable) (r : RecordRef) {t : String}
    {subfield : Option String} {p : Locator} (hp : Locator.parse t subfield = .ok p)
    (filters : Arg) :
    (p.wantField = true → ∀ ps, filters.QuietOnFields s r ps →
      ∃ fs : List FieldRef, r.Answers s p filters (.record s.nextRecord, s.withNewRecord fs)
        (.ofOption .field fs.head?) none) ∧
    (p.wantField = false → ∀ c, filters.QuietOnValues s r c →
      ((r.first (.locator p.withoutSubfields) .null .null).exec s = (.ok .null, s) ∧
        r.Answers s p filters (.texts [], s) .null none) ∨
      ∃ (f : FieldRef) (a : Alternative) (sel : Selector) (xs rest ys : List String)
        (e e' : Option QueryError),
        (r.first (.locator p.withoutSubfields) .null .null).exec s = (.ok (.field f), s) ∧
        (p.alternatives.find? fun a =>
          (s.record r).fields.any fun g => a.Matches (s.field g)) = some a ∧
        a.subfield = some sel ∧
        (f.query sel filters).exec s = (.ok (xs, e), s) ∧
        (f.query (sel.withDefault "?") filters).exec s = (.ok (ys, e'), s) ∧
        r.Answers s p filters (.texts (xs ++ rest), s) (.ofOption .text xs.head?)
          (if xs = [] then e' else none)) := by
  have hs := h.isIndexed
  constructor
  · intro hfield ps hquiet
    exact ⟨_, RecordRef.answers_fields hs hfield hquiet⟩
  · intro hvalue c hquiet
    have hsel := (Locator.wellFormed_of_parse hp).values hvalue
    have hanswers := RecordRef.answers_values hs hvalue hsel hquiet
    have hfirst := RecordRef.exec_first_withoutSubfields hs r p
    have hfind := s.find?_eq_head?_scan r p.alternatives
    cases hscan : s.scan r p.alternatives with
    | nil =>
        rw [hscan] at hanswers hfirst
        rw [RecordRef.firstOf, hscan] at hanswers
        exact .inl ⟨hfirst, hanswers⟩
    | cons m ms =>
        right
        have hm : m ∈ s.scan r p.alternatives := by simp [hscan]
        obtain ⟨ha, hf, -⟩ := mem_scan.mp hm
        obtain ⟨sel, hmsel⟩ := Option.ne_none_iff_exists'.mp (hsel m.1 ha)
        -- The field is queried once under its own selector and once under the default one.
        have hfound := FieldRef.exec_query hquiet hf sel
        have hdefault := FieldRef.exec_query hquiet hf (sel.withDefault "?")
        have hhead := Query.head?_select_withDefault (c.kept s) (s.field m.2) sel
        rw [hscan] at hfirst hfind
        rw [RecordRef.firstOf, hscan, List.flatMap_cons, List.head?_cons, Option.map_some,
          Option.getD_some, Query.firstContribution, Query.contribution, hmsel, Option.getD_some,
          hhead] at hanswers
        rcases hselect : Query.select (c.kept s) (s.field m.2) sel with ⟨xs, e⟩
        rcases hasked : Query.select (c.kept s) (s.field m.2) (sel.withDefault "?") with ⟨ys, e'⟩
        rw [hselect] at hfound hanswers
        rw [hasked] at hdefault hanswers
        refine ⟨m.2, m.1, sel, xs, ms.flatMap fun m => (Query.contribution s (c.kept s) m).1, ys,
          e, e', hfirst, hfind, hmsel, hfound, hdefault, ?_⟩
        cases xs with
        | nil => exact hanswers
        | cons x xs => exact hanswers

/-- The locator of two values, the first of which no field of `people` has. -/
def contacts : Locator :=
  { alternatives :=
      [{ tag := "028A", subfield := some { code := some "x", cardinality := "+" } },
        { tag := "028C", subfield := some { code := some "a" } }],
    wantField := false, source := "028A$x+|028C$a" }

/-- The field that matches first has no subfield `x`, whatever the other one has. -/
theorem first_eq_head_all_people :
    people.Reachable ∧
      (RecordRef.first ⟨0⟩ (.locator authors) .null .null).exec people =
        (.ok (.field ⟨1⟩), people) ∧
      Locator.parse "028A$x+|028C$a" = .ok contacts ∧
      RecordRef.Answers people ⟨0⟩ contacts .null (.texts ["John", "Doe"], people) .null
        (some (.subfieldNotFound { code := some "x", cardinality := "+" } "028A")) := by
  have hauthors : Locator.parse "028A|028C/xx" = .ok authors := rfl
  have hcontacts : Locator.parse "028A$x+|028C$a" = .ok contacts := rfl
  obtain ⟨fs, hfields⟩ := (reachable_people.first_eq_head_all ⟨0⟩ hauthors .null).1 rfl []
    ⟨rfl, by simp⟩
  have hvalues := (reachable_people.first_eq_head_all ⟨0⟩ hcontacts .null).2 rfl []
    ⟨rfl, fun _ _ _ _ => ⟨_, rfl⟩⟩
  have hfs : fs = [⟨1⟩, ⟨0⟩] :=
    withNewRecord_injective people (congrArg Prod.snd hfields.all.symm)
  subst hfs
  refine ⟨reachable_people, hfields.first, hcontacts, ?_⟩
  obtain ⟨hnone, -⟩ | ⟨f, a, sel, xs, rest, ys, e, e', hf, ha, hsel, hxs, hys, hanswers⟩ := hvalues
  · cases hnone
  · obtain rfl : (⟨1⟩ : FieldRef) = f :=
      Value.field.inj (Except.ok.inj (congrArg Prod.fst hf))
    obtain rfl : _ = a := Option.some.inj ha
    obtain rfl : _ = sel := Option.some.inj hsel
    obtain ⟨rfl, -⟩ : _ = xs ∧ _ = e := Prod.mk.inj (Except.ok.inj (congrArg Prod.fst hxs))
    obtain ⟨-, rfl⟩ : _ = ys ∧ _ = e' := Prod.mk.inj (Except.ok.inj (congrArg Prod.fst hys))
    obtain rfl : ["John", "Doe"] = rest :=
      Value.texts_injective (Except.ok.inj (congrArg Prod.fst hanswers.all))
    exact hanswers

end Store

end Biblio
