import Biblio.Proofs.Query.Scan

/-!
# Counting matches

A flag in front of a locator changes nothing but what the number of its matches is held
against: what `get` answers with a flag is all that `all` finds without it, or the only
match, and an error if there are too few or too many.
-/

namespace Biblio

open Biblio.Action

/-! ## Flags in front of locators -/

namespace Locator

variable {t : String} {s : Option String} {p : Locator} {alternatives : List Alternative}

theorem IsCut.with_flag {cs : List Char} {pieces : List (List Char)} (h : IsCut cs none pieces)
    (k : Flag) : IsCut (k.toChar :: cs) (some k) pieces where
  text_eq := by simpa [Flag.text] using h.text_eq
  head?_ne := by simp
  ne_nil := h.ne_nil
  bar_notMem := h.bar_notMem

theorem Lists.with_flag (h : Lists t none alternatives) (k : Flag) :
    Lists (k.write ++ t) (some k) alternatives := by
  obtain ⟨pieces, hcut, hpieces⟩ := h
  refine ⟨pieces, ?_, hpieces⟩
  simpa using hcut.with_flag k

/-- A text that does not start with a flag is cut without flag. -/
theorem Lists.eq_none {k : Option Flag} (h : Lists t k alternatives)
    (ht : ∀ j : Flag, t.toList.head? ≠ some j.toChar) : k = none := by
  obtain ⟨pieces, hcut, -⟩ := h
  cases k with
  | none => rfl
  | some j => exact absurd (by simp [hcut.text_eq, Flag.text]) (ht j)

def withFlag (p : Locator) (k : Flag) (t : String) : Locator :=
  { p with cardinality := k.write, source := k.write ++ t }

theorem write_withFlag (p : Locator) (k : Flag) (t : String) :
    (p.withFlag k t).write = k.write ++ t := by
  rw [write, if_pos]
  · rfl
  · cases k <;> simp [withFlag, Flag.write]

/-- With a flag in front, a text writes the same plan with that flag. -/
theorem parse_flag_append (ht : ∀ k : Flag, t.toList.head? ≠ some k.toChar)
    (hp : parse t s = .ok p) (k : Flag) :
    parse (k.write ++ t) s = .ok (p.withFlag k t) := by
  -- Either the text lists alternatives, and does so behind the flag too, or it has no plan.
  rcases exists_lists_or_hasBadPiece t with ⟨j, alternatives, hlists⟩ | ⟨-, e, hread, -⟩
  · obtain rfl := hlists.eq_none ht
    rw [hlists.parse_eq] at hp
    rw [(hlists.with_flag k).parse_eq]
    by_cases hall : alternatives.all (·.subfield.isSome) = true
    · rw [if_pos hall] at hp ⊢
      cases s with
      | none =>
          obtain rfl := Except.ok.inj hp
          rfl
      | some s => cases hp
    · rw [if_neg hall] at hp ⊢
      by_cases hany : alternatives.any (·.subfield.isSome) = true
      · rw [if_pos hany] at hp
        cases hp
      · rw [if_neg hany] at hp ⊢
        cases s with
        | none =>
            obtain rfl := Except.ok.inj hp
            rfl
        | some s =>
            dsimp only at hp ⊢
            cases hsel : Selector.parse s with
            | error e =>
                rw [hsel] at hp
                cases hp
            | ok sel =>
                rw [hsel] at hp
                obtain rfl := Except.ok.inj hp
                rfl
  · rw [parse, hread] at hp
    cases hp

end Locator

/-! ## Numbers of matches -/

namespace Query

/-- What a flag makes of matches, where `e` is an error of a single field. -/
def counted {α : Type} (k : Flag) (source : String) (kind : MatchKind) (xs : List α)
    (e : Option QueryError) : Answer α :=
  match k, xs with
  | .any, xs => ⟨.several xs, e⟩
  | .some, [] => ⟨.several [], some (.notFound source)⟩
  | .some, xs => ⟨.several xs, e⟩
  | .one, [] => ⟨.single none, some (.notFound source)⟩
  | .one, [x] => ⟨.single (some x), e⟩
  | .one, xs => ⟨.single none, some (.severalForOne source xs.length kind)⟩
  | .optional, [] => ⟨.single none, e⟩
  | .optional, [x] => ⟨.single (some x), e⟩
  | .optional, xs => ⟨.single none, some (.severalForOptional source xs.length kind)⟩

theorem settle_eq_counted {α : Type} (k : Flag) (source : String) (kind : MatchKind)
    (xs : List α) (errors : List QueryError) :
    settle k source kind xs errors = counted k source kind xs errors.head? := by
  match k, xs with
  | .any, xs => rfl
  | .some, [] => rfl
  | .some, x :: xs => rfl
  | .one, [] => rfl
  | .one, [x] => rfl
  | .one, x :: y :: xs => simp [settle, counted, shortfall, only?]
  | .optional, [] => rfl
  | .optional, [x] => rfl
  | .optional, x :: y :: xs => simp [settle, counted, shortfall, only?]

theorem flagOf_of_cardinality {l : Locator} {k : Flag} (h : l.cardinality = k.write) :
    flagOf l = k := by
  rw [flagOf, Locator.flag?, h, Flag.ofText?_write, Option.getD_some]

end Query

theorem Arg.toLocator_of_parse {t : String} {subfield : Option String} {p : Locator}
    (hp : Locator.parse t subfield = .ok p) :
    Arg.toLocator (.text t) (.ofOption .text subfield) = pure p := by
  have hparsed : Arg.parsed (.text t) subfield = pure p := by
    rw [Arg.parsed, hp, Action.ofExcept]
  cases subfield with
  | none => exact hparsed
  | some u => exact hparsed

namespace RecordRef

variable {s : Store} {r : RecordRef} {l : Locator} {k : Flag} {filters : Arg}
  {ps : List Query.Predicate} {c : Chain}

theorem all_text (r : RecordRef) (t : String) (subfield filters : Arg) :
    r.all (.text t) subfield filters =
      Arg.toLocator (.text t) subfield >>= fun l => r.allMatches l filters := rfl

theorem cardinality_ne_empty (hk : l.cardinality = k.write) : l.cardinality ≠ "" := by
  rw [hk]
  cases k <;> decide

theorem exec_evaluate_fields (hs : s.IsIndexed) (hl : l.wantField = true)
    (hk : l.cardinality = k.write) (h : filters.QuietOnFields s r ps) :
    (r.evaluate l filters).exec s = fieldAnswer s (Query.counted k l.write .fields
      (((s.scan r l.alternatives).map Prod.snd).filter (Query.meets s ps)) none) := by
  have hkeep := Query.exec_keepFields (quiet_of_mem_scan h l.alternatives)
  refine exec_evaluate_of_fields hl h ?_
  rw [← hs.matching_eq_scan] at hkeep ⊢
  rw [Query.evaluateFields, if_neg (cardinality_ne_empty hk), exec_bind_of hkeep, exec_pure,
    Query.flagOf_of_cardinality hk, Query.settle_eq_counted, List.head?_nil]

theorem exec_evaluate_values (hs : s.IsIndexed) (hl : l.wantField = false)
    (hk : l.cardinality = k.write) (hsel : ∀ a ∈ l.alternatives, a.subfield ≠ none)
    (h : filters.QuietOnValues s r c) :
    (r.evaluate l filters).exec s =
      (let answer := Query.counted k l.write .values
        ((s.scan r l.alternatives).flatMap fun m => (Query.contribution s (c.kept s) m).1)
        ((s.scan r l.alternatives).findSome? fun m => (Query.contribution s (c.kept s) m).2)
      (.ok (valueResult answer.outcome, answer.error), s)) := by
  have hscan : ∀ m ∈ s.scan r l.alternatives, m.1.subfield ≠ none := fun m hm =>
    hsel m.1 (Store.mem_scan.mp hm).1
  have hcollect := Query.exec_collectValues hscan fun m hm => keeps_of_mem_scan h hm
  refine exec_evaluate_of_values hl h ?_
  rw [← hs.matching_eq_scan] at hcollect ⊢
  rw [Query.evaluateValues, if_neg (cardinality_ne_empty hk), exec_bind_of hcollect, exec_pure,
    Query.flagOf_of_cardinality hk, Query.settle_eq_counted, List.head?_filterMap]

end RecordRef

namespace Store

variable {s : Store}

/-- What `get` answers for a locator with a flag in front is told by what `all` finds for the
locator: all of it or the only match, with an error if the flag is not met and otherwise with
the first error that querying a matched field reports. To `first`, `all` and `has` the flag
makes no difference. -/
theorem Reachable.query_counts_all (h : s.Reachable) (r : RecordRef) {t : String}
    (ht : ∀ k : Flag, t.toList.head? ≠ some k.toChar) {subfield : Option String} {p : Locator}
    (hp : Locator.parse t subfield = .ok p) (filters : Arg) :
    (p.wantField = true → ∀ ps, filters.QuietOnFields s r ps →
      ∃ fs : List FieldRef,
        (r.all (.text t) (.ofOption .text subfield) filters).exec s =
          (.ok (.record s.nextRecord), s.withNewRecord fs) ∧
        ∀ k : Flag, (r.query (.text (k.write ++ t)) (.ofOption .text subfield) filters).exec s =
          RecordRef.fieldAnswer s (Query.counted k (k.write ++ t) .fields fs none)) ∧
    (p.wantField = false → ∀ c, filters.QuietOnValues s r c →
      (∀ m ∈ s.scan r p.alternatives, ∃ sel, m.1.subfield = some sel ∧
        (m.2.query sel filters).exec s = (.ok (Query.contribution s (c.kept s) m), s)) ∧
      ∃ xs : List String,
        (r.all (.text t) (.ofOption .text subfield) filters).exec s = (.ok (.texts xs), s) ∧
        ∀ k : Flag, (r.query (.text (k.write ++ t)) (.ofOption .text subfield) filters).exec s =
          (let answer := Query.counted k (k.write ++ t) .values xs
            ((s.scan r p.alternatives).findSome? fun m => (Query.contribution s (c.kept s) m).2)
          (.ok (RecordRef.valueResult answer.outcome, answer.error), s))) ∧
    ∀ k : Flag,
      r.first (.text (k.write ++ t)) (.ofOption .text subfield) filters =
        r.first (.text t) (.ofOption .text subfield) filters ∧
      r.all (.text (k.write ++ t)) (.ofOption .text subfield) filters =
        r.all (.text t) (.ofOption .text subfield) filters ∧
      r.has (.text (k.write ++ t)) (.ofOption .text subfield) =
        r.has (.text t) (.ofOption .text subfield) := by
  have hplain := Arg.toLocator_of_parse hp
  have hflag := fun k => Arg.toLocator_of_parse (Locator.parse_flag_append ht hp k)
  refine ⟨?_, ?_, ?_⟩
  · intro hfield ps hquiet
    refine ⟨((s.scan r p.alternatives).map Prod.snd).filter (Query.meets s ps), ?_, fun k => ?_⟩
    · rw [RecordRef.all_text, hplain, pure_bind]
      exact RecordRef.exec_allMatches_fields h.isIndexed hfield hquiet
    · have hevaluate := RecordRef.exec_evaluate_fields (l := p.withFlag k t) h.isIndexed hfield
        rfl hquiet
      rw [RecordRef.query, hflag k, pure_bind, hevaluate, Locator.write_withFlag]
      rfl
  · intro hvalue c hquiet
    have hsel := (Locator.wellFormed_of_parse hp).values hvalue
    refine ⟨fun m hm => FieldRef.exec_query_of_mem_scan hquiet hsel hm,
      (s.scan r p.alternatives).flatMap fun m => (Query.contribution s (c.kept s) m).1, ?_,
      fun k => ?_⟩
    · rw [RecordRef.all_text, hplain, pure_bind]
      exact RecordRef.exec_allMatches_values h.isIndexed hvalue hsel hquiet
    · have hevaluate := RecordRef.exec_evaluate_values (l := p.withFlag k t) h.isIndexed hvalue
        rfl hsel hquiet
      rw [RecordRef.query, hflag k, pure_bind, hevaluate, Locator.write_withFlag]
      rfl
  · intro k
    have hfirst : ∀ filters : Arg,
        r.first (.text (k.write ++ t)) (.ofOption .text subfield) filters =
          r.first (.text t) (.ofOption .text subfield) filters := by
      intro filters
      rw [RecordRef.first, RecordRef.first, hflag k, hplain, pure_bind, pure_bind]
      rfl
    refine ⟨hfirst filters, ?_, ?_⟩
    · rw [RecordRef.all_text, RecordRef.all_text, hflag k, hplain, pure_bind, pure_bind]
      rfl
    · rw [RecordRef.has, RecordRef.has, hfirst]

theorem query_counts_all_people :
    people.Reachable ∧
      (RecordRef.query ⟨0⟩ (.text "!028A|028C") .null .null).exec people =
        (.ok (.null, some (.severalForOne "!028A|028C" 2 .fields)), people) ∧
      (RecordRef.query ⟨0⟩ (.text "!028A$a|028C$a!") .null
          (.callback (Builtin.suffix ".").call)).exec people =
        (.ok (.text "Jane.", some (.subfieldRepeated { code := some "a", cardinality := "!" }
          "028C/01" 2)), people) := by
  refine ⟨reachable_people, ?_, ?_⟩
  · have ht : ∀ k : Flag, "028A|028C".toList.head? ≠ some k.toChar := by
      intro k
      cases k <;> decide
    have hp : Locator.parse "028A|028C" = .ok
        { alternatives := [{ tag := "028A" }, { tag := "028C" }], wantField := true,
          source := "028A|028C" } := rfl
    obtain ⟨fs, hall, hquery⟩ := (reachable_people.query_counts_all ⟨0⟩ ht hp .null).1 rfl []
      ⟨rfl, by simp⟩
    have hfs : fs = [⟨1⟩, ⟨0⟩] := withNewRecord_injective people (congrArg Prod.snd hall.symm)
    subst hfs
    exact hquery .one
  · have ht : ∀ k : Flag, "028A$a|028C$a!".toList.head? ≠ some k.toChar := by
      intro k
      cases k <;> decide
    have hp : Locator.parse "028A$a|028C$a!" = .ok
        { alternatives :=
            [{ tag := "028A", subfield := some { code := some "a" } },
              { tag := "028C", subfield := some { code := some "a", cardinality := "!" } }],
          wantField := false, source := "028A$a|028C$a!" } := rfl
    obtain ⟨-, xs, hall, hquery⟩ := (reachable_people.query_counts_all ⟨0⟩ ht hp _).2.1 rfl _
      (quietOnValues_suffix people ⟨0⟩ ".")
    have hall' : (.ok (.texts xs), people) = ((.ok (.texts ["Jane."]), people) :
        Except Fault Datum × Store) := hall.symm
    have hxs : xs = ["Jane."] :=
      Value.texts_injective (Except.ok.inj (congrArg Prod.fst hall'))
    subst hxs
    exact hquery .one

end Store

end Biblio
