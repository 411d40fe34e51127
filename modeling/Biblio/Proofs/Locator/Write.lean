import Biblio.Proofs.Locator.Read

/-!
# Writing locators

A well-formed plan is written as its flag and its alternatives between bars, and it is
read back unchanged but for the source, which is now the written form. Conversely only
well-formed plans are read.
-/

namespace Biblio

/-! ## Well-formed parts -/

namespace OccurrenceMatcher

/-- Only the mode `exact` has a value, of two digits. -/
def WellFormed (m : OccurrenceMatcher) : Prop :=
  if m.mode = .exact then Tag.isOccurrence m.value.toList = true else m.value = ""

instance : DecidablePred WellFormed := fun m =>
  inferInstanceAs
    (Decidable (if m.mode = .exact then Tag.isOccurrence m.value.toList = true else m.value = ""))

variable {m : OccurrenceMatcher}

theorem IsText.wellFormed {cs : List Char} (h : IsText cs m) : m.WellFormed := by
  cases h with
  | exact hds => simpa [WellFormed] using hds
  | _ => simp [WellFormed]

theorem WellFormed.isText_write (h : m.WellFormed) : IsText m.write.toList m := by
  obtain ⟨mode, value⟩ := m
  cases mode with
  | any =>
      obtain rfl : value = "" := by simpa [WellFormed] using h
      exact .any
  | none =>
      obtain rfl : value = "" := by simpa [WellFormed] using h
      exact .none
  | some =>
      obtain rfl : value = "" := by simpa [WellFormed] using h
      exact .some
  | exact =>
      have hvalue : Tag.isOccurrence value.toList = true := by simpa [WellFormed] using h
      have htext := IsText.exact hvalue
      rw [String.ofList_toList] at htext
      simpa [write] using htext

theorem IsText.bar_notMem {cs : List Char} (h : IsText cs m) : '|' ∉ cs := by
  cases h with
  | exact hds => simpa using Tag.notMem_of_isOccurrence (by decide) hds
  | _ => decide

end OccurrenceMatcher

namespace Selector

structure WellFormed (s : Selector) : Prop where
  code : ∃ c, Payload.isCode c = true ∧ s.code = some (String.singleton c)
  cardinality : ∃ k, s.cardinality = Flag.text k

variable {s : Selector}

theorem IsText.wellFormed {cs : List Char} (h : IsText cs s) : s.WellFormed := by
  rcases h with ⟨hc, k, placeholder⟩
  exact ⟨⟨_, hc, rfl⟩, k, rfl⟩

theorem IsArgument.wellFormed {cs : List Char} (h : IsArgument cs s) : s.WellFormed := by
  rcases h with h | ⟨body, -, h⟩
  · exact h.wellFormed
  · exact h.wellFormed

theorem WellFormed.isText_write (h : s.WellFormed) : IsText s.write.toList s := by
  rcases h with ⟨⟨c, hc, hcode⟩, k, hk⟩
  obtain ⟨code, cardinality, placeholder⟩ := s
  obtain rfl : code = some (String.singleton c) := hcode
  obtain rfl : cardinality = Flag.text k := hk
  have htext := IsText.intro hc k placeholder
  cases placeholder <;> simpa [write] using htext

theorem IsText.bar_notMem {cs : List Char} (h : IsText cs s) : '|' ∉ cs := by
  intro hbar
  rcases h.of_mem hbar with hcode | ⟨k, hk⟩ | hunderscore
  · exact absurd hcode (by decide)
  · cases k <;> exact absurd hk (by decide)
  · exact absurd hunderscore (by decide)

end Selector

/-! ## Well-formed alternatives -/

namespace Alternative

structure WellFormed (a : Alternative) : Prop where
  tag : Tag.isTag a.tag.toList = true
  occurrence : a.occurrence.WellFormed
  subfield : ∀ s ∈ a.subfield, s.WellFormed

variable {a : Alternative}

theorem IsPiece.wellFormed {cs : List Char} (h : IsPiece cs a) : a.WellFormed := by
  rcases h with ⟨-, htag, hcondition, -, hsuffix, -⟩
  refine ⟨by simpa using htag, hcondition.wellFormed, ?_⟩
  cases hsuffix with
  | nil => simp
  | cons hsel => simpa using hsel.wellFormed

/-- The written form is a tag, a condition and what is behind, without blank characters. -/
theorem WellFormed.exists_toList_write (h : a.WellFormed) :
    ∃ condition suffix, a.write.toList = a.tag.toList ++ (condition ++ suffix) ∧
      OccurrenceMatcher.IsText condition a.occurrence ∧ IsSuffix suffix a.subfield := by
  have hcondition := h.occurrence.isText_write
  have hselector := h.subfield
  obtain ⟨tag, occurrence, subfield⟩ := a
  cases subfield with
  | none => exact ⟨_, [], by simp [write], hcondition, .nil⟩
  | some s =>
      exact ⟨_, '$' :: s.write.toList, by simp [write], hcondition,
        .cons (hselector s rfl).isText_write⟩

theorem WellFormed.isPiece_write (h : a.WellFormed) : IsPiece a.write.toList a := by
  obtain ⟨condition, suffix, hwrite, hcondition, hsuffix⟩ := h.exists_toList_write
  have hblank : ∀ c ∈ ([] : List Char), Text.isBlank c = true := by simp
  have hpiece := IsPiece.intro hblank h.tag hcondition hblank hsuffix hblank
  rw [String.ofList_toList] at hpiece
  simpa [hwrite] using hpiece

theorem IsSuffix.bar_notMem {cs : List Char} {subfield : Option Selector}
    (h : IsSuffix cs subfield) : '|' ∉ cs := by
  cases h with
  | nil => simp
  | cons hsel => simpa using hsel.bar_notMem

theorem WellFormed.bar_notMem (h : a.WellFormed) : '|' ∉ a.write.toList := by
  obtain ⟨condition, suffix, hwrite, hcondition, hsuffix⟩ := h.exists_toList_write
  have htag : '|' ∉ a.tag.toList := Tag.notMem_of_isTag (by decide) (by decide) h.tag
  simp [hwrite, htag, hcondition.bar_notMem, hsuffix.bar_notMem]

/-- The written form starts with a digit, which is no flag. -/
theorem WellFormed.exists_eq_cons (h : a.WellFormed) :
    ∃ c cs, a.write.toList = c :: cs ∧ ∀ k : Flag, c ≠ k.toChar := by
  obtain ⟨condition, suffix, hwrite, -, -⟩ := h.exists_toList_write
  obtain ⟨p, q, r, d, hchars, hp, -⟩ := (Tag.isTag_iff _).mp h.tag
  refine ⟨p, _, by rw [hwrite, hchars]; rfl, ?_⟩
  rintro k rfl
  cases k <;> exact absurd hp (by decide)

end Alternative

/-! ## Well-formed plans -/

namespace Locator

structure WellFormed (l : Locator) : Prop where
  ne_nil : l.alternatives ≠ []
  alternatives : ∀ a ∈ l.alternatives, a.WellFormed
  fields : l.wantField = true → ∀ a ∈ l.alternatives, a.subfield = none
  values : l.wantField = false → ∀ a ∈ l.alternatives, a.subfield ≠ none
  cardinality : ∃ k, l.cardinality = Flag.text k

theorem Lists.wellFormed {t : String} {k : Option Flag} {alternatives : List Alternative}
    (h : Lists t k alternatives) : ∀ a ∈ alternatives, a.WellFormed := by
  rcases h with ⟨pieces, -, hpieces⟩
  intro a ha
  rcases List.getElem_of_mem ha with ⟨i, hi, rfl⟩
  exact (hpieces.get (hpieces.length_eq ▸ hi) hi).wellFormed

/-- A plan that is read is well formed. -/
theorem wellFormed_of_parse {t : String} {s : Option String} {l : Locator}
    (h : parse t s = .ok l) : l.WellFormed := by
  have hreads := reads_parse t s
  rw [h] at hreads
  change Reads t s (.ok l) at hreads
  cases hreads with
  | @values k _ hlists hall =>
      exact ⟨hlists.ne_nil, hlists.wellFormed, by simp, fun _ => hall, k, rfl⟩
  | @fields k _ hlists hnone =>
      exact ⟨hlists.ne_nil, hlists.wellFormed, fun _ => hnone, by simp, k, rfl⟩
  | @selected k _ _ _ hlists _ hsel =>
      refine ⟨by simpa using hlists.ne_nil, ?_, by simp, by simp, k, rfl⟩
      intro a ha
      rcases List.mem_map.mp ha with ⟨b, hb, rfl⟩
      have hwf := hlists.wellFormed b hb
      exact ⟨hwf.tag, hwf.occurrence, by simpa using hsel.wellFormed⟩

namespace WellFormed

variable {l : Locator}

theorem isCut_writePlan (h : l.WellFormed) {k : Option Flag} (hk : l.cardinality = Flag.text k) :
    IsCut l.writePlan.toList k (l.alternatives.map fun a => a.write.toList) where
  text_eq := by simp [writePlan, hk, Function.comp_def]
  head?_ne := by
    rintro rfl j
    obtain ⟨a, as, hcons⟩ := List.exists_cons_of_ne_nil h.ne_nil
    obtain ⟨c, cs, hwrite, hc⟩ := (h.alternatives a (by simp [hcons])).exists_eq_cons
    cases as <;> simpa [writePlan, hk, Flag.text, hcons, hwrite] using hc j
  ne_nil := by simpa using h.ne_nil
  bar_notMem := by
    intro p hp
    rcases List.mem_map.mp hp with ⟨a, ha, rfl⟩
    exact (h.alternatives a ha).bar_notMem

/-- The written form of a plan lists the alternatives of the plan. -/
theorem lists_writePlan (h : l.WellFormed) {k : Option Flag} (hk : l.cardinality = Flag.text k) :
    Lists l.writePlan k l.alternatives := by
  refine ⟨_, h.isCut_writePlan hk, ?_⟩
  rw [List.forall₂_map_left_iff, List.forall₂_same]
  intro a ha
  exact (h.alternatives a ha).isPiece_write

/-- The written form of a plan is read as the plan, with the written form as source. -/
theorem parse_writePlan (h : l.WellFormed) :
    parse l.writePlan = .ok { l with source := l.writePlan } := by
  obtain ⟨k, hk⟩ := h.cardinality
  have hlists := h.lists_writePlan hk
  have hparse : (parse l.writePlan).mapError LocatorError.kind =
      .ok { l with source := l.writePlan } := by
    cases hwant : l.wantField with
    | true =>
        rw [(Reads.fields hlists (h.fields hwant)).mapError_parse, ← hk, ← hwant]
    | false =>
        rw [(Reads.values hlists (h.values hwant)).mapError_parse, ← hk, ← hwant]
  cases hread : parse l.writePlan with
  | error e => simp [hread, Except.mapError] at hparse
  | ok l' => simpa [hread, Except.mapError] using hparse

/-- A plan stays well formed with another flag and another source. -/
theorem with_cardinality (h : l.WellFormed) (k : Option Flag) (source : String) :
    ({ l with cardinality := Flag.text k, source } : Locator).WellFormed :=
  ⟨h.ne_nil, h.alternatives, h.fields, h.values, k, rfl⟩

end WellFormed

/-- Reading undoes writing on well-formed plans, and all plans that are read are well
formed, so their alternatives survive being written and read again. -/
theorem parse_writePlan_inverse :
    (∀ l : Locator, l.WellFormed →
      parse l.writePlan = .ok { l with source := l.writePlan } ∧
        (l.source = "" → l.write = l.writePlan)) ∧
    ∀ (t : String) (s : Option String) (l : Locator), parse t s = .ok l →
      l.WellFormed ∧ ∃ l' : Locator,
        parse ("|".intercalate (l.alternatives.map Alternative.write)) = .ok l' ∧
          l'.alternatives = l.alternatives ∧ l'.wantField = l.wantField := by
  constructor
  · intro l hl
    exact ⟨hl.parse_writePlan, fun hsource => by simp [write, hsource]⟩
  · intro t s l hparse
    have hl := wellFormed_of_parse hparse
    have hagain := (hl.with_cardinality none "").parse_writePlan
    simp only [writePlan, Flag.text, String.empty_append] at hagain
    exact ⟨hl, _, hagain, rfl, rfl⟩

def names : Locator :=
  { alternatives :=
      [ { tag := "028A", subfield := some { code := some "a" } },
        { tag := "028C", occurrence := { mode := .none },
          subfield := some { code := some "9", cardinality := "!" } },
        { tag := "029F", occurrence := { mode := .some },
          subfield := some { code := some "x", placeholder := true } },
        { tag := "045@", occurrence := { mode := .exact, value := "07" },
          subfield := some { code := some "Z", cardinality := "*", placeholder := true } } ],
    wantField := false, cardinality := "+" }

theorem wellFormed_names : names.WellFormed where
  ne_nil := by decide
  alternatives := by
    intro a ha
    simp only [names, List.mem_cons, List.not_mem_nil, or_false] at ha
    rcases ha with rfl | rfl | rfl | rfl
    · refine ⟨by decide, by decide, ?_⟩
      rintro _ ⟨⟩
      exact ⟨⟨'a', by decide, rfl⟩, none, rfl⟩
    · refine ⟨by decide, by decide, ?_⟩
      rintro _ ⟨⟩
      exact ⟨⟨'9', by decide, rfl⟩, some .one, rfl⟩
    · refine ⟨by decide, by decide, ?_⟩
      rintro _ ⟨⟩
      exact ⟨⟨'x', by decide, rfl⟩, none, rfl⟩
    · refine ⟨by decide, by decide, ?_⟩
      rintro _ ⟨⟩
      exact ⟨⟨'Z', by decide, rfl⟩, some .any, rfl⟩
  fields := by decide
  values := by decide
  cardinality := ⟨some .some, rfl⟩

theorem parse_writePlan_names :
    names.WellFormed ∧
      parse "+028A$a|028C/$9!|029F/xx$x_|045@/07$Z*_" =
        .ok { names with source := "+028A$a|028C/$9!|029F/xx$x_|045@/07$Z*_" } ∧
      ∃ l, parse "028A$a|028C/$9!|029F/xx$x_|045@/07$Z*_" = .ok l ∧
        l.alternatives = names.alternatives := by
  have hplan : names.writePlan = "+028A$a|028C/$9!|029F/xx$x_|045@/07$Z*_" := by decide
  have hbody : "|".intercalate (names.alternatives.map Alternative.write) =
      "028A$a|028C/$9!|029F/xx$x_|045@/07$Z*_" := by decide
  have hparse := (parse_writePlan_inverse.1 names wellFormed_names).1
  obtain ⟨-, l, hagain, halternatives, -⟩ := parse_writePlan_inverse.2 _ none _ hparse
  rw [hplan] at hparse
  rw [hbody] at hagain
  exact ⟨wellFormed_names, hparse, l, hagain, halternatives⟩

end Locator

end Biblio
