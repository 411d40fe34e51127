import Biblio.Proofs.Locator.Grammar

/-!
# Reading locators

`parse` accepts the pieces of the grammar and nothing else, and it tells three kinds of
failure apart. `Reads` says which locator or which kind of failure a text and a separate
selector come to; it is what `parse` computes.
-/

namespace Biblio

namespace Alternative

/-- A text is cut into blank characters, four characters, a condition, and the rest
between blank characters. -/
theorem exists_eq_split (text : List Char) :
    ∃ before between after, text = before ++ ((text.dropWhile Text.isBlank).take 4 ++
        (((text.dropWhile Text.isBlank).drop 4).takeWhile isOccurrenceChar ++
          (between ++
            Text.trim (((text.dropWhile Text.isBlank).drop 4).dropWhile isOccurrenceChar) ++
              after))) ∧
      (∀ c ∈ before, Text.isBlank c = true) ∧ (∀ c ∈ between, Text.isBlank c = true) ∧
      ∀ c ∈ after, Text.isBlank c = true := by
  obtain ⟨between, after, hrest, hbetween, hafter⟩ := Text.exists_eq_pad_trim
    (((text.dropWhile Text.isBlank).drop 4).dropWhile isOccurrenceChar)
  refine ⟨text.takeWhile Text.isBlank, between, after, ?_, ?_, hbetween, hafter⟩
  · rw [← hrest, List.takeWhile_append_dropWhile, List.take_append_drop,
      List.takeWhile_append_dropWhile]
  · intro c hc
    exact List.mem_takeWhile_imp hc

/-- A text that is read is a piece. -/
theorem isPiece_of_parse {text : List Char} {a : Alternative} (h : parse text = .ok a) :
    IsPiece text a := by
  obtain ⟨before, between, after, htext, hbefore, hbetween, hafter⟩ := exists_eq_split text
  unfold parse at h
  simp only at h
  split at h
  · simp at h
  · next hform =>
    obtain ⟨htag, hline⟩ := by simpa using hform
    split at h
    · simp at h
    · next m hm =>
      have hcondition := (OccurrenceMatcher.read?_eq_some_iff _ m).mp hm
      split at h
      · next hrest =>
        obtain rfl := by simpa using h
        rw [hrest] at htext
        have hpiece := IsPiece.intro hbefore htag hcondition hbetween .nil hafter
        rwa [← htext] at hpiece
      · next c cs hrest =>
        cases hread : Selector.parse (String.ofList (c :: cs)) with
        | error e =>
            rw [hread] at h
            cases h
        | ok s =>
            rw [hread] at h
            cases h
            have hend := Text.endsIn_trim
              (((text.dropWhile Text.isBlank).drop 4).dropWhile isOccurrenceChar)
            rw [hrest, ← List.singleton_append, Text.endsIn_append _ (by simp)] at hend
            have harg := (Selector.parse_eq_ok_iff _ s).mp hread
            rw [String.toList_ofList, ← Selector.isText_chomp_iff, Text.chomp_eq_self hend] at harg
            rw [hrest] at htext
            have hpiece := IsPiece.intro hbefore htag hcondition hbetween (.cons harg) hafter
            rwa [← htext] at hpiece
      · simp at h

/-- A piece is read as what it stands for. -/
theorem parse_of_isPiece {text : List Char} {a : Alternative} (h : IsPiece text a) :
    parse text = .ok a := by
  rcases h with ⟨hbefore, htag, hcondition, hbetween, hsuffix, hafter⟩
  rename_i before tag condition between suffix after m subfield
  rcases (Tag.isTag_iff tag).mp htag with ⟨p, q, r, d, rfl, hp, -⟩
  have hstart := Tag.isBlank_of_isDigit hp
  have hstop := startsIn_isOccurrenceChar hbetween hsuffix hafter
  have hfront : (before ++ ([p, q, r, d] ++
      (condition ++ (between ++ suffix ++ after)))).dropWhile Text.isBlank =
        p :: q :: r :: d :: (condition ++ (between ++ suffix ++ after)) :=
    Text.dropWhile_append_of_startsIn hbefore hstart
  have hrun := Text.takeWhile_append_of_startsIn hcondition.isOccurrenceChar hstop
  have hrest := Text.dropWhile_append_of_startsIn hcondition.isOccurrenceChar hstop
  have htrim : Text.trim (between ++ suffix ++ after) = suffix :=
    Text.trim_pad hbetween hafter hsuffix.startsIn_isBlank
      (Text.endsIn_of_forall hsuffix.isBlank_of_mem)
  have hline : suffix.contains '\n' = false := by
    rw [List.contains_eq_mem, decide_eq_false_iff_not]
    intro hmem
    exact absurd (hsuffix.isBlank_of_mem _ hmem) (by decide)
  have hread := (OccurrenceMatcher.read?_eq_some_iff condition m).mpr hcondition
  unfold parse
  simp only [hfront, List.take_succ_cons, List.take_zero, List.drop_succ_cons, List.drop_zero,
    hrun, hrest, htrim, htag, hline, hread]
  cases hsuffix with
  | nil => rfl
  | cons hsel =>
      have hparse := Selector.parse_of_isText hsel
      cases hsel with
      | intro hc k placeholder =>
          simp only [hparse]
          rfl

/-- A piece has a tag, so it is not blank. -/
theorem not_isPiece_of_blank {text : List Char} (h : Text.blank text = true) (a : Alternative) :
    ¬IsPiece text a := by
  rintro ⟨-, htag, -, -, -, -⟩
  rcases (Tag.isTag_iff _).mp htag with ⟨p, q, r, d, rfl, hp, -⟩
  have hblank : Text.isBlank p = true := List.all_eq_true.mp h p (by simp)
  rw [Tag.isBlank_of_isDigit hp] at hblank
  simp at hblank

end Alternative

/-! ## Kinds of failure -/

namespace LocatorError

inductive Kind where
  | malformed
  | mixed
  | duplicate
  deriving DecidableEq, Repr

def kind : LocatorError → Kind
  | duplicate _ _ => .duplicate
  | mixed _ => .mixed
  | _ => .malformed

end LocatorError

theorem Selector.kind_of_parse {text : String} {e : LocatorError} (h : parse text = .error e) :
    e.kind = .malformed := by
  unfold parse at h
  split at h
  · simp at h
  · obtain rfl := by simpa using h
    rfl

theorem Alternative.kind_of_parse {text : List Char} {e : LocatorError}
    (h : parse text = .error e) : e.kind = .malformed := by
  unfold parse at h
  simp only at h
  split at h
  · obtain rfl := by simpa using h
    rfl
  · split at h
    · obtain rfl := by simpa using h
      rfl
    · split at h
      · simp at h
      · next c cs _ =>
        cases hread : Selector.parse (String.ofList (c :: cs)) with
        | error e' =>
            rw [hread] at h
            obtain rfl : e' = e := by simpa [bind, Except.bind] using h
            exact Selector.kind_of_parse hread
        | ok s =>
            rw [hread] at h
            cases h
      · obtain rfl := by simpa using h
        rfl

/-! ## Lists of pieces -/

/-- A list is read when each of its elements is. -/
theorem mapM_eq_ok_iff {ε α β : Type} (f : α → Except ε β) (xs : List α) (ys : List β) :
    xs.mapM f = .ok ys ↔ List.Forall₂ (fun x y => f x = .ok y) xs ys := by
  induction xs generalizing ys with
  | nil => cases ys <;> simp [pure, Except.pure]
  | cons x xs ih =>
      rw [List.mapM_cons, List.forall₂_cons_left_iff]
      cases hx : f x with
      | error e => simp [bind, Except.bind]
      | ok y =>
          simp only [← ih, Except.ok.injEq, bind, Except.bind, pure, Except.pure]
          cases xs.mapM f with
          | error e => simp
          | ok zs => simp [eq_comm]

/-- A list that is not read has an element that is not. -/
theorem exists_of_mapM_eq_error {ε α β : Type} {f : α → Except ε β} {xs : List α} {e : ε}
    (h : xs.mapM f = .error e) : ∃ x ∈ xs, f x = .error e := by
  induction xs with
  | nil => simp [pure, Except.pure] at h
  | cons x xs ih =>
      rw [List.mapM_cons] at h
      cases hx : f x with
      | error e' =>
          obtain rfl : e' = e := by simpa [hx, bind, Except.bind] using h
          exact ⟨x, by simp, hx⟩
      | ok y =>
          cases hxs : xs.mapM f with
          | error e' =>
              obtain rfl : e' = e := by simpa [hx, hxs, bind, Except.bind] using h
              rcases ih hxs with ⟨z, hz, hfz⟩
              exact ⟨z, by simp [hz], hfz⟩
          | ok ys => simp [hx, hxs, bind, Except.bind, pure, Except.pure] at h

namespace Locator

def Lists (t : String) (k : Option Flag) (alternatives : List Alternative) : Prop :=
  ∃ pieces, IsCut t.toList k pieces ∧ List.Forall₂ Alternative.IsPiece pieces alternatives

def HasBadPiece (t : String) : Prop :=
  ∃ k pieces, IsCut t.toList k pieces ∧ ∃ p ∈ pieces, ∀ a, ¬Alternative.IsPiece p a

theorem Lists.ne_nil {t : String} {k : Option Flag} {alternatives : List Alternative}
    (h : Lists t k alternatives) : alternatives ≠ [] := by
  rcases h with ⟨pieces, hcut, hpieces⟩
  rintro rfl
  exact hcut.ne_nil (List.forall₂_nil_right_iff.mp hpieces)

theorem forall₂_isPiece_iff (pieces : List (List Char)) (alternatives : List Alternative) :
    List.Forall₂ Alternative.IsPiece pieces alternatives ↔
      pieces.mapM Alternative.parse = .ok alternatives := by
  rw [mapM_eq_ok_iff]
  constructor <;> intro h <;> refine h.imp ?_
  · exact fun _ _ => Alternative.parse_of_isPiece
  · exact fun _ _ => Alternative.isPiece_of_parse

theorem splitBars_of_blank {body : List Char} (h : Text.blank body = true) :
    splitBars body = [body] := by
  rw [splitBars_eq_splitOn]
  refine List.splitOn_eq_singleton ?_
  intro hmem
  exact absurd (List.all_eq_true.mp h '|' hmem) (by decide)

theorem readAlternatives_of_lists {t : String} {k : Option Flag}
    {alternatives : List Alternative} (h : Lists t k alternatives) :
    readAlternatives t = .ok (Flag.text k, alternatives) := by
  rcases h with ⟨pieces, hcut, hpieces⟩
  obtain ⟨hflag, hbars⟩ := hcut.split_eq
  have hblank : Text.blank (['|'].intercalate pieces) = false := by
    rw [Bool.eq_false_iff]
    intro hblank
    rw [splitBars_of_blank hblank] at hbars
    rw [← hbars, List.forall₂_cons_left_iff] at hpieces
    rcases hpieces with ⟨a, _, ha, -⟩
    exact Alternative.not_isPiece_of_blank hblank a ha
  have hread := (forall₂_isPiece_iff pieces alternatives).mp hpieces
  simp [readAlternatives, hflag, hbars, hblank, hread, bind, Except.bind, pure, Except.pure]

/-- A text lists alternatives or has a bad piece, and is read accordingly. -/
theorem exists_lists_or_hasBadPiece (t : String) :
    (∃ k alternatives, Lists t k alternatives) ∨
      HasBadPiece t ∧ ∃ e, readAlternatives t = .error e ∧ e.kind = .malformed := by
  obtain ⟨k, body, hflag, hcut⟩ := exists_isCut t.toList
  cases hblank : Text.blank body with
  | true =>
      right
      refine ⟨⟨k, _, hcut, body, by simp [splitBars_of_blank hblank],
        Alternative.not_isPiece_of_blank hblank⟩, .empty t, ?_, rfl⟩
      simp [readAlternatives, hflag, hblank, bind, Except.bind, throw, throwThe,
        MonadExceptOf.throw]
  | false =>
      cases hread : (splitBars body).mapM Alternative.parse with
      | ok alternatives =>
          exact .inl ⟨k, alternatives, _, hcut, (forall₂_isPiece_iff _ _).mpr hread⟩
      | error e =>
          rcases exists_of_mapM_eq_error hread with ⟨p, hp, hparse⟩
          right
          refine ⟨⟨k, _, hcut, p, hp, ?_⟩, e, ?_, Alternative.kind_of_parse hparse⟩
          · intro a ha
            rw [Alternative.parse_of_isPiece ha] at hparse
            cases hparse
          · simp [readAlternatives, hflag, hblank, hread, bind, Except.bind]

theorem HasBadPiece.not_lists {t : String} (h : HasBadPiece t) (k : Option Flag)
    (alternatives : List Alternative) : ¬Lists t k alternatives := by
  rcases h with ⟨j, pieces, hcut, p, hp, hbad⟩
  rintro ⟨pieces', hcut', hpieces⟩
  obtain rfl := hcut.pieces_unique hcut'
  rcases List.getElem_of_mem hp with ⟨i, hi, rfl⟩
  exact hbad _ (hpieces.get hi (hpieces.length_eq ▸ hi))

/-! ## Plans -/

/-- What a text and a separate selector come to: a plan or a kind of failure. -/
inductive Reads (t : String) : Option String → Except LocatorError.Kind Locator → Prop
  | malformed (s : Option String) (hbad : HasBadPiece t) : Reads t s (.error .malformed)
  | duplicate {k : Option Flag} {alternatives : List Alternative} (s : String)
      (hlists : Lists t k alternatives) (hall : ∀ a ∈ alternatives, a.subfield ≠ none) :
      Reads t (some s) (.error .duplicate)
  | values {k : Option Flag} {alternatives : List Alternative}
      (hlists : Lists t k alternatives) (hall : ∀ a ∈ alternatives, a.subfield ≠ none) :
      Reads t none (.ok
        { alternatives, wantField := false, cardinality := Flag.text k, source := t })
  | mixed {k : Option Flag} {alternatives : List Alternative} (s : Option String)
      (hlists : Lists t k alternatives) (hsome : ∃ a ∈ alternatives, a.subfield ≠ none)
      (hnone : ∃ a ∈ alternatives, a.subfield = none) : Reads t s (.error .mixed)
  | fields {k : Option Flag} {alternatives : List Alternative}
      (hlists : Lists t k alternatives) (hnone : ∀ a ∈ alternatives, a.subfield = none) :
      Reads t none (.ok
        { alternatives, wantField := true, cardinality := Flag.text k, source := t })
  | selected {k : Option Flag} {alternatives : List Alternative} {s : String} {sel : Selector}
      (hlists : Lists t k alternatives) (hnone : ∀ a ∈ alternatives, a.subfield = none)
      (hsel : Selector.IsArgument s.toList sel) :
      Reads t (some s) (.ok
        { alternatives := alternatives.map fun a => { a with subfield := some sel },
          wantField := false, cardinality := Flag.text k, source := t })
  | badSelector {k : Option Flag} {alternatives : List Alternative} {s : String}
      (hlists : Lists t k alternatives) (hnone : ∀ a ∈ alternatives, a.subfield = none)
      (hsel : ∀ sel, ¬Selector.IsArgument s.toList sel) :
      Reads t (some s) (.error .malformed)

/-- The plan of listed alternatives, or what is wrong with them. -/
theorem Lists.parse_eq {t : String} {k : Option Flag} {alternatives : List Alternative}
    (h : Lists t k alternatives) (s : Option String) :
    parse t s =
      if alternatives.all (·.subfield.isSome) then
        match s with
        | none => .ok
            { alternatives, wantField := false, cardinality := Flag.text k, source := t }
        | some s => .error (.duplicate t (Text.quote s))
      else if alternatives.any (·.subfield.isSome) then .error (.mixed t)
      else
        match s with
        | none => .ok
            { alternatives, wantField := true, cardinality := Flag.text k, source := t }
        | some s => (Selector.parse s).map fun sel =>
            { alternatives := alternatives.map fun a => { a with subfield := some sel },
              wantField := false, cardinality := Flag.text k, source := t } := by
  rw [parse, readAlternatives_of_lists h]
  cases s with
  | none => rfl
  | some s =>
      simp only [bind, Except.bind, throw, throwThe, MonadExceptOf.throw]
      cases Selector.parse s <;> rfl

variable {alternatives : List Alternative}

theorem all_isSome_iff :
    alternatives.all (·.subfield.isSome) = true ↔ ∀ a ∈ alternatives, a.subfield ≠ none := by
  simp [Option.isSome_iff_ne_none]

theorem any_isSome_iff :
    alternatives.any (·.subfield.isSome) = true ↔ ∃ a ∈ alternatives, a.subfield ≠ none := by
  simp [Option.isSome_iff_ne_none]

/-- Alternatives without selectors are not taken for ones with selectors, since there is
at least one. -/
theorem Lists.isSome_eq_false {t : String} {k : Option Flag} (h : Lists t k alternatives)
    (hnone : ∀ a ∈ alternatives, a.subfield = none) :
    alternatives.all (·.subfield.isSome) = false ∧
      alternatives.any (·.subfield.isSome) = false := by
  obtain ⟨a, as, rfl⟩ := List.exists_cons_of_ne_nil h.ne_nil
  rw [Bool.eq_false_iff, Bool.eq_false_iff, ne_eq, ne_eq, all_isSome_iff, any_isSome_iff]
  constructor
  · intro hall
    exact hall a (by simp) (hnone a (by simp))
  · rintro ⟨b, hb, hsome⟩
    exact hsome (hnone b hb)

/-- What holds of a text is what it is read as. -/
theorem Reads.mapError_parse {t : String} {s : Option String}
    {r : Except LocatorError.Kind Locator} (h : Reads t s r) :
    (parse t s).mapError LocatorError.kind = r := by
  cases h with
  | malformed s hbad =>
      rcases exists_lists_or_hasBadPiece t with ⟨k, alternatives, hlists⟩ | ⟨-, e, hread, hkind⟩
      · exact absurd hlists (hbad.not_lists k alternatives)
      · rw [parse, hread, ← hkind]
        rfl
  | duplicate s hlists hall =>
      rw [hlists.parse_eq, if_pos (all_isSome_iff.mpr hall)]
      rfl
  | values hlists hall =>
      rw [hlists.parse_eq, if_pos (all_isSome_iff.mpr hall)]
      rfl
  | @mixed k alternatives s hlists hsome hnone =>
      have hall : ¬∀ a ∈ alternatives, a.subfield ≠ none := by
        rcases hnone with ⟨a, ha, hnone⟩
        exact fun hall => hall a ha hnone
      rw [hlists.parse_eq, if_neg (mt all_isSome_iff.mp hall), if_pos (any_isSome_iff.mpr hsome)]
      rfl
  | fields hlists hnone =>
      rcases hlists.isSome_eq_false hnone with ⟨hall, hany⟩
      rw [hlists.parse_eq, hall, hany]
      rfl
  | selected hlists hnone hsel =>
      rcases hlists.isSome_eq_false hnone with ⟨hall, hany⟩
      rw [hlists.parse_eq, hall, hany]
      simp only [(Selector.parse_eq_ok_iff _ _).mpr hsel]
      rfl
  | badSelector hlists hnone hsel =>
      rcases hlists.isSome_eq_false hnone with ⟨hall, hany⟩
      rw [hlists.parse_eq, hall, hany]
      simp only [Selector.parse_of_not_isArgument hsel]
      rfl

/-- Every text comes to something with every separate selector. -/
theorem exists_reads (t : String) (s : Option String) : ∃ r, Reads t s r := by
  rcases exists_lists_or_hasBadPiece t with ⟨k, alternatives, hlists⟩ | ⟨hbad, -⟩
  · by_cases hall : ∀ a ∈ alternatives, a.subfield ≠ none
    · cases s with
      | none => exact ⟨_, .values hlists hall⟩
      | some s => exact ⟨_, .duplicate s hlists hall⟩
    · by_cases hsome : ∃ a ∈ alternatives, a.subfield ≠ none
      · exact ⟨_, .mixed s hlists hsome (by simpa using hall)⟩
      · have hnone : ∀ a ∈ alternatives, a.subfield = none := by simpa using hsome
        cases s with
        | none => exact ⟨_, .fields hlists hnone⟩
        | some s =>
            by_cases hsel : ∃ sel, Selector.IsArgument s.toList sel
            · rcases hsel with ⟨sel, hsel⟩
              exact ⟨_, .selected hlists hnone hsel⟩
            · exact ⟨_, .badSelector hlists hnone (not_exists.mp hsel)⟩
  · exact ⟨_, .malformed s hbad⟩

theorem reads_parse (t : String) (s : Option String) :
    Reads t s ((parse t s).mapError LocatorError.kind) := by
  obtain ⟨r, hreads⟩ := exists_reads t s
  rwa [hreads.mapError_parse]

/-- `parse` accepts the grammar of locators, and it tells all failures apart. -/
theorem reads_iff (t : String) (s : Option String) (r : Except LocatorError.Kind Locator) :
    Reads t s r ↔ (parse t s).mapError LocatorError.kind = r := by
  constructor
  · exact Reads.mapError_parse
  · rintro rfl
    exact reads_parse t s

end Locator

end Biblio
