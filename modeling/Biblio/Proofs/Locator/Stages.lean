import Biblio.Proofs.Locator.Read
import Biblio.Request.Argument

/-!
# Locators in stages

A text can be read as a locator first and get a separate selector later. The plan keeps the text
that it was read from, so that the later stage finds the same alternatives again, and what is
wrong with the text shows before a separate selector is looked at. So it makes no difference
whether a text and a selector are read in two stages or at once, and a plan that was read is
read as itself.
-/

namespace Biblio

namespace Locator

variable {t : String} {subfield : Option String} {l : Locator} {e : LocatorError}

/-! ## The text of a plan -/

theorem parse_empty (subfield : Option String) : parse "" subfield = .error (.empty "") := rfl

/-- A plan keeps the text that it was read from. -/
theorem source_of_parse (h : parse t subfield = .ok l) : l.source = t := by
  have hreads := reads_parse t subfield
  rw [h] at hreads
  change Reads t subfield (.ok l) at hreads
  cases hreads with
  | values => rfl
  | fields => rfl
  | selected => rfl

/-- What is written of a plan that was read is its text, since no plan has the empty one. -/
theorem write_of_parse (h : parse t subfield = .ok l) : l.write = t := by
  have hne : t ≠ "" := by
    rintro rfl
    rw [parse_empty] at h
    cases h
  rw [write, source_of_parse h, if_pos hne]

/-! ## Separate selectors -/

/-- A text that is refused alone is refused beside a selector, and for the same reason. -/
theorem parse_some_of_error (h : parse t = .error e) (s : String) :
    parse t (some s) = .error e := by
  rcases exists_lists_or_hasBadPiece t with ⟨k, alternatives, hlists⟩ | ⟨-, e', hread, -⟩
  · -- All pieces are well formed, so that what is wrong can only be that they are mixed.
    rw [hlists.parse_eq] at h ⊢
    split at h
    · cases h
    · split at h
      · next hall hany =>
        rw [if_neg hall, if_pos hany]
        exact h
      · cases h
  · rw [parse, hread] at h ⊢
    exact h

/-- A selector for a plan comes to what it comes to beside the text of the plan. -/
theorem refine_some_of_parse (h : parse t = .ok l) (s : String) :
    l.refine (some s) = parse t (some s) := by
  have hwrite := write_of_parse h
  have hreads := reads_parse t none
  rw [h] at hreads
  change Reads t none (.ok l) at hreads
  cases hreads with
  | values hlists hall =>
      -- The plan wants values, so that it refuses the selector without being read again.
      rw [refine, hwrite, hlists.parse_eq, if_pos (all_isSome_iff.mpr hall)]
      rfl
  | fields =>
      rw [refine, hwrite]
      rfl

end Locator

/-! ## Arguments -/

namespace Action

theorem exec_ofExcept {ε α : Type} (fault : ε → Fault) (x : Except ε α) (s : Store) :
    (ofExcept fault x).exec s = (x.mapError fault, s) := by
  cases x <;> rfl

end Action

namespace Arg

theorem exec_toLocator_text (t : String) (subfield : Option String) (s : Store) :
    (toLocator (.text t) (.ofOption .text subfield)).exec s =
      ((Locator.parse t subfield).mapError .locator, s) := by
  rw [← Action.exec_ofExcept]
  cases subfield <;> rfl

theorem exec_toLocator_locator (l : Locator) (subfield : Option String) (s : Store) :
    (toLocator (.locator l) (.ofOption .text subfield)).exec s =
      ((l.refine subfield).mapError .locator, s) := by
  rw [← Action.exec_ofExcept]
  cases subfield <;> rfl

/-- Reading a locator and then a selector for it is reading both at once. A text gives a plan or
is refused, `alone` and `beside` a selector, and the store stays as it is. If it is refused
alone, it is refused beside the selector for the same reason; otherwise its plan, beside the
selector, gives the plan that the text gives beside it, or is refused for the same reason. A plan
that was read, at whichever stage, is written as the text and read as itself. -/
theorem toLocator_stages (text selector : String) (s : Store) :
    ∃ alone beside : Except LocatorError Locator,
      (toLocator (.text text) .null).exec s = (alone.mapError .locator, s) ∧
      (toLocator (.text text) (.text selector)).exec s = (beside.mapError .locator, s) ∧
      (∀ e, alone = .error e → beside = .error e) ∧
      (∀ l, alone = .ok l →
        (toLocator (.locator l) (.text selector)).exec s = (beside.mapError .locator, s)) ∧
      ∀ l, alone = .ok l ∨ beside = .ok l →
        l.write = text ∧ (toLocator (.locator l) .null).exec s = (.ok l, s) := by
  refine ⟨Locator.parse text, Locator.parse text (some selector),
    exec_toLocator_text text none s, exec_toLocator_text text (some selector) s, ?_, ?_, ?_⟩
  · intro e halone
    exact Locator.parse_some_of_error halone selector
  · intro l halone
    rw [← Locator.refine_some_of_parse halone selector]
    exact exec_toLocator_locator l (some selector) s
  · rintro l (hread | hread)
    · exact ⟨Locator.write_of_parse hread, exec_toLocator_locator l none s⟩
    · exact ⟨Locator.write_of_parse hread, exec_toLocator_locator l none s⟩

end Arg

end Biblio
