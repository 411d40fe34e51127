import Mathlib.Data.List.Forall2
import Biblio.Locator.Parser
import Biblio.Proofs.Payload
import Biblio.Proofs.Tag

/-!
# The grammar of locators

The grammar of locators as relations between texts and what they stand for, part by
part: flags, conditions on the occurrence, selectors, pieces with blank characters
between their parts, and the cut of a text into a flag and pieces. Each relation is
shown to be what the reader of the part accepts.
-/

namespace Biblio

namespace Flag

def text : Option Flag → String
  | none => ""
  | Option.some k => k.write

@[simp] theorem toList_write (k : Flag) : k.write.toList = [k.toChar] := by
  simp [write]

theorem toChar_of_ofChar? {c : Char} {k : Flag} (h : ofChar? c = Option.some k) :
    c = k.toChar := by
  unfold ofChar? at h
  split at h <;> cases h <;> rfl

/-- A text is cut into a flag, which may be missing, and the rest. -/
theorem exists_split (cs : List Char) :
    ∃ k rest, split cs = (text k, rest) ∧ cs = (text k).toList ++ rest ∧
      (k = none → ∀ j : Flag, cs.head? ≠ Option.some j.toChar) := by
  cases cs with
  | nil => exact ⟨none, [], rfl, rfl, by simp⟩
  | cons c cs =>
      cases hk : ofChar? c with
      | none =>
          refine ⟨none, c :: cs, by simp [split, hk, text], by simp [text], ?_⟩
          rintro - j hj
          obtain rfl : c = j.toChar := by simpa using hj
          simp at hk
      | some k =>
          exact ⟨Option.some k, cs, by simp [split, hk, text],
            by simp [text, toChar_of_ofChar? hk], by simp⟩

theorem split_text_append {k : Option Flag} {rest : List Char}
    (h : k = none → ∀ j : Flag, rest.head? ≠ Option.some j.toChar) :
    split ((text k).toList ++ rest) = (text k, rest) := by
  cases k with
  | some k => simp [text, split]
  | none =>
      cases rest with
      | nil => rfl
      | cons c cs =>
          cases hk : ofChar? c with
          | none => simp [split, hk, text]
          | some j => exact absurd (by rw [toChar_of_ofChar? hk]; rfl) (h rfl j)

end Flag

/-! ## Conditions on the occurrence -/

namespace OccurrenceMatcher

/-- The text is the part of a piece that stands for this condition. -/
inductive IsText : List Char → OccurrenceMatcher → Prop
  | any : IsText [] { mode := .any }
  | none : IsText ['/'] { mode := .none }
  | some : IsText ['/', 'x', 'x'] { mode := .some }
  | someCapital : IsText ['/', 'X', 'X'] { mode := .some }
  | exact {ds : List Char} (h : Tag.isOccurrence ds = true) :
      IsText ('/' :: ds) { mode := .exact, value := String.ofList ds }

theorem read?_eq_some_iff (cs : List Char) (m : OccurrenceMatcher) :
    read? cs = some m ↔ IsText cs m := by
  constructor
  · intro h
    unfold read? at h
    split at h
    · obtain rfl := by simpa using h
      exact .any
    · obtain rfl := by simpa using h
      exact .none
    · obtain rfl := by simpa using h
      exact .some
    · obtain rfl := by simpa using h
      exact .someCapital
    · split at h
      · next hds =>
        obtain rfl := by simpa using h
        exact .exact hds
      · simp at h
    · simp at h
  · intro h
    cases h with
    | any => rfl
    | none => rfl
    | some => rfl
    | someCapital => rfl
    | exact hds =>
        rcases (Tag.isOccurrence_iff _).mp hds with ⟨a, b, rfl, ha, hb⟩
        have hx : a ≠ 'x' := by
          rintro rfl
          exact absurd ha (by decide)
        have hX : a ≠ 'X' := by
          rintro rfl
          exact absurd ha (by decide)
        simp [read?, hx, hX, hds]

/-- The characters of a condition are neither dollar signs nor blank. -/
theorem IsText.isOccurrenceChar {cs : List Char} {m : OccurrenceMatcher} (h : IsText cs m) :
    ∀ c ∈ cs, Alternative.isOccurrenceChar c = true := by
  cases h with
  | exact hds =>
      rcases (Tag.isOccurrence_iff _).mp hds with ⟨a, b, rfl, ha, hb⟩
      have hdigit : ∀ c, Tag.isDigit c = true → Alternative.isOccurrenceChar c = true := by
        intro c hc
        have hne : c ≠ '$' := by
          rintro rfl
          exact absurd hc (by decide)
        simp [Alternative.isOccurrenceChar, hne, Tag.isBlank_of_isDigit hc]
      have hslash : Alternative.isOccurrenceChar '/' = true := by decide
      simp [hslash, hdigit a ha, hdigit b hb]
  | _ => exact List.all_eq_true.mp (by decide)

end OccurrenceMatcher

/-! ## Selectors -/

namespace Selector

/-- The text is a code, possibly a flag and possibly an underscore, and stands for this
selector. -/
inductive IsText : List Char → Selector → Prop
  | intro {c : Char} (hc : Payload.isCode c = true) (k : Option Flag) (placeholder : Bool) :
      IsText (c :: ((Flag.text k).toList ++ if placeholder then ['_'] else []))
        { code := some (String.singleton c), cardinality := Flag.text k, placeholder }

theorem readMarks?_eq_some_iff (marks : List Char) (cardinality : String) (placeholder : Bool) :
    readMarks? marks = some (cardinality, placeholder) ↔
      ∃ k, marks = (Flag.text k).toList ++ (if placeholder then ['_'] else []) ∧
        cardinality = Flag.text k := by
  constructor
  · intro h
    obtain ⟨k, rest, hsplit, rfl, -⟩ := Flag.exists_split marks
    unfold readMarks? at h
    rw [hsplit] at h
    split at h
    · next flag hrest =>
      obtain ⟨rfl, rfl⟩ := by simpa using h
      obtain ⟨rfl, rfl⟩ := by simpa using hrest
      exact ⟨k, by simp, rfl⟩
    · next flag hrest =>
      obtain ⟨rfl, rfl⟩ := by simpa using h
      obtain ⟨rfl, rfl⟩ := by simpa using hrest
      exact ⟨k, by simp, rfl⟩
    · simp at h
  · rintro ⟨k, rfl, rfl⟩
    have hhead : k = none → ∀ j : Flag,
        (if placeholder then ['_'] else []).head? ≠ some j.toChar := by
      rintro - j
      cases placeholder <;> cases j <;> decide
    rw [readMarks?, Flag.split_text_append hhead]
    cases placeholder <;> rfl

/-- The characters of a selector are a code, flags and underscores. -/
theorem IsText.of_mem {cs : List Char} {s : Selector} (h : IsText cs s) {c : Char} (hc : c ∈ cs) :
    Payload.isCode c = true ∨ (∃ k : Flag, c = k.toChar) ∨ c = '_' := by
  rcases h with ⟨hcode, k, placeholder⟩
  rcases List.mem_cons.mp hc with rfl | hc
  · exact .inl hcode
  · rcases List.mem_append.mp hc with hc | hc
    · rcases k with _ | k
      · simp [Flag.text] at hc
      · exact .inr (.inl ⟨k, by simpa [Flag.text] using hc⟩)
    · cases placeholder with
      | false => simp at hc
      | true => exact .inr (.inr (by simpa using hc))

theorem IsText.isBlank_of_mem {cs : List Char} {s : Selector} (h : IsText cs s) :
    ∀ c ∈ cs, Text.isBlank c = false := by
  intro c hc
  rcases h.of_mem hc with hcode | ⟨k, rfl⟩ | rfl
  · exact Payload.isBlank_of_isCode hcode
  · cases k <;> decide
  · decide

/-- One line feed may follow a selector that is read. -/
theorem read?_eq_some_iff (cs : List Char) (s : Selector) :
    read? cs = some s ↔ IsText (Text.chomp cs) s := by
  constructor
  · intro h
    unfold read? at h
    split at h
    · next c marks hcs =>
      split at h
      · next hc =>
        rcases Option.map_eq_some_iff.mp h with ⟨⟨cardinality, placeholder⟩, hmarks, hsel⟩
        obtain ⟨k, rfl, rfl⟩ := (readMarks?_eq_some_iff _ _ _).mp hmarks
        rw [hcs, ← hsel]
        exact .intro hc k placeholder
      · simp at h
    · simp at h
  · intro h
    generalize hcs : Text.chomp cs = ds at h
    rcases h with ⟨hc, k, placeholder⟩
    have hmarks := (readMarks?_eq_some_iff _ (Flag.text k) placeholder).mpr ⟨k, rfl, rfl⟩
    simp [read?, hcs, hc, hmarks]

def IsArgument (cs : List Char) (s : Selector) : Prop :=
  IsText cs s ∨ ∃ body, cs = body ++ ['\n'] ∧ IsText body s

theorem isText_chomp_iff (cs : List Char) (s : Selector) :
    IsText (Text.chomp cs) s ↔ IsArgument cs s := by
  constructor
  · intro h
    rcases Text.eq_chomp_or cs with hcs | hcs
    · left
      rwa [← hcs] at h
    · exact .inr ⟨_, hcs, h⟩
  · rintro (h | ⟨body, rfl, h⟩)
    · rwa [Text.chomp_eq_self (Text.endsIn_of_forall h.isBlank_of_mem)]
    · rwa [Text.chomp_concat]

theorem parse_eq_ok_iff (text : String) (s : Selector) :
    parse text = .ok s ↔ IsArgument text.toList s := by
  rw [← isText_chomp_iff, ← read?_eq_some_iff, parse]
  cases read? text.toList <;> simp

theorem parse_of_isText {cs : List Char} {s : Selector} (h : IsText cs s) :
    parse (String.ofList cs) = .ok s := by
  rw [parse_eq_ok_iff, String.toList_ofList]
  exact .inl h

theorem parse_of_not_isArgument {text : String} (h : ∀ s, ¬IsArgument text.toList s) :
    parse text = .error (.badSelector text) := by
  cases hread : read? text.toList with
  | none => simp [parse, hread]
  | some s =>
      rw [read?_eq_some_iff, isText_chomp_iff] at hread
      exact absurd hread (h s)

end Selector

/-! ## Pieces -/

namespace Alternative

inductive IsSuffix : List Char → Option Selector → Prop
  | nil : IsSuffix [] none
  | cons {cs : List Char} {s : Selector} (h : Selector.IsText cs s) : IsSuffix ('$' :: cs) (some s)

/-- The text is a tag directly followed by a condition on the occurrence, and possibly a
dollar sign and a selector, with blank characters around the two parts. -/
inductive IsPiece : List Char → Alternative → Prop
  | intro {before tag condition between suffix after : List Char}
      {occurrence : OccurrenceMatcher} {subfield : Option Selector}
      (hbefore : ∀ c ∈ before, Text.isBlank c = true)
      (htag : Tag.isTag tag = true)
      (hcondition : OccurrenceMatcher.IsText condition occurrence)
      (hbetween : ∀ c ∈ between, Text.isBlank c = true)
      (hsuffix : IsSuffix suffix subfield)
      (hafter : ∀ c ∈ after, Text.isBlank c = true) :
      IsPiece (before ++ (tag ++ (condition ++ (between ++ suffix ++ after))))
        { tag := String.ofList tag, occurrence, subfield }

namespace IsSuffix

variable {suffix : List Char} {subfield : Option Selector}

theorem isBlank_of_mem (h : IsSuffix suffix subfield) :
    ∀ c ∈ suffix, Text.isBlank c = false := by
  cases h with
  | nil => simp
  | cons hsel =>
      rw [List.forall_mem_cons]
      exact ⟨by decide, hsel.isBlank_of_mem⟩

theorem startsIn_isBlank (h : IsSuffix suffix subfield) :
    Text.startsIn Text.isBlank suffix = false := by
  cases h with
  | nil => rfl
  | cons _ => exact (by decide : Text.isBlank '$' = false)

end IsSuffix

/-- Blank characters and a dollar sign end a condition on the occurrence. -/
theorem startsIn_isOccurrenceChar {between suffix after : List Char} {subfield : Option Selector}
    (hbetween : ∀ c ∈ between, Text.isBlank c = true) (hsuffix : IsSuffix suffix subfield)
    (hafter : ∀ c ∈ after, Text.isBlank c = true) :
    Text.startsIn isOccurrenceChar (between ++ suffix ++ after) = false := by
  have hblank : ∀ c, Text.isBlank c = true → isOccurrenceChar c = false := by
    intro c hc
    simp [isOccurrenceChar, hc]
  cases between with
  | cons c cs => exact hblank c (hbetween c (by simp))
  | nil =>
      cases hsuffix with
      | cons _ => exact (by decide : isOccurrenceChar '$' = false)
      | nil =>
          cases after with
          | nil => rfl
          | cons c cs => exact hblank c (hafter c (by simp))

end Alternative

/-! ## Cuts -/

namespace Locator

/-- The text is a flag, which may be missing, and pieces between bars. A flag at the
front is never part of a piece. -/
structure IsCut (cs : List Char) (k : Option Flag) (pieces : List (List Char)) : Prop where
  text_eq : cs = (Flag.text k).toList ++ ['|'].intercalate pieces
  head?_ne : k = none → ∀ j : Flag, cs.head? ≠ some j.toChar
  ne_nil : pieces ≠ []
  bar_notMem : ∀ p ∈ pieces, '|' ∉ p

theorem splitBars_eq_splitOn (cs : List Char) : splitBars cs = cs.splitOn '|' := by
  induction cs with
  | nil => rfl
  | cons c cs ih =>
      rw [splitBars, List.splitOn_cons_eq_if_modifyHead, ih]
      by_cases hc : c = '|'
      · simp [hc]
      · obtain ⟨p, ps, hps⟩ := List.exists_cons_of_ne_nil (List.splitOn_ne_nil '|' cs)
        simp [hc, hps]

theorem bar_notMem_of_mem_splitBars (cs : List Char) : ∀ p ∈ splitBars cs, '|' ∉ p := by
  induction cs with
  | nil => simp [splitBars]
  | cons c cs ih =>
      unfold splitBars
      split
      · simpa using ih
      · next hc =>
        split
        · simpa using Ne.symm hc
        · next p ps hps =>
          rw [hps, List.forall_mem_cons] at ih
          rw [List.forall_mem_cons]
          exact ⟨by simp [Ne.symm hc, ih.1], ih.2⟩

/-- Every text can be cut. -/
theorem exists_isCut (cs : List Char) :
    ∃ k body, Flag.split cs = (Flag.text k, body) ∧ IsCut cs k (splitBars body) := by
  obtain ⟨k, body, hsplit, hcs, hhead⟩ := Flag.exists_split cs
  have hbody : ['|'].intercalate (splitBars body) = body := by
    rw [splitBars_eq_splitOn, List.intercalate_splitOn]
  have hne : splitBars body ≠ [] := by
    rw [splitBars_eq_splitOn]
    exact List.splitOn_ne_nil '|' body
  exact ⟨k, body, hsplit, by rw [hbody, ← hcs], hhead, hne, bar_notMem_of_mem_splitBars body⟩

/-- A text is cut in one way only, which is how `splitBars` cuts it behind the flag. -/
theorem IsCut.split_eq {cs : List Char} {k : Option Flag} {pieces : List (List Char)}
    (h : IsCut cs k pieces) :
    Flag.split cs = (Flag.text k, ['|'].intercalate pieces) ∧
      splitBars (['|'].intercalate pieces) = pieces := by
  constructor
  · have hhead : k = none → ∀ j : Flag, (['|'].intercalate pieces).head? ≠ some j.toChar := by
      rintro rfl
      have hcs : cs = ['|'].intercalate pieces := by simpa [Flag.text] using h.text_eq
      rw [← hcs]
      exact h.head?_ne rfl
    rw [h.text_eq, Flag.split_text_append hhead]
  · rw [splitBars_eq_splitOn, List.splitOn_intercalate '|' h.bar_notMem h.ne_nil]

theorem IsCut.pieces_unique {cs : List Char} {j k : Option Flag} {ps qs : List (List Char)}
    (hp : IsCut cs j ps) (hq : IsCut cs k qs) : ps = qs := by
  have hbody : ['|'].intercalate ps = ['|'].intercalate qs :=
    congrArg Prod.snd (hp.split_eq.1.symm.trans hq.split_eq.1)
  rw [← hp.split_eq.2, hbody, hq.split_eq.2]

end Locator

end Biblio
