import Biblio.Text.Lines
import Mathlib.Data.List.DropRight

/-!
# The ends of a text

`startsIn p` and `endsIn p` say that the first or the last element of a list
satisfies `p`. What `dropEndWhile`, `trim`, `chop` and `chomp` cut is told by two
facts each: the list is what they leave with something of the cut kind around it,
and what they leave is clear of that kind at its ends. The converses say that these
facts determine what is left.
-/

namespace Biblio

namespace Text

section Ends

variable {α : Type} {p : α → Bool}

def startsIn (p : α → Bool) (xs : List α) : Bool :=
  xs.head?.any p

def endsIn (p : α → Bool) (xs : List α) : Bool :=
  xs.getLast?.any p

@[simp] theorem startsIn_nil : startsIn p [] = false := rfl

@[simp] theorem startsIn_cons (x : α) (xs : List α) : startsIn p (x :: xs) = p x := rfl

@[simp] theorem endsIn_nil : endsIn p [] = false := rfl

@[simp] theorem endsIn_concat (xs : List α) (x : α) : endsIn p (xs ++ [x]) = p x := by
  simp [endsIn]

/-- The end of a list is the end of its last nonempty part. -/
theorem endsIn_append (xs : List α) {ys : List α} (h : ys ≠ []) :
    endsIn p (xs ++ ys) = endsIn p ys := by
  simp [endsIn, List.getLast?_append_of_ne_nil xs h]

theorem endsIn_of_forall {xs : List α} (h : ∀ x ∈ xs, p x = false) : endsIn p xs = false := by
  cases hx : xs.getLast? with
  | none => simp [endsIn, hx]
  | some x => simp [endsIn, hx, h x (List.mem_of_getLast? hx)]

theorem endsIn_of_imp {q : α → Bool} (himp : ∀ x, p x = true → q x = true) {xs : List α}
    (h : endsIn q xs = false) : endsIn p xs = false := by
  induction xs using List.reverseRecOn with
  | nil => rfl
  | append_singleton xs x _ =>
      rw [endsIn_concat] at h ⊢
      by_contra hx
      rw [himp x (by simpa using hx)] at h
      exact absurd h (by simp)

/-! ## Runs -/

/-- A run stops where the next element is not of its kind. -/
theorem takeWhile_append_of_startsIn {xs ys : List α} (hxs : ∀ x ∈ xs, p x = true)
    (hys : startsIn p ys = false) : (xs ++ ys).takeWhile p = xs := by
  rw [List.takeWhile_append_of_pos hxs]
  cases ys with
  | nil => simp
  | cons y ys =>
      rw [startsIn_cons] at hys
      simp [hys]

theorem dropWhile_append_of_startsIn {xs ys : List α} (hxs : ∀ x ∈ xs, p x = true)
    (hys : startsIn p ys = false) : (xs ++ ys).dropWhile p = ys := by
  rw [List.dropWhile_append_of_pos hxs]
  cases ys with
  | nil => rfl
  | cons y ys =>
      rw [startsIn_cons] at hys
      simp [hys]

@[simp] theorem startsIn_dropWhile (xs : List α) : startsIn p (xs.dropWhile p) = false := by
  have hstop := List.head?_dropWhile_not p xs
  cases h : xs.dropWhile p with
  | nil => rfl
  | cons y ys =>
      rw [h] at hstop
      simpa using hstop

/-! ## Cutting one end -/

/-- A tail of the cut kind leaves no trace. -/
theorem dropEndWhile_append_of_all (xs : List α) {ys : List α} (h : ∀ y ∈ ys, p y = true) :
    dropEndWhile p (xs ++ ys) = dropEndWhile p xs := by
  induction ys using List.reverseRecOn with
  | nil => simp
  | append_singleton ys y ih =>
      have hy : p y = true := h y (by simp)
      rw [← List.append_assoc, dropEndWhile_concat_of p _ y hy]
      exact ih fun z hz => h z (by simp [hz])

@[simp] theorem endsIn_dropEndWhile (xs : List α) : endsIn p (dropEndWhile p xs) = false := by
  induction xs using List.reverseRecOn with
  | nil => simp
  | append_singleton xs x ih =>
      by_cases hx : p x = true
      · rw [dropEndWhile_concat_of p xs x hx, ih]
      · have hx' : p x = false := by simpa using hx
        rw [dropEndWhile_concat_of_not p xs x hx', endsIn_concat, hx']

theorem dropEndWhile_eq_self {xs : List α} (h : endsIn p xs = false) :
    dropEndWhile p xs = xs := by
  induction xs using List.reverseRecOn with
  | nil => simp
  | append_singleton xs x _ =>
      rw [endsIn_concat] at h
      exact dropEndWhile_concat_of_not p xs x h

theorem dropEndWhile_eq_self_iff (xs : List α) :
    dropEndWhile p xs = xs ↔ endsIn p xs = false := by
  constructor
  · intro h
    rw [← h]
    exact endsIn_dropEndWhile xs
  · exact dropEndWhile_eq_self

/-- What is cut is of the cut kind. -/
theorem exists_eq_dropEndWhile_append (p : α → Bool) (xs : List α) :
    ∃ ys, xs = dropEndWhile p xs ++ ys ∧ ∀ y ∈ ys, p y = true := by
  refine ⟨xs.rtakeWhile p, ?_, fun y hy => List.mem_rtakeWhile_imp hy⟩
  exact List.rdropWhile_append_rtakeWhile.symm

end Ends

/-! ## Blank ends -/

/-- The visible ASCII characters are not blank. -/
theorem isBlank_of_ascii {c : Char} (hlo : 0x21 ≤ c.toNat) (hhi : c.toNat ≤ 0x7e) :
    isBlank c = false := by
  simp only [isBlank, Bool.or_eq_false_iff, Bool.and_eq_false_iff, decide_eq_false_iff_not,
    beq_eq_false_iff_ne]
  omega

/-- Blank characters around a text that has none at its ends leave no trace. -/
theorem trim_pad {before cs after : List Char} (hb : ∀ c ∈ before, isBlank c = true)
    (ha : ∀ c ∈ after, isBlank c = true) (hs : startsIn isBlank cs = false)
    (he : endsIn isBlank cs = false) : trim (before ++ cs ++ after) = cs := by
  rw [trim, List.append_assoc]
  cases cs with
  | nil =>
      have hall : (before ++ after).dropWhile isBlank = [] := by
        rw [List.dropWhile_append_of_pos hb, List.dropWhile_eq_nil_iff.mpr ha]
      rw [List.nil_append, hall, dropEndWhile_nil]
  | cons c cs =>
      have hstart : startsIn isBlank (c :: cs ++ after) = false := hs
      rw [dropWhile_append_of_startsIn hb hstart, dropEndWhile_append_of_all _ ha,
        dropEndWhile_eq_self he]

/-- A text is its trimmed form with blank characters around it. -/
theorem exists_eq_pad_trim (cs : List Char) :
    ∃ before after, cs = before ++ trim cs ++ after ∧ (∀ c ∈ before, isBlank c = true) ∧
      ∀ c ∈ after, isBlank c = true := by
  obtain ⟨after, hcut, hafter⟩ := exists_eq_dropEndWhile_append isBlank (cs.dropWhile isBlank)
  refine ⟨cs.takeWhile isBlank, after, ?_, ?_, hafter⟩
  · rw [trim, List.append_assoc, ← hcut, List.takeWhile_append_dropWhile]
  · intro c hc
    exact List.mem_takeWhile_imp hc

@[simp] theorem endsIn_trim (cs : List Char) : endsIn isBlank (trim cs) = false :=
  endsIn_dropEndWhile _

@[simp] theorem startsIn_trim (cs : List Char) : startsIn isBlank (trim cs) = false := by
  cases h : trim cs with
  | nil => rfl
  | cons c ds =>
      -- the cut at the end keeps the first character, on which the cut at the front stopped
      obtain ⟨after, hcut, -⟩ := exists_eq_dropEndWhile_append isBlank (cs.dropWhile isBlank)
      have hstop : startsIn isBlank (cs.dropWhile isBlank) = false := startsIn_dropWhile cs
      rwa [hcut, ← trim, h, List.cons_append, startsIn_cons] at hstop

/-! ## Breaks at the end -/

theorem isBlank_of_isBreak {c : Char} (h : isBreak c = true) : isBlank c = true := by
  have hc : c = '\n' ∨ c = '\r' := by simpa [isBreak] using h
  rcases hc with rfl | rfl <;> decide

theorem chop_eq_self {cs : List Char} (h : endsIn isBlank cs = false) : chop cs = cs :=
  dropEndWhile_eq_self (endsIn_of_imp (fun _ => isBlank_of_isBreak) h)

@[simp] theorem endsIn_chop (cs : List Char) : endsIn isBreak (chop cs) = false :=
  endsIn_dropEndWhile cs

theorem chop_append_breaks {cs breaks : List Char} (hcs : endsIn isBreak cs = false)
    (h : ∀ c ∈ breaks, isBreak c = true) : chop (cs ++ breaks) = cs := by
  rw [chop, dropEndWhile_append_of_all cs h, dropEndWhile_eq_self hcs]

/-! ## One line feed at the end -/

/-- A text is what is left of it, possibly with a line feed behind. -/
theorem eq_chomp_or (cs : List Char) : cs = chomp cs ∨ cs = chomp cs ++ ['\n'] := by
  fun_induction chomp cs with
  | case1 => exact .inl rfl
  | case2 => exact .inr rfl
  | case3 c cs _ ih =>
      rcases ih with h | h
      · left
        rw [← h]
      · right
        rw [List.cons_append, ← h]

theorem chomp_eq_self {cs : List Char} (h : endsIn isBlank cs = false) : chomp cs = cs := by
  rcases eq_chomp_or cs with hcs | hcs
  · exact hcs.symm
  · rw [hcs, endsIn_concat] at h
    exact absurd h (by decide)

end Text

end Biblio
