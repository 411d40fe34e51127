/-!
# Groupings

A grouping files entries under keys. Both orders are kept: the keys stand in the
order of their first use, the entries of a key in the order of filing. It is the
index of a record by tag and the index of a field by subfield code.
-/

namespace Biblio

structure Grouping (κ α : Type) where
  /-- The buckets in the order in which their keys were first used. -/
  buckets : List (κ × List α) := []
  deriving Repr

namespace Grouping

variable {κ α : Type}

def empty : Grouping κ α := {}

instance : Inhabited (Grouping κ α) := ⟨empty⟩

def keys (g : Grouping κ α) : List κ :=
  g.buckets.map Prod.fst

@[simp] theorem keys_empty : (empty : Grouping κ α).keys = [] := rfl

variable [DecidableEq κ]

def addTo (k : κ) (a : α) : List (κ × List α) → List (κ × List α)
  | [] => [(k, [a])]
  | (k', as) :: bs =>
    if k' = k then (k', as ++ [a]) :: bs else (k', as) :: addTo k a bs

def add (g : Grouping κ α) (k : κ) (a : α) : Grouping κ α :=
  ⟨addTo k a g.buckets⟩

def findIn (k : κ) : List (κ × List α) → List α
  | [] => []
  | (k', as) :: bs => if k' = k then as else findIn k bs

def find (g : Grouping κ α) (k : κ) : List α :=
  findIn k g.buckets

@[simp] theorem find_empty (k : κ) : (empty : Grouping κ α).find k = [] := rfl

/-- An entry comes last in the bucket of its key and leaves the others alone. -/
theorem find_add (g : Grouping κ α) (k k' : κ) (a : α) :
    (g.add k a).find k' = if k = k' then g.find k' ++ [a] else g.find k' := by
  obtain ⟨bs⟩ := g
  simp only [add, find]
  induction bs with
  | nil =>
      by_cases h : k = k' <;> simp [addTo, findIn, h]
  | cons b bs ih =>
      obtain ⟨kb, as⟩ := b
      by_cases hb : kb = k
      · subst hb
        by_cases h : kb = k' <;> simp [addTo, findIn, h]
      · by_cases h : kb = k'
        · subst h
          have hk : k ≠ kb := fun e => hb e.symm
          simp [addTo, findIn, hb, hk]
        · simp [addTo, findIn, hb, h, ih]

@[simp] theorem find_add_self (g : Grouping κ α) (k : κ) (a : α) :
    (g.add k a).find k = g.find k ++ [a] := by
  simp [find_add]

theorem find_add_of_ne (g : Grouping κ α) {k k' : κ} (a : α) (h : k ≠ k') :
    (g.add k a).find k' = g.find k' := by
  simp [find_add, h]

/-- A key that is in use keeps its place, a new one comes last. -/
theorem keys_add (g : Grouping κ α) (k : κ) (a : α) :
    (g.add k a).keys = if k ∈ g.keys then g.keys else g.keys ++ [k] := by
  obtain ⟨bs⟩ := g
  simp only [add, keys]
  induction bs with
  | nil => simp [addTo]
  | cons b bs ih =>
      obtain ⟨kb, as⟩ := b
      by_cases hb : kb = k
      · simp [addTo, hb]
      · have hk : ¬ k = kb := fun e => hb e.symm
        by_cases hm : k ∈ bs.map Prod.fst
        · simp only [hm, if_true] at ih
          simp only [addTo, hb, if_false, List.map_cons, ih, List.mem_cons, hk, hm, or_true,
            if_true]
        · simp only [hm, if_false] at ih
          simp only [addTo, hb, if_false, List.map_cons, ih, List.mem_cons, hk, hm, or_self,
            List.cons_append]

end Grouping

end Biblio
