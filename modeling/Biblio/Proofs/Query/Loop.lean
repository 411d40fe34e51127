import Biblio.Proofs.Query.Quiet
import Biblio.Proofs.Run.Record
import Biblio.Proofs.Store.Agree

/-!
# Loops over a record that is read meanwhile

A query takes the matches of its locator and then asks the filters about them. One may also
think of it as a loop that looks each bucket up when its alternative is reached, and goes on as
long as there is a field behind the last one, in the store of the moment. The two differ if a
filter adds to the record that is queried; the loop then need not even end. If the filters leave
that record as it is, whatever else they let grow, the loop ends as the query does.
-/

namespace Biblio

open Biblio.Action

/-! ## Loops -/

section Loops

variable {α κ σ : Type}

/-- A loop that looks its next item up in the store of the moment, with how it ends. -/
inductive Loops (next : Store → κ → Option (α × κ)) (turn : α → σ → Action (ForInStep σ)) :
    κ → σ → Store → Except Fault σ × Store → Prop
  | stop {k y s} (h : next s k = none) : Loops next turn k y s (.ok y, s)
  | fault {k k' x y s e t} (h : next s k = some (x, k'))
    (hrun : (turn x y).exec s = (.error e, t)) : Loops next turn k y s (.error e, t)
  | done {k k' x y s w t} (h : next s k = some (x, k'))
    (hrun : (turn x y).exec s = (.ok (.done w), t)) : Loops next turn k y s (.ok w, t)
  | again {k k' x y s w t z} (h : next s k = some (x, k'))
    (hrun : (turn x y).exec s = (.ok (.yield w), t)) (hrest : Loops next turn k' w t z) :
    Loops next turn k y s z

/-- Whether the items of a list follow one another in all stores of some kind. -/
inductive Walks (next : Store → κ → Option (α × κ)) (I : Store → Prop) : κ → List α → Prop
  | nil {k} (h : ∀ s, I s → next s k = none) : Walks next I k []
  | cons {k k' x xs} (h : ∀ s, I s → next s k = some (x, k')) (hrest : Walks next I k' xs) :
    Walks next I k (x :: xs)

variable {next : Store → κ → Option (α × κ)} {turn : α → σ → Action (ForInStep σ)}
  {I : Store → Prop} {k k' : κ} {x : α} {xs : List α} {y : σ} {s : Store}
  {z : Except Fault σ × Store}

theorem Walks.of_next_eq (h : Walks next I k' xs) (hk : ∀ s, I s → next s k = next s k') :
    Walks next I k xs := by
  cases h with
  | nil h => exact .nil fun s hs => (hk s hs).trans (h s hs)
  | cons h hrest => exact .cons (fun s hs => (hk s hs).trans (h s hs)) hrest

theorem loops_iff_of_eq_none (h : next s k = none) :
    Loops next turn k y s z ↔ (.ok y, s) = z := by
  constructor
  · rintro (_ | ⟨h', -⟩ | ⟨h', -⟩ | ⟨h', -, -⟩)
    · rfl
    all_goals cases h.symm.trans h'
  · rintro rfl
    exact .stop h

theorem loops_iff_of_eq_some (h : next s k = some (x, k')) :
    Loops next turn k y s z ↔
      match (turn x y).exec s with
      | (.error e, t) => (.error e, t) = z
      | (.ok (.done w), t) => (.ok w, t) = z
      | (.ok (.yield w), t) => Loops next turn k' w t z := by
  constructor
  · rintro (h' | ⟨h', hrun⟩ | ⟨h', hrun⟩ | ⟨h', hrun, hrest⟩)
    all_goals obtain ⟨⟩ := h.symm.trans h'
    all_goals rw [hrun]
    exact hrest
  · intro hz
    split at hz
    · next hrun => exact hz ▸ .fault h hrun
    · next hrun => exact hz ▸ .done h hrun
    · next hrun => exact .again h hrun hz

theorem exec_forIn_cons :
    (forIn (x :: xs) y turn).exec s =
      match (turn x y).exec s with
      | (.error e, t) => (.error e, t)
      | (.ok (.done w), t) => (.ok w, t)
      | (.ok (.yield w), t) => (forIn xs w turn).exec t := by
  rw [List.forIn_cons, exec_bind]
  rcases (turn x y).exec s with ⟨_ | _ | _, t⟩ <;> rfl

/-- Where all stores that are met agree about the items, a loop is one over a list. -/
theorem loops_iff_exec_forIn (h : Walks next I k xs) (hs : I s)
    (hturn : ∀ x ∈ xs, ∀ y t, I t → I ((turn x y).exec t).2) :
    Loops next turn k y s z ↔ (forIn xs y turn).exec s = z := by
  induction h generalizing y s with
  | nil h => rw [loops_iff_of_eq_none (h s hs), List.forIn_nil, exec_pure]
  | @cons k k' x xs h _ ih =>
      have ht := hturn x (by simp) y s hs
      rw [loops_iff_of_eq_some (h s hs), exec_forIn_cons]
      rcases hrun : (turn x y).exec s with ⟨_ | _ | w, t⟩
      · rfl
      · rfl
      · rw [hrun] at ht
        exact ih ht fun x' hx' => hturn x' (by simp [hx'])

end Loops

/-! ## Actions that leave a record as it is -/

namespace Store

variable {growth : Prop} {r : RecordRef} {s t u : Store}

structure LeadsPast (growth : Prop) (r : RecordRef) (s t : Store) : Prop where
  leads : s.Leads growth t
  record_eq : t.record r = s.record r

namespace LeadsPast

theorem refl (growth : Prop) (r : RecordRef) (s : Store) : s.LeadsPast growth r s :=
  ⟨.refl s, rfl⟩

theorem trans (h : s.LeadsPast growth r t) (h' : t.LeadsPast growth r u) :
    s.LeadsPast growth r u :=
  ⟨h.leads.trans h'.leads, h'.record_eq.trans h.record_eq⟩

end LeadsPast

end Store

namespace Action

variable {growth : Prop} {r : RecordRef} {s : Store} {α β : Type} {a : Action α}
  {f : α → Action β}

/-- Whether an action makes steps and leaves a record as it is, however it ends. -/
def Passes (growth : Prop) (r : RecordRef) (s : Store) (a : Action α) : Prop :=
  s.LeadsPast growth r (a.exec s).2

theorem passes_pure (x : α) : (pure x : Action α).Passes growth r s :=
  .refl growth r s

theorem passes_throw (e : Fault) : (throw e : Action α).Passes growth r s :=
  .refl growth r s

theorem Passes.bind (ha : a.Passes growth r s)
    (hf : ∀ x t, s.LeadsPast growth r t → (f x).Passes growth r t) :
    (a >>= f).Passes growth r s := by
  rw [Passes] at ha
  rw [Passes, exec_bind]
  rcases hrun : a.exec s with ⟨e | x, t⟩
  · rw [hrun] at ha
    exact ha
  · rw [hrun] at ha
    exact ha.trans (hf x t ha)

theorem passes_get_bind {f : Store → Action β} (h : (f s).Passes growth r s) :
    ((get : Action Store) >>= f).Passes growth r s := by
  rw [Passes, exec_get_bind]
  exact h

theorem passes_field_bind {g : FieldRef} {f : Field → Action β}
    (h : (f (s.field g)).Passes growth r s) : (field g >>= f).Passes growth r s := by
  rw [Passes, exec_bind_of (exec_field g s)]
  exact h

/-- Where nothing grows, every record that exists is passed. -/
theorem Runs.passes {Q : α → Store → Prop} (h : a.Runs False s Q) (hs : s.IsIndexed)
    (hr : s.HasRecord r) : a.Passes False r s :=
  ⟨(h hs).1, hr.record_eq (h hs).1⟩

end Action

namespace Query

variable {growth : Prop} {r : RecordRef} {s t : Store} {ps : List Predicate} {v : Sieve}

/-! ## Filters that leave a record as it is -/

def Predicate.Passes (growth : Prop) (r : RecordRef) (s : Store) (p : Predicate) : Prop :=
  ∀ t, s.LeadsPast growth r t → ∀ f, t.HasField f → (p f).Passes growth r t

structure Sieve.Passes (growth : Prop) (r : RecordRef) (s : Store) (v : Sieve) : Prop where
  all : ∀ t, s.LeadsPast growth r t → ∀ xs, (v.all xs).Passes growth r t
  first : ∀ t, s.LeadsPast growth r t → ∀ xs, (v.first xs).Passes growth r t

theorem Predicate.Passes.mono {p : Predicate} (h : p.Passes growth r s)
    (hst : s.LeadsPast growth r t) : p.Passes growth r t :=
  fun u htu => h u (hst.trans htu)

theorem Sieve.Passes.mono (h : v.Passes growth r s) (hst : s.LeadsPast growth r t) :
    v.Passes growth r t :=
  ⟨fun u htu => h.all u (hst.trans htu), fun u htu => h.first u (hst.trans htu)⟩

theorem Predicate.Acts.passes {p : Predicate} (h : p.Acts False s) (hs : s.IsIndexed)
    (hr : s.HasRecord r) : p.Passes False r s :=
  fun t hst f hf => (h t hst.leads f hf).passes (hs.mono hst.leads) (hr.mono hst.leads)

theorem Sieve.Acts.passes (h : v.Acts False s) (hs : s.IsIndexed) (hr : s.HasRecord r) :
    v.Passes False r s where
  all := fun t hst xs => (h.all t hst.leads xs).passes (hs.mono hst.leads) (hr.mono hst.leads)
  first := fun t hst xs => (h.first t hst.leads xs).passes (hs.mono hst.leads) (hr.mono hst.leads)

theorem passes_satisfies (hps : ∀ p ∈ ps, p.Passes growth r s) {f : FieldRef}
    (hf : s.HasField f) : (satisfies ps f).Passes growth r s := by
  induction ps generalizing s with
  | nil => exact passes_pure true
  | cons p ps ih =>
      refine (hps p (by simp) s (.refl growth r s) f hf).bind fun b t hst => ?_
      cases b with
      | false => exact passes_pure false
      | true => exact ih (fun q hq => (hps q (by simp [hq])).mono hst) (hf.mono hst.leads)

theorem passes_selectorOf (part : String) (a : Alternative) :
    (selectorOf part a).Passes growth r s := by
  rw [selectorOf]
  cases a.subfield with
  | none => exact passes_throw _
  | some sel => exact passes_pure sel

theorem passes_queryField (hv : v.Passes growth r s) (x : Field) (sel : Selector) :
    (queryField x sel v).Passes growth r s := by
  have hall := hv.all s (.refl growth r s)
  have hfirst := hv.first s (.refl growth r s)
  rw [queryField]
  cases sel.code with
  | none => exact (hall _).bind fun _ _ _ => passes_pure _
  | some code =>
      dsimp only
      split
      · rw [map_eq_pure_bind, bind_assoc]
        exact (hfirst _).bind fun _ _ _ => (passes_pure _).bind fun _ _ _ => passes_pure _
      · exact (hall _).bind fun _ _ _ => passes_pure _

/-! ## The matches of a locator one by one -/

def nextField (r : RecordRef) (s : Store) (i : Nat) : Option (FieldRef × Nat) :=
  (s.record r).fields[i]?.map (·, i + 1)

/-- The field behind a number of fields in the bucket of the first alternative, or else the
first one in the bucket of an alternative behind it. -/
def visitFrom (r : RecordRef) (s : Store) :
    List Alternative → Nat → Option (Match × List Alternative × Nat)
  | [], _ => none
  | a :: as, i =>
    match ((s.record r).lookup a.tag)[i]? with
    | some f => some ((a, f), a :: as, i + 1)
    | none => visitFrom r s as 0

def nextVisit (r : RecordRef) (s : Store) (k : List Alternative × Nat) :
    Option (Match × List Alternative × Nat) :=
  visitFrom r s k.1 k.2

def visits (lookup : Lookup) (as : List Alternative) : List Match :=
  as.flatMap fun a => (lookup a.tag).map (a, ·)

/-- A turn for matches; a field that its alternative does not accept is passed over. -/
def onMatch {σ : Type} (turn : Match → σ → Action (ForInStep σ)) (m : Match) (y : σ) :
    Action (ForInStep σ) := do
  if accepts (← get) m.1 m.2 then turn m y else return .yield y

theorem matching_eq_filter_visits (s : Store) (lookup : Lookup) (as : List Alternative) :
    matching s lookup as = (visits lookup as).filter fun m => accepts s m.1 m.2 := by
  simp only [matching, visits, List.filter_flatMap, List.filter_map]
  rfl

theorem hasField_of_mem_visits (hs : s.IsIndexed) {as : List Alternative} {m : Match}
    (hm : m ∈ visits (s.record r).lookup as) : s.HasField m.2 := by
  simp only [visits, List.mem_flatMap, List.mem_map] at hm
  obtain ⟨a, -, f, hf, rfl⟩ := hm
  rw [hs.lookup_eq, List.mem_filter] at hf
  exact hs.hasField r f hf.1

theorem accepts_eq (hst : s.Leads growth t) {f : FieldRef} (hf : s.HasField f) (a : Alternative) :
    accepts t a f = accepts s a f := by
  rw [accepts, accepts, (hf.sameLabel hst).2]

theorem walks_nextField (front behind : List FieldRef)
    (h : (s.record r).fields = front ++ behind) :
    Walks (nextField r) (s.LeadsPast growth r) front.length behind := by
  induction behind generalizing front with
  | nil =>
      refine .nil fun t hst => ?_
      simp [nextField, hst.record_eq, h]
  | cons f fs ih =>
      have hrest := ih (front ++ [f]) (by simpa using h)
      refine .cons (fun t hst => ?_) hrest
      simp [nextField, hst.record_eq, h]

/-- What is left of a bucket is walked through in front of the buckets of the alternatives
behind it. -/
theorem walks_bucket {a : Alternative} {as : List Alternative} {ms : List Match}
    (hms : Walks (nextVisit r) (s.LeadsPast growth r) (as, 0) ms)
    (front behind : List FieldRef) (h : (s.record r).lookup a.tag = front ++ behind) :
    Walks (nextVisit r) (s.LeadsPast growth r) (a :: as, front.length)
      (behind.map (a, ·) ++ ms) := by
  induction behind generalizing front with
  | nil =>
      refine hms.of_next_eq fun t hst => ?_
      simp [nextVisit, visitFrom, hst.record_eq, h]
  | cons f fs ih =>
      have hrest := ih (front ++ [f]) (by simpa using h)
      refine .cons (fun t hst => ?_) hrest
      simp [nextVisit, visitFrom, hst.record_eq, h]

theorem walks_nextVisit (as : List Alternative) :
    Walks (nextVisit r) (s.LeadsPast growth r) (as, 0)
      (visits (s.record r).lookup as) := by
  induction as with
  | nil => exact .nil fun _ _ => rfl
  | cons a as ih => exact walks_bucket ih [] _ rfl

section Turns

variable {σ : Type} {turn : Match → σ → Action (ForInStep σ)}

theorem exec_forIn_onMatch {ms : List Match} (hms : ∀ m ∈ ms, s.HasField m.2)
    (hst : s.LeadsPast growth r t)
    (hturn : ∀ m ∈ ms, ∀ y t, s.LeadsPast growth r t → (turn m y).Passes growth r t) (y : σ) :
    (forIn ms y (onMatch turn)).exec t =
      (forIn (ms.filter fun m => accepts s m.1 m.2) y turn).exec t := by
  induction ms generalizing t y with
  | nil => rfl
  | cons m ms ih =>
      have hrest := fun {u} (hu : s.LeadsPast growth r u) =>
        ih (fun m hm => hms m (by simp [hm])) hu fun m hm => hturn m (by simp [hm])
      -- Labels stay, so the field is accepted now if it was at the start.
      rw [exec_forIn_cons, onMatch, exec_get_bind, accepts_eq hst.leads (hms m (by simp))]
      cases haccepts : accepts s m.1 m.2 with
      | false =>
          rw [List.filter_cons_of_neg (by simp [haccepts])]
          exact hrest hst y
      | true =>
          have ht := hturn m (by simp) y t hst
          rw [List.filter_cons_of_pos (by simpa using haccepts), exec_forIn_cons, if_pos rfl]
          rw [Action.Passes] at ht
          rcases hrun : (turn m y).exec t with ⟨_ | _ | w, u⟩
          · rfl
          · rfl
          · rw [hrun] at ht
            exact hrest (hst.trans ht) w

/-- The loop over the buckets that are found on the way is one over the matches that there were
at the start. -/
theorem loops_nextVisit_iff (hs : s.IsIndexed)
    (hturn : ∀ m y t, s.LeadsPast growth r t → t.HasField m.2 → (turn m y).Passes growth r t)
    (as : List Alternative) (y : σ) (z : Except Fault σ × Store) :
    Loops (nextVisit r) (onMatch turn) (as, 0) y s z ↔
      (forIn (matching s (s.record r).lookup as) y turn).exec s = z := by
  have hvisits := fun m (hm : m ∈ visits (s.record r).lookup as) => hasField_of_mem_visits hs hm
  have hpasses : ∀ m ∈ visits (s.record r).lookup as, ∀ y t, s.LeadsPast growth r t →
      (turn m y).Passes growth r t := fun m hm y t hst =>
    hturn m y t hst ((hvisits m hm).mono hst.leads)
  rw [matching_eq_filter_visits, ← exec_forIn_onMatch hvisits (.refl growth r s) hpasses]
  refine loops_iff_exec_forIn (walks_nextVisit as) (.refl growth r s) fun m hm y t hst => ?_
  have hmatch : (onMatch turn m y).Passes growth r t := by
    refine passes_get_bind ?_
    split
    · exact hpasses m hm y t hst
    · exact passes_pure _
  exact hst.trans hmatch

theorem loops_nextField_iff {turn : FieldRef → σ → Action (ForInStep σ)} (hs : s.IsIndexed)
    (hturn : ∀ f y t, s.LeadsPast growth r t → t.HasField f → (turn f y).Passes growth r t)
    (y : σ) (z : Except Fault σ × Store) :
    Loops (nextField r) turn 0 y s z ↔ (forIn (s.record r).fields y turn).exec s = z :=
  loops_iff_exec_forIn (walks_nextField [] _ rfl) (.refl growth r s)
    fun f hf y t hst => hst.trans (hturn f y t hst ((hs.hasField r f hf).mono hst.leads))

end Turns

/-! ## Fields -/

def keepTurn (ps : List Predicate) (f : FieldRef) (fs : List FieldRef) :
    Action (ForInStep (List FieldRef)) := do
  if ← satisfies ps f then return .yield (fs ++ [f]) else return .yield fs

def findTurn (ps : List Predicate) (f : FieldRef) (_ : Option FieldRef) :
    Action (ForInStep (Option FieldRef)) := do
  if ← satisfies ps f then return .done (some f) else return .yield none

theorem forIn_keepTurn (ps : List Predicate) (fs gs : List FieldRef) :
    forIn fs gs (keepTurn ps) = (gs ++ ·) <$> keepFields ps fs := by
  induction fs generalizing gs with
  | nil => simp [keepFields]
  | cons f fs ih =>
      rw [List.forIn_cons, keepFields, keepTurn, map_bind, bind_assoc]
      refine bind_congr fun b => ?_
      cases b <;> simp [ih]

theorem forIn_findTurn (ps : List Predicate) (fs : List FieldRef) :
    forIn fs none (findTurn ps) = firstField ps fs := by
  induction fs with
  | nil => rfl
  | cons f fs ih =>
      rw [List.forIn_cons, firstField, findTurn, bind_assoc]
      refine bind_congr fun b => ?_
      cases b <;> simp [ih]

theorem passes_keepTurn (hps : ∀ p ∈ ps, p.Passes growth r s) {f : FieldRef} (hf : s.HasField f)
    (fs : List FieldRef) : (keepTurn ps f fs).Passes growth r s := by
  refine (passes_satisfies hps hf).bind fun b _ _ => ?_
  cases b <;> exact passes_pure _

theorem passes_findTurn (hps : ∀ p ∈ ps, p.Passes growth r s) {f : FieldRef} (hf : s.HasField f)
    (g : Option FieldRef) : (findTurn ps f g).Passes growth r s := by
  refine (passes_satisfies hps hf).bind fun b _ _ => ?_
  cases b <;> exact passes_pure _

theorem loops_keepFields_iff (hs : s.IsIndexed) (hps : ∀ p ∈ ps, p.Passes growth r s)
    (as : List Alternative) (z : Except Fault (List FieldRef) × Store) :
    Loops (nextVisit r) (onMatch fun m => keepTurn ps m.2) (as, 0) [] s z ↔
      (keepFields ps ((matching s (s.record r).lookup as).map Prod.snd)).exec s = z := by
  have h := forIn_keepTurn ps ((matching s (s.record r).lookup as).map Prod.snd) []
  rw [List.forIn_map] at h
  simp only [List.nil_append, id_map'] at h
  rw [← h]
  exact loops_nextVisit_iff hs
    (fun m fs t hst hf => passes_keepTurn (fun p hp => (hps p hp).mono hst) hf fs) as [] z

theorem loops_firstField_iff (hs : s.IsIndexed) (hps : ∀ p ∈ ps, p.Passes growth r s)
    (as : List Alternative) (z : Except Fault (Option FieldRef) × Store) :
    Loops (nextVisit r) (onMatch fun m => findTurn ps m.2) (as, 0) none s z ↔
      (firstField ps ((matching s (s.record r).lookup as).map Prod.snd)).exec s = z := by
  have h := forIn_findTurn ps ((matching s (s.record r).lookup as).map Prod.snd)
  rw [List.forIn_map] at h
  rw [← h]
  exact loops_nextVisit_iff hs
    (fun m g t hst hf => passes_findTurn (fun p hp => (hps p hp).mono hst) hf g) as none z

/-! ## Values -/

def collectTurn (v : Sieve) (m : Match) (found : List String × List QueryError) :
    Action (ForInStep (List String × List QueryError)) := do
  let (values, error) ← queryField (← Action.field m.2) (← selectorOf "code" m.1) v
  return .yield (found.1 ++ values, found.2 ++ error.toList)

def valueTurn (v : Sieve) (m : Match) (_ : Option String × Option QueryError) :
    Action (ForInStep (Option String × Option QueryError)) := do
  let sel := (← selectorOf "with_default" m.1).withDefault "?"
  let (values, error) ← queryField (← Action.field m.2) sel v
  return .done (values.head?, error)

theorem forIn_collectTurn (v : Sieve) (ms : List Match)
    (found : List String × List QueryError) :
    forIn ms found (collectTurn v) =
      (fun rest => (found.1 ++ rest.1, found.2 ++ rest.2)) <$> collectValues v ms := by
  induction ms generalizing found with
  | nil => simp [collectValues]
  | cons m ms ih => simp [collectValues, collectTurn, ih]

/-- The first match decides. Selectors are asked for because one is missed even where no field
matches. -/
theorem forIn_valueTurn (s : Store) (lookup : Lookup) (v : Sieve) {as : List Alternative}
    (has : ∀ a ∈ as, a.subfield ≠ none) :
    forIn (matching s lookup as) (none, none) (valueTurn v) = firstValue s lookup v as := by
  induction as with
  | nil => rfl
  | cons a as ih =>
      have ih := ih fun b hb => has b (by simp [hb])
      obtain ⟨sel, hsel⟩ := Option.ne_none_iff_exists'.mp (has a (by simp))
      rw [firstValue, selectorOf, hsel, pure_bind, ← List.head?_filter]
      cases hfound : (lookup a.tag).filter (accepts s a) with
      | nil =>
          rw [← ih]
          simp [matching, hfound]
      | cons f fs => simp [matching, hfound, valueTurn, selectorOf, hsel]

theorem passes_collectTurn (hv : v.Passes growth r s) (m : Match)
    (found : List String × List QueryError) : (collectTurn v m found).Passes growth r s := by
  refine passes_field_bind ((passes_selectorOf "code" m.1).bind fun sel t hst => ?_)
  exact (passes_queryField (hv.mono hst) _ sel).bind fun _ _ _ => passes_pure _

theorem passes_valueTurn (hv : v.Passes growth r s) (m : Match)
    (found : Option String × Option QueryError) : (valueTurn v m found).Passes growth r s := by
  refine (passes_selectorOf "with_default" m.1).bind fun sel t hst => passes_field_bind ?_
  exact (passes_queryField (hv.mono hst) _ _).bind fun _ _ _ => passes_pure _

theorem loops_collectValues_iff (hs : s.IsIndexed) (hv : v.Passes growth r s)
    (as : List Alternative) (z : Except Fault (List String × List QueryError) × Store) :
    Loops (nextVisit r) (onMatch (collectTurn v)) (as, 0) ([], []) s z ↔
      (collectValues v (matching s (s.record r).lookup as)).exec s = z := by
  have h := forIn_collectTurn v (matching s (s.record r).lookup as) ([], [])
  simp only [List.nil_append, id_map'] at h
  rw [← h]
  exact loops_nextVisit_iff hs
    (fun m found t hst _ => passes_collectTurn (hv.mono hst) m found) as ([], []) z

def oneTitle : Store :=
  Store.withNewRecord
    { fields := #[(Field.ofTag "021A" "").push "a" "v", (Field.ofTag "028A" "").push "b" "y"] }
    [⟨0⟩]

def adding : Callback := fun _ => do
  RecordRef.append ⟨0⟩ (.field ⟨1⟩)
  return .bool true

def titleOrName : List Alternative :=
  [{ tag := "021A", subfield := some { code := some "a" } },
   { tag := "028A", subfield := some { code := some "x", placeholder := true } }]

/-- A filter that adds to the record is the limit: the loop meets the field that was added, and
the query, which has taken its matches before, does not. -/
theorem loops_collectValues_grown :
    (∃ t, Loops (nextVisit ⟨0⟩) (onMatch (collectTurn (Chain.sieve [.each adding])))
      (titleOrName, 0) ([], []) oneTitle (.ok (["v", ""], []), t)) ∧
      ∃ t, (collectValues (Chain.sieve [.each adding])
        (matching oneTitle (oneTitle.record ⟨0⟩).lookup titleOrName)).exec oneTitle =
          (.ok (["v"], []), t) :=
  ⟨⟨_, .again rfl rfl (.again rfl rfl (.stop rfl))⟩, _, rfl⟩

theorem loops_firstValue_iff (hs : s.IsIndexed) (hv : v.Passes growth r s)
    {as : List Alternative} (has : ∀ a ∈ as, a.subfield ≠ none)
    (z : Except Fault (Option String × Option QueryError) × Store) :
    Loops (nextVisit r) (onMatch (valueTurn v)) (as, 0) (none, none) s z ↔
      (firstValue s (s.record r).lookup v as).exec s = z := by
  rw [← forIn_valueTurn s _ v has]
  exact loops_nextVisit_iff hs
    (fun m found t hst _ => passes_valueTurn (hv.mono hst) m found) as (none, none) z

end Query

/-! ## Chains -/

section Chains

variable {growth : Prop} {r : RecordRef} {s t : Store} {c : Chain}

def Callback.PassesTexts (growth : Prop) (r : RecordRef) (s : Store) (c : Callback) : Prop :=
  ∀ t, s.LeadsPast growth r t → ∀ v : String, (c (.text v)).Passes growth r t

namespace Chain

theorem passes_apply (hc : ∀ st ∈ c, Callback.PassesTexts growth r s st.call)
    (hst : s.LeadsPast growth r t) (v : String) : (c.apply v).Passes growth r t := by
  induction c generalizing t v with
  | nil => exact passes_pure _
  | cons st c ih =>
      refine (hc st (by simp) t hst v).bind fun d u htu => ?_
      cases (Verdict.ofDatum d).apply v with
      | none => exact passes_pure _
      | some w => exact ih (fun st' hmem => hc st' (by simp [hmem])) (hst.trans htu) w

theorem passes_applyAll (hc : ∀ st ∈ c, Callback.PassesTexts growth r s st.call)
    (hst : s.LeadsPast growth r t) (vs : List String) : (c.applyAll vs).Passes growth r t := by
  induction vs generalizing t with
  | nil => exact passes_pure _
  | cons v vs ih =>
      refine (passes_apply hc hst v).bind fun w u htu => ?_
      have hrest := ih (hst.trans htu)
      cases w with
      | none => exact hrest
      | some w => exact hrest.bind fun _ _ _ => passes_pure _

theorem passes_firstKept (hc : ∀ st ∈ c, Callback.PassesTexts growth r s st.call)
    (hst : s.LeadsPast growth r t) (vs : List String) : (c.firstKept vs).Passes growth r t := by
  induction vs generalizing t with
  | nil => exact passes_pure _
  | cons v vs ih =>
      refine (passes_apply hc hst v).bind fun w u htu => ?_
      cases w with
      | none => exact ih (hst.trans htu)
      | some w => exact passes_pure _

theorem passes_sieve (hc : ∀ st ∈ c, Callback.PassesTexts growth r s st.call) :
    c.sieve.Passes growth r s :=
  ⟨fun _ hst => passes_applyAll hc hst, fun _ hst => passes_firstKept hc hst⟩

end Chain

end Chains

/-! ## Records -/

namespace RecordRef

variable {growth : Prop} {r : RecordRef} {s t : Store} {ps : List Query.Predicate}
  {v : Query.Sieve}

/-- Whether queries of a record come to what loops over its buckets come to. -/
structure LoopsAlike (r : RecordRef) (s : Store) (ps : List Query.Predicate) (v : Query.Sieve) :
    Prop where
  keepFields : ∀ as z,
    Loops (Query.nextVisit r) (Query.onMatch fun m => Query.keepTurn ps m.2) (as, 0) [] s z ↔
      (Query.keepFields ps ((Query.matching s (s.record r).lookup as).map Prod.snd)).exec s = z
  firstField : ∀ as z,
    Loops (Query.nextVisit r) (Query.onMatch fun m => Query.findTurn ps m.2) (as, 0) none s z ↔
      (Query.firstField ps ((Query.matching s (s.record r).lookup as).map Prod.snd)).exec s = z
  collectValues : ∀ as z,
    Loops (Query.nextVisit r) (Query.onMatch (Query.collectTurn v)) (as, 0) ([], []) s z ↔
      (Query.collectValues v (Query.matching s (s.record r).lookup as)).exec s = z
  firstValue : ∀ as, (∀ a ∈ as, a.subfield ≠ none) → ∀ z,
    Loops (Query.nextVisit r) (Query.onMatch (Query.valueTurn v)) (as, 0) (none, none) s z ↔
      (Query.firstValue s (s.record r).lookup v as).exec s = z

theorem loopsAlike (hs : s.IsIndexed) (hps : ∀ p ∈ ps, p.Passes growth r s)
    (hv : v.Passes growth r s) : r.LoopsAlike s ps v where
  keepFields := Query.loops_keepFields_iff hs hps
  firstField := Query.loops_firstField_iff hs hps
  collectValues := Query.loops_collectValues_iff hs hv
  firstValue := fun _ => Query.loops_firstValue_iff hs hv

/-- Filters that let nothing grow leave the record as it is that is queried. -/
theorem loopsAlike_of_filters (hs : s.IsIndexed) (hr : s.HasRecord r) {l : Locator}
    {filters : Arg} (hfilters : filters.IsIn False s)
    (hrun : (filtersFor l filters).exec s = (.ok (ps, v), t)) : r.LoopsAlike t ps v := by
  obtain ⟨hst, hps, hv⟩ := (runs_filtersFor l hfilters).of_exec_eq_ok hs hrun
  have ht := hs.mono hst
  exact loopsAlike ht (fun p hp => (hps p hp).passes ht (hr.mono hst))
    (hv.passes ht (hr.mono hst))

theorem loops_filter_iff (hs : s.IsIndexed) (hps : ∀ p ∈ ps, p.Passes growth r s)
    (z : Except Fault (List FieldRef) × Store) :
    Loops (Query.nextField r) (Query.keepTurn ps) 0 [] s z ↔
      (Query.keepFields ps (s.record r).fields).exec s = z := by
  have h := Query.forIn_keepTurn ps (s.record r).fields []
  simp only [List.nil_append, id_map'] at h
  rw [← h]
  exact Query.loops_nextField_iff hs
    (fun f fs t hst hf => Query.passes_keepTurn (fun p hp => (hps p hp).mono hst) hf fs) [] z

def applyTurn (ps : List Query.Predicate) (f : FieldRef) (_ : Unit) :
    Action (ForInStep Unit) := do
  ps.forM fun p => discard (p f)
  return .yield ()

theorem forIn_applyTurn (ps : List Query.Predicate) (fs : List FieldRef) :
    forIn fs () (applyTurn ps) = fs.forM fun f => ps.forM fun p => discard (p f) := by
  induction fs with
  | nil => rfl
  | cons f fs ih =>
      rw [List.forM_eq_forM] at ih ⊢
      rw [List.forIn_cons, applyTurn, bind_assoc, List.forM_cons]
      exact bind_congr fun _ => (pure_bind _ _).trans ih

theorem passes_applyTurn (hps : ∀ p ∈ ps, p.Passes growth r s) {f : FieldRef}
    (hf : s.HasField f) : (applyTurn ps f ()).Passes growth r s := by
  refine Action.Passes.bind ?_ fun _ _ _ => passes_pure _
  induction ps generalizing s with
  | nil => exact passes_pure ()
  | cons p ps ih =>
      rw [List.forM_eq_forM, List.forM_cons]
      have hp : (discard (p f)).Passes growth r s :=
        (hps p (by simp) s (.refl growth r s) f hf).bind fun _ _ _ => passes_pure ()
      exact hp.bind fun _ t hst =>
        ih (fun q hq => (hps q (by simp [hq])).mono hst) (hf.mono hst.leads)

theorem loops_apply_iff (hs : s.IsIndexed) (hps : ∀ p ∈ ps, p.Passes growth r s)
    (z : Except Fault Unit × Store) :
    Loops (Query.nextField r) (applyTurn ps) 0 () s z ↔ (r.apply ps).exec s = z := by
  rw [apply, exec_bind_of (exec_record r s), ← forIn_applyTurn]
  exact Query.loops_nextField_iff hs
    (fun f _ t hst hf => passes_applyTurn (fun p hp => (hps p hp).mono hst) hf) () z

end RecordRef

end Biblio
