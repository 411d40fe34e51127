import Biblio.Proofs.Store.Step

/-!
# Actions as runs of steps

`a.Runs growth s Q` says that the action leads from the indexed store `s` by steps to
another store, also if it ends with a fault, and that its value there satisfies `Q` if it
gives one. There is a rule for each way in which actions are put together, and one for each
primitive action.
-/

namespace Biblio

namespace Action

variable {α β : Type} {s t : Store} {growth : Prop} {a : Action α} {f : α → Action β}
  {P Q : α → Store → Prop} {R : β → Store → Prop}

/-- The action makes steps only, and a value that it gives satisfies `Q`. -/
def Runs (growth : Prop) (s : Store) (a : Action α) (Q : α → Store → Prop) : Prop :=
  s.IsIndexed →
    s.Leads growth (a.exec s).2 ∧ ∀ x, (a.exec s).1 = .ok x → Q x (a.exec s).2

abbrev Steps (growth : Prop) (s : Store) (a : Action α) : Prop :=
  a.Runs growth s fun _ _ => True

/-- A run that gives a value makes steps, and its value satisfies the postcondition. -/
theorem Runs.of_exec_eq_ok (h : a.Runs growth s Q) (hs : s.IsIndexed) {x : α}
    (hrun : a.exec s = (.ok x, t)) : s.Leads growth t ∧ Q x t := by
  obtain ⟨hst, hQ⟩ := h hs
  rw [hrun] at hst hQ
  exact ⟨hst, hQ x rfl⟩

/-! ## Rules -/

theorem Runs.imp (h : a.Runs growth s P)
    (hPQ : ∀ x t, s.Leads growth t → t.IsIndexed → P x t → Q x t) : a.Runs growth s Q := by
  intro hs
  obtain ⟨hst, hP⟩ := h hs
  exact ⟨hst, fun x hx => hPQ x _ hst (hs.mono hst) (hP x hx)⟩

theorem runs_of_exec {x : α} (h : a.exec s = (.ok x, t)) (hst : s.IsIndexed → s.Leads growth t)
    (hQ : t.IsIndexed → Q x t) : a.Runs growth s Q := by
  intro hs
  rw [h]
  refine ⟨hst hs, ?_⟩
  rintro y ⟨⟩
  exact hQ (hs.mono (hst hs))

theorem runs_pure {x : α} (h : s.IsIndexed → Q x s) :
    (pure x : Action α).Runs growth s Q :=
  runs_of_exec (exec_pure x s) (fun _ => .refl s) h

theorem runs_throw (e : Fault) : (throw e : Action α).Runs growth s Q := by
  intro _
  rw [exec_throw]
  exact ⟨.refl s, by simp⟩

theorem Runs.bind (ha : a.Runs growth s P)
    (hf : ∀ x t, s.Leads growth t → P x t → (f x).Runs growth t R) :
    (a >>= f).Runs growth s R := by
  intro hs
  obtain ⟨hst, hP⟩ := ha hs
  rw [exec_bind]
  rcases hrun : a.exec s with ⟨e | x, t⟩
  · rw [hrun] at hst
    exact ⟨hst, by simp⟩
  · rw [hrun] at hst hP
    obtain ⟨htu, hR⟩ := hf x t hst (hP x rfl) (hs.mono hst)
    exact ⟨hst.trans htu, hR⟩

theorem Runs.map {g : α → β} (ha : a.Runs growth s P)
    (hg : ∀ x t, s.Leads growth t → t.IsIndexed → P x t → R (g x) t) :
    (g <$> a).Runs growth s R := by
  rw [map_eq_pure_bind]
  exact ha.bind fun x t hst hx => runs_pure fun ht => hg x t hst ht hx

theorem runs_get_bind {f : Store → Action β} (h : s.IsIndexed → (f s).Runs growth s R) :
    ((get : Action Store) >>= f).Runs growth s R :=
  Runs.bind (P := fun x t => x = t ∧ t = s ∧ s.IsIndexed)
    (runs_of_exec (x := s) rfl (fun _ => .refl s) fun hs => ⟨rfl, rfl, hs⟩)
    (by rintro _ _ - ⟨rfl, rfl, hs⟩; exact h hs)

theorem runs_field_bind {g : FieldRef} {f : Field → Action β}
    (h : (f (s.field g)).Runs growth s R) : (field g >>= f).Runs growth s R :=
  Runs.bind (P := fun x t => t = s ∧ x = s.field g)
    (runs_of_exec (exec_field g s) (fun _ => .refl s) fun _ => ⟨rfl, rfl⟩)
    (by rintro _ _ - ⟨rfl, rfl⟩; exact h)

theorem runs_record_bind {r : RecordRef} {f : Record → Action β}
    (h : s.IsIndexed → (f (s.record r)).Runs growth s R) : (record r >>= f).Runs growth s R :=
  Runs.bind (P := fun x t => t = s ∧ x = s.record r ∧ s.IsIndexed)
    (runs_of_exec (exec_record r s) (fun _ => .refl s) fun hs => ⟨rfl, rfl, hs⟩)
    (by rintro _ _ - ⟨rfl, rfl, hs⟩; exact h hs)

theorem runs_throw_bind (e : Fault) : ((throw e : Action α) >>= f).Runs growth s R :=
  (runs_throw e).bind (P := fun _ _ => False) fun _ _ _ h => h.elim

theorem runs_ofExcept {ε : Type} {fault : ε → Fault} {e : Except ε α}
    (h : ∀ x, e = .ok x → Q x s) : (ofExcept fault e).Runs growth s Q := by
  cases e with
  | error e => exact runs_throw (fault e)
  | ok x => exact runs_pure fun _ => h x rfl

/-- Neither reading nor failing to read does anything to the store. -/
theorem runs_ofExcept_bind {ε : Type} {fault : ε → Fault} {e : Except ε α}
    (h : ∀ x, (f x).Runs growth s R) : (ofExcept fault e >>= f).Runs growth s R := by
  cases e with
  | error e => exact runs_throw_bind (fault e)
  | ok x => exact h x

theorem exec_tryCatch (a : Action α) (h : Fault → Action α) (s : Store) :
    (tryCatch a h).exec s =
      match a.exec s with
      | (.ok x, t) => (.ok x, t)
      | (.error e, t) => (h e).exec t := by
  change (ExceptT.run (ExceptT.tryCatch a h)).run s = _
  simp only [ExceptT.tryCatch, ExceptT.run_mk, StateT.run_bind]
  rcases hrun : a.exec s with ⟨x, t⟩
  have hrun' : StateT.run a s = (x, t) := hrun
  rw [hrun']
  cases x <;> rfl

theorem Runs.tryCatch {h : Fault → Action α} (ha : a.Runs growth s Q)
    (hh : ∀ e t, s.Leads growth t → (h e).Runs growth t Q) :
    (tryCatch a h).Runs growth s Q := by
  intro hs
  obtain ⟨hst, hQ⟩ := ha hs
  rw [exec_tryCatch]
  rcases hrun : a.exec s with ⟨e | x, t⟩
  · rw [hrun] at hst
    obtain ⟨htu, hu⟩ := hh e t hst (hs.mono hst)
    exact ⟨hst.trans htu, hu⟩
  · rw [hrun] at hst hQ
    exact ⟨hst, hQ⟩

/-! ## Lists of actions -/

/-- Each item gives a value of which `R` holds for good. -/
theorem runs_mapM {xs : List α}
    (hf : ∀ x ∈ xs, ∀ t, s.Leads growth t → (f x).Runs growth t R)
    (hR : ∀ y t u, t.Leads growth u → R y t → R y u) :
    (xs.mapM f).Runs growth s fun ys t => ∀ y ∈ ys, R y t := by
  induction xs generalizing s with
  | nil =>
      rw [List.mapM_nil]
      exact runs_pure (by simp)
  | cons x xs ih =>
      rw [List.mapM_cons]
      refine (hf x (by simp) s (.refl s)).bind fun y t hst hy => ?_
      have hrest := ih fun z hz u htu => hf z (by simp [hz]) u (hst.trans htu)
      refine hrest.bind fun ys u htu hys => ?_
      exact runs_pure fun _ => by simpa using ⟨hR y t u htu hy, hys⟩

theorem runs_forM {f : α → Action PUnit} {xs : List α}
    (hf : ∀ x ∈ xs, ∀ t, s.Leads growth t → (f x).Steps growth t) :
    (xs.forM f).Steps growth s := by
  induction xs generalizing s with
  | nil => exact runs_pure fun _ => trivial
  | cons x xs ih =>
      rw [List.forM_eq_forM, List.forM_cons]
      refine (hf x (by simp) s (.refl s)).bind fun _ t hst _ => ?_
      exact ih fun z hz u htu => hf z (by simp [hz]) u (hst.trans htu)

theorem runs_foldlM {f : β → α → Action β} {xs : List α} {b : β}
    (hf : ∀ b, ∀ x ∈ xs, ∀ t, s.Leads growth t → (f b x).Steps growth t) :
    (xs.foldlM f b).Steps growth s := by
  induction xs generalizing s b with
  | nil => exact runs_pure fun _ => trivial
  | cons x xs ih =>
      rw [List.foldlM_cons]
      refine (hf b x (by simp) s (.refl s)).bind fun c t hst _ => ?_
      exact ih fun d z hz u htu => hf d z (by simp [hz]) u (hst.trans htu)

/-! ## Primitive actions -/

theorem steps_note (n : Note) : (note n).Steps growth s :=
  runs_of_exec (exec_note n s) (fun _ => .single (.note s n)) fun _ => trivial

/-- A field that is created exists from then on. -/
theorem runs_newField {x : Field} (h : s.Offers x) :
    (newField x).Runs growth s fun f t => t.HasField f :=
  runs_of_exec (exec_newField x s) (fun _ => .single (.newField h)) fun _ =>
    s.hasField_nextField x

theorem steps_newRecord {fs : List FieldRef} (h : ∀ f ∈ fs, s.HasField f) :
    (newRecord fs).Steps growth s :=
  runs_of_exec (exec_newRecord fs s) (fun _ => .single (.newRecord h)) fun _ => trivial

theorem steps_pushSubfield (hg : growth) (f : FieldRef) {code : String}
    (hcode : Field.isCodeForm code = true) (value : String) :
    (pushSubfield f code value).Steps growth s :=
  runs_of_exec (exec_pushSubfield f code value s) (fun _ => .single (.growField s hg f hcode value))
    fun _ => trivial

theorem steps_pushGroups (hg : growth) (f : FieldRef) {gs : List Payload.Group}
    (h : ∀ g ∈ gs, Payload.isCode g.1 = true) : (pushGroups f gs).Steps growth s :=
  runs_of_exec (exec_pushGroups f gs s) (fun _ => Store.leads_pushGroups hg f h) fun _ => trivial

theorem steps_pushField (hg : growth) (r : RecordRef) {f : FieldRef} (hf : s.HasField f) :
    (pushField r f).Steps growth s :=
  runs_of_exec (x := ()) (t := s.withEntry r f) rfl (fun _ => .single (.growRecord hg r hf))
    fun _ => trivial

theorem runs_createField (tag occurrence : Arg) :
    (createField tag occurrence).Runs growth s fun f t => t.HasField f := by
  unfold createField
  split
  · exact runs_newField (.ofTag _ _)
  · exact runs_throw _

theorem runs_parseField (line : String) :
    (parseField line).Runs growth s fun f t => t.HasField f := by
  rw [parseField]
  cases Note.ofLine? line with
  | none => exact runs_newField (.line line)
  | some n => exact (steps_note n).bind fun _ _ _ _ => runs_newField (.line line)

theorem steps_appendLine (hg : growth) (r : RecordRef) (line : String) :
    (appendLine r line).Steps growth s :=
  (runs_parseField line).bind fun _ _ _ hf => steps_pushField hg r hf

theorem steps_parseRecord (hg : growth) (text : String) : (parseRecord text).Steps growth s := by
  refine (steps_newRecord (by simp)).bind fun r t _ _ => ?_
  refine (runs_forM fun line _ u _ => steps_appendLine hg r (String.ofList line)).bind
    fun _ u _ _ => ?_
  refine Runs.bind (P := fun _ _ => True) ?_ fun _ _ _ _ => runs_pure fun _ => trivial
  refine runs_record_bind fun _ => ?_
  dsimp only
  split
  · exact steps_note _
  · exact runs_pure fun _ => trivial

end Action

end Biblio
