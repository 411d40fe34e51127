import Biblio.Proofs.Query.Quiet
import Mathlib.Data.List.Forall2

/-!
# Two runs that agree

Two actions are run on two stores that go their own ways. They agree if each of them
leaves what exists as it is, and if they end alike: with the same fault, or with values
that are related in the stores where they end. As in `Runs`, there is a rule for each way
in which actions are put together.

What is left as it is can be compared later: fields and records that exist keep what they
hold, and so fields that were equal stay equal.
-/

namespace Biblio

namespace Store

variable {s t u v : Store}

/-! ## What exists -/

theorem Step.mono {p q : Prop} (hpq : p → q) (h : Step p s t) : Step q s t := by
  cases h with
  | note n => exact .note _ n
  | newField h => exact .newField h
  | newRecord h => exact .newRecord h
  | growField hg f hcode value => exact .growField _ (hpq hg) f hcode value
  | growRecord hg r hf => exact .growRecord (hpq hg) r hf

theorem Leads.mono {p q : Prop} (hpq : p → q) (h : s.Leads p t) : s.Leads q t :=
  h.induct (P := fun u => s.Leads q u) (.refl s) fun _ _ hstep h =>
    h.trans (.single (hstep.mono hpq))

theorem HasRecord.step {growth : Prop} {r : RecordRef} (h : s.HasRecord r)
    (hst : Step growth s t) : t.HasRecord r := by
  cases hst with
  | newRecord _ => exact h.withNewRecord _
  | growRecord => exact h.withEntry _ _
  | _ => exact h

theorem HasRecord.mono {growth : Prop} {r : RecordRef} (h : s.HasRecord r)
    (hst : s.Leads growth t) : t.HasRecord r :=
  hst.induct (P := fun u => u.HasRecord r) h fun _ _ hstep h => HasRecord.step h hstep

/-- Without growth a field that exists keeps what it holds. -/
theorem HasField.field_eq {f : FieldRef} (h : s.HasField f) (hst : s.Leads False t) :
    t.field f = s.field f := by
  induction hst with
  | refl => rfl
  | tail hsu hstep ih =>
      rw [← ih]
      cases hstep with
      | newField _ => exact field_withNewField_of_hasField _ (h.mono hsu)
      | growField hg => exact hg.elim
      | _ => rfl

/-- Without growth a record that exists keeps its fields and their order. -/
theorem HasRecord.record_eq {r : RecordRef} (h : s.HasRecord r) (hst : s.Leads False t) :
    t.record r = s.record r := by
  induction hst with
  | refl => rfl
  | @tail u v hsu hstep ih =>
      rw [← ih]
      cases hstep with
      | newRecord _ =>
          have hne : r ≠ u.nextRecord := by
            rintro rfl
            exact Nat.lt_irrefl _ (h.mono hsu)
          rw [record_withNewRecord, if_neg hne]
      | growRecord hg => exact hg.elim
      | _ => rfl

/-! ## Equal fields -/

/-- Whether two fields exist, each in its store, and are equal. -/
structure Twins (s t : Store) (f g : FieldRef) : Prop where
  left : s.HasField f
  right : t.HasField g
  same : (s.field f).same (t.field g) = true

theorem Twins.mono {f g : FieldRef} (h : s.Twins t f g) (hu : s.Leads False u)
    (hv : t.Leads False v) : u.Twins v f g where
  left := h.left.mono hu
  right := h.right.mono hv
  same := by
    rw [h.left.field_eq hu, h.right.field_eq hv]
    exact h.same

theorem forall₂_twins_mono {fs gs : List FieldRef} (h : List.Forall₂ (s.Twins t) fs gs)
    (hu : s.Leads False u) (hv : t.Leads False v) : List.Forall₂ (u.Twins v) fs gs :=
  h.imp fun _ _ hfg => hfg.mono hu hv

theorem hasField_of_twins {fs gs : List FieldRef} (h : List.Forall₂ (s.Twins t) fs gs) :
    (∀ f ∈ fs, s.HasField f) ∧ ∀ g ∈ gs, t.HasField g := by
  induction h with
  | nil => simp
  | cons hfg _ ih => simpa [hfg.left, hfg.right] using ih

theorem forall₂_twins {fs gs : List FieldRef} (hfs : ∀ f ∈ fs, s.HasField f)
    (hgs : ∀ g ∈ gs, t.HasField g)
    (h : List.Forall₂ (fun f g => (s.field f).same (t.field g) = true) fs gs) :
    List.Forall₂ (s.Twins t) fs gs := by
  induction h with
  | nil => exact .nil
  | cons hfg _ ih =>
      have htail := ih (fun f hf => hfs f (by simp [hf])) fun g hg => hgs g (by simp [hg])
      exact .cons ⟨hfs _ (by simp), hgs _ (by simp), hfg⟩ htail

end Store

namespace Action

variable {α β γ δ : Type} {s t : Store} {a : Action α} {b : Action β} {f : α → Action γ}
  {g : β → Action δ} {P Q : Store → Store → α → β → Prop} {R : Store → Store → γ → δ → Prop}

/-- Two ends of runs that started from these stores are alike: nothing has grown, and there
is the same fault or there are related values. -/
inductive EndAlike (s t : Store) (P : Store → Store → α → β → Prop) :
    Except Fault α × Store → Except Fault β × Store → Prop
  | value {u v : Store} {x : α} {y : β} (hu : s.Leads False u) (hv : t.Leads False v)
    (h : P u v x y) : EndAlike s t P (.ok x, u) (.ok y, v)
  | fault {u v : Store} (hu : s.Leads False u) (hv : t.Leads False v) (e : Fault) :
    EndAlike s t P (.error e, u) (.error e, v)

theorem EndAlike.after {u v : Store} {x : Except Fault α × Store} {y : Except Fault β × Store}
    (h : EndAlike u v P x y) (hu : s.Leads False u) (hv : t.Leads False v) :
    EndAlike s t P x y := by
  cases h with
  | value hu' hv' h => exact .value (hu.trans hu') (hv.trans hv') h
  | fault hu' hv' e => exact .fault (hu.trans hu') (hv.trans hv') e

theorem EndAlike.imp {x : Except Fault α × Store} {y : Except Fault β × Store}
    (h : EndAlike s t P x y)
    (hPQ : ∀ x y u v, s.Leads False u → t.Leads False v → P u v x y → Q u v x y) :
    EndAlike s t Q x y := by
  cases h with
  | value hu hv h => exact .value hu hv (hPQ _ _ _ _ hu hv h)
  | fault hu hv e => exact .fault hu hv e

/-- Two actions on two stores agree if their ends are alike. -/
def Agrees (s t : Store) (a : Action α) (b : Action β) (P : Store → Store → α → β → Prop) :
    Prop :=
  EndAlike s t P (a.exec s) (b.exec t)

/-! ## Rules -/

theorem agrees_of_exec {x : α} {y : β} {u v : Store} (ha : a.exec s = (.ok x, u))
    (hb : b.exec t = (.ok y, v)) (hu : s.Leads False u) (hv : t.Leads False v) (h : P u v x y) :
    Agrees s t a b P := by
  rw [Agrees, ha, hb]
  exact .value hu hv h

theorem agrees_pure {x : α} {y : β} (h : P s t x y) : Agrees s t (pure x) (pure y) P :=
  agrees_of_exec (exec_pure x s) (exec_pure y t) (.refl s) (.refl t) h

theorem agrees_throw (e : Fault) : Agrees s t (throw e) (throw e) P :=
  .fault (.refl s) (.refl t) e

theorem Agrees.imp (h : Agrees s t a b P)
    (hPQ : ∀ x y u v, s.Leads False u → t.Leads False v → P u v x y → Q u v x y) :
    Agrees s t a b Q :=
  EndAlike.imp h hPQ

theorem Agrees.bind (h : Agrees s t a b P)
    (hfg : ∀ x y u v, s.Leads False u → t.Leads False v → P u v x y →
      Agrees u v (f x) (g y) R) : Agrees s t (a >>= f) (b >>= g) R := by
  rw [Agrees, exec_bind, exec_bind]
  rw [Agrees] at h
  generalize a.exec s = x at h ⊢
  generalize b.exec t = y at h ⊢
  cases h with
  | value hu hv h => exact (hfg _ _ _ _ hu hv h).after hu hv
  | fault hu hv e => exact .fault hu hv e

/-- Behind actions that give the same, the rest runs on one value. -/
theorem Agrees.bind_same {b : Action α} {g : α → Action δ}
    (h : Agrees s t a b fun _ _ x y => x = y)
    (hfg : ∀ x u v, s.Leads False u → t.Leads False v → Agrees u v (f x) (g x) R) :
    Agrees s t (a >>= f) (b >>= g) R := by
  refine h.bind fun x y u v hu hv hxy => ?_
  rw [← hxy]
  exact hfg x u v hu hv

theorem agrees_get_bind {f : Store → Action γ} {g : Store → Action δ}
    (h : Agrees s t (f s) (g t) R) :
    Agrees s t ((get : Action Store) >>= f) ((get : Action Store) >>= g) R := by
  rw [Agrees, exec_get_bind, exec_get_bind]
  exact h

theorem agrees_field_bind {x y : FieldRef} {f : Field → Action γ} {g : Field → Action δ}
    (h : Agrees s t (f (s.field x)) (g (t.field y)) R) :
    Agrees s t (field x >>= f) (field y >>= g) R := by
  rw [Agrees, exec_bind_of (exec_field x s), exec_bind_of (exec_field y t)]
  exact h

theorem agrees_record_bind {x y : RecordRef} {f : Record → Action γ} {g : Record → Action δ}
    (h : Agrees s t (f (s.record x)) (g (t.record y)) R) :
    Agrees s t (record x >>= f) (record y >>= g) R := by
  rw [Agrees, exec_bind_of (exec_record x s), exec_bind_of (exec_record y t)]
  exact h

theorem agrees_ofExcept {ε : Type} {fault : ε → Fault} {e : Except ε α}
    {P : Store → Store → α → α → Prop} (h : ∀ x, e = .ok x → P s t x x) :
    Agrees s t (ofExcept fault e) (ofExcept fault e) P := by
  cases e with
  | error e => exact agrees_throw (fault e)
  | ok x => exact agrees_pure (h x rfl)

/-- Folds agree if their steps do, on the same items. -/
theorem agrees_foldlM {ι : Type} {f g : α → ι → Action α} {xs : List ι} {x : α}
    (h : ∀ x i u v, s.Leads False u → t.Leads False v →
      Agrees u v (f x i) (g x i) fun _ _ x y => x = y) :
    Agrees s t (xs.foldlM f x) (xs.foldlM g x) fun _ _ x y => x = y := by
  induction xs generalizing s t x with
  | nil => exact agrees_pure rfl
  | cons i xs ih =>
      rw [List.foldlM_cons, List.foldlM_cons]
      refine (h x i s t (.refl s) (.refl t)).bind_same fun y u v hu hv => ?_
      exact ih fun x i u' v' hu' hv' => h x i u' v' (hu.trans hu') (hv.trans hv')

/-- Running an action on each item agrees if it does on one, with values of which something
holds. -/
theorem agrees_mapM {ι : Type} {f : ι → Action α} {xs : List ι} {P : α → Prop}
    (h : ∀ x ∈ xs, ∀ u v, s.Leads False u → t.Leads False v →
      Agrees u v (f x) (f x) fun _ _ y z => y = z ∧ P y) :
    Agrees s t (xs.mapM f) (xs.mapM f) fun _ _ ys zs => ys = zs ∧ ∀ y ∈ ys, P y := by
  induction xs generalizing s t with
  | nil =>
      rw [List.mapM_nil]
      exact agrees_pure ⟨rfl, by simp⟩
  | cons x xs ih =>
      rw [List.mapM_cons]
      refine (h x (by simp) s t (.refl s) (.refl t)).bind fun y z u v hu hv hyz => ?_
      obtain ⟨rfl, hy⟩ := hyz
      refine (ih fun z hz u' v' hu' hv' =>
        h z (by simp [hz]) u' v' (hu.trans hu') (hv.trans hv')).bind fun ys zs _ _ _ _ hys => ?_
      obtain ⟨rfl, hys⟩ := hys
      exact agrees_pure ⟨rfl, by simpa [hy] using hys⟩

/-! ## Determined actions -/

/-- Whether nothing grows by an action and it gives the same in all stores to which the
present one leads so. -/
def Determined (s : Store) (a : Action α) : Prop :=
  ∀ t u, s.Leads False t → s.Leads False u → Agrees t u a a fun _ _ x y => x = y

theorem determined_pure (x : α) : Determined s (pure x) :=
  fun _ _ _ _ => agrees_pure rfl

theorem determined_throw (e : Fault) : Determined s (throw e : Action α) :=
  fun _ _ _ _ => agrees_throw e

theorem Determined.bind (ha : Determined s a) (hf : ∀ x, Determined s (f x)) :
    Determined s (a >>= f) := by
  intro t u ht hu
  refine (ha t u ht hu).bind_same fun x t' u' ht' hu' => ?_
  exact hf x t' u' (ht.trans ht') (hu.trans hu')

theorem Determined.map (ha : Determined s a) (f : α → γ) : Determined s (f <$> a) := by
  rw [map_eq_pure_bind]
  exact ha.bind fun x => determined_pure (f x)

end Action

end Biblio
