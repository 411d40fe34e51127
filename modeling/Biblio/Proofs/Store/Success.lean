import Biblio.Proofs.Store.Frame
import Biblio.Proofs.Store.Twins

/-!
# Runs that succeed

An action succeeds if it gives a value. Meanwhile it may create objects and let objects grow,
except for certain ones, which are spared. As in `Runs`, there is a rule for each way in which
actions are put together.

What an operation reads of its arguments, before it does anything, decides about its fault if
the rest of it succeeds. Reading leaves the store as it is, and it sees the same in two stores
if the objects that the arguments refer to are the same there. So an operation that consists
of readings and of parts that succeed fails as the readings do on their own.
-/

namespace Biblio

namespace Store

variable {x : References} {s t u : Store}

/-- Whether steps lead from a store to another one that spare certain objects. -/
structure LeadsSparing (x : References) (s t : Store) : Prop where
  leads : s.Leads True t
  same : SameOn x.fields x.records s t

namespace LeadsSparing

theorem refl (x : References) (s : Store) : s.LeadsSparing x s :=
  ⟨.refl s, .refl s⟩

theorem trans (h : s.LeadsSparing x t) (h' : t.LeadsSparing x u) : s.LeadsSparing x u :=
  ⟨h.leads.trans h'.leads, h.same.trans h'.same⟩

end LeadsSparing

theorem Leads.sparing (h : s.Leads False t) : s.LeadsSparing x t where
  leads := h.mono False.elim
  same := ⟨fun f _ => h.same.field f trivial, fun r _ => h.same.record r trivial⟩

end Store

namespace References.ExistIn

variable {x : References} {s t : Store} (hx : x.ExistIn s) (hst : s.LeadsSparing x t)
include hx hst

theorem field_eq {f : FieldRef} (hf : x.fields f) : t.field f = s.field f :=
  (hst.same.field f hf (hx.field f hf)).2

theorem record_eq {r : RecordRef} (hr : x.records r) : t.record r = s.record r :=
  (hst.same.record r hr (hx.record r hr)).2

/-- A field that is spared is its own twin. -/
theorem twins {f : FieldRef} (hf : x.fields f) : s.Twins t f f where
  left := hx.field f hf
  right := (hst.same.field f hf (hx.field f hf)).1
  same := by
    rw [hx.field_eq hst hf]
    exact (Field.same_iff _ _).mpr ⟨rfl, rfl, rfl⟩

/-- A record that is spared, and its fields with it, is its own twin. -/
theorem twinRecords {r : RecordRef} (hr : x.records r) : s.TwinRecords t r r where
  left := hx.record r hr
  right := (hst.same.record r hr (hx.record r hr)).1
  fields := by
    rw [hx.record_eq hst hr]
    exact List.forall₂_same.mpr fun f hf => hx.twins hst (hx.fields r hr f hf)

/-- A value that refers to nothing but what is spared is its own twin. -/
theorem twinValues {φ : Type} {v : Value φ} (hv : v.IsWithin x) : s.TwinValues t v v :=
  hv.twins (fun _ => hx.twins hst) fun _ => hx.twinRecords hst

end References.ExistIn

namespace Action

variable {α β γ δ : Type} {x : References} {s t u : Store} {a : Action α} {b : Action γ}
  {f : α → Action β} {g : γ → Action δ} {P : α → Store → Prop} {Q : β → Store → Prop}

/-! ## Success -/

/-- Whether an action gives a value of which something holds and spares certain objects. -/
def Succeeds (x : References) (s : Store) (a : Action α) (Q : α → Store → Prop) : Prop :=
  ∃ y t, a.exec s = (.ok y, t) ∧ s.LeadsSparing x t ∧ Q y t

theorem succeeds_pure {Q : α → Store → Prop} {y : α} (h : Q y s) :
    (pure y : Action α).Succeeds x s Q :=
  ⟨y, s, rfl, .refl x s, h⟩

theorem Succeeds.bind (ha : a.Succeeds x s P)
    (hf : ∀ y t, s.LeadsSparing x t → P y t → (f y).Succeeds x t Q) :
    (a >>= f).Succeeds x s Q := by
  obtain ⟨y, t, hrun, hst, hy⟩ := ha
  obtain ⟨z, u, hrest, htu, hz⟩ := hf y t hst hy
  exact ⟨z, u, by rw [exec_bind_of_eq hrun, hrest], hst.trans htu, hz⟩

theorem Succeeds.map {h : α → β} (ha : a.Succeeds x s P) (hPQ : ∀ y t, P y t → Q (h y) t) :
    (h <$> a).Succeeds x s Q := by
  rw [map_eq_pure_bind]
  exact ha.bind fun y t _ hy => succeeds_pure (hPQ y t hy)

theorem succeeds_get_bind {f : Store → Action β} (h : (f s).Succeeds x s Q) :
    ((get : Action Store) >>= f).Succeeds x s Q := by
  rw [Succeeds, exec_get_bind]
  exact h

theorem succeeds_field_bind {g : FieldRef} {f : Field → Action β}
    (h : (f (s.field g)).Succeeds x s Q) : (field g >>= f).Succeeds x s Q := by
  rw [Succeeds, exec_bind_of (exec_field g s)]
  exact h

theorem succeeds_record_bind {r : RecordRef} {f : Record → Action β}
    (h : (f (s.record r)).Succeeds x s Q) : (record r >>= f).Succeeds x s Q := by
  rw [Succeeds, exec_bind_of (exec_record r s)]
  exact h

theorem succeeds_newRecord {fs : List FieldRef} (h : ∀ f ∈ fs, s.HasField f) :
    (newRecord fs).Succeeds x s fun _ _ => True :=
  ⟨_, _, exec_newRecord fs s, Store.Leads.sparing (.single (.newRecord h)), trivial⟩

/-! ## Reading -/

/-- Whether an action leaves a store as it is and ends in another one as it does there. -/
def SeesAlike (s t : Store) (a : Action α) : Prop :=
  (a.exec s).2 = s ∧ a.exec t = ((a.exec s).1, t)

theorem seesAlike_pure (y : α) : (pure y : Action α).SeesAlike s t :=
  ⟨rfl, rfl⟩

theorem seesAlike_throw (e : Fault) : (throw e : Action α).SeesAlike s t :=
  ⟨rfl, rfl⟩

/-- A reading ends in both stores with the same fault or with the same value. -/
theorem SeesAlike.cases (h : a.SeesAlike s t) :
    (∃ e, a.exec s = (.error e, s) ∧ a.exec t = (.error e, t)) ∨
      ∃ y, a.exec s = (.ok y, s) ∧ a.exec t = (.ok y, t) := by
  obtain ⟨hs, ht⟩ := h
  rcases hrun : a.exec s with ⟨e | y, u⟩
  · rw [hrun] at hs ht
    obtain rfl : u = s := hs
    exact .inl ⟨e, rfl, ht⟩
  · rw [hrun] at hs ht
    obtain rfl : u = s := hs
    exact .inr ⟨y, rfl, ht⟩

theorem SeesAlike.bind (ha : a.SeesAlike s t)
    (hf : ∀ y, a.exec s = (.ok y, s) → (f y).SeesAlike s t) : (a >>= f).SeesAlike s t := by
  rcases ha.cases with ⟨e, hs, ht⟩ | ⟨y, hs, ht⟩
  · rw [SeesAlike, exec_bind, exec_bind, hs, ht]
    exact ⟨rfl, rfl⟩
  · rw [SeesAlike, exec_bind_of hs, exec_bind_of ht]
    exact hf y hs

theorem seesAlike_get_bind {f : Store → Action β} (hf : f t = f s) (h : (f s).SeesAlike s t) :
    ((get : Action Store) >>= f).SeesAlike s t := by
  rw [SeesAlike, exec_get_bind, exec_get_bind, hf]
  exact h

theorem seesAlike_throw_bind (e : Fault) : ((throw e : Action α) >>= f).SeesAlike s t :=
  (seesAlike_throw e).bind fun _ h => by cases h

theorem seesAlike_ofExcept {ε : Type} (fault : ε → Fault) (e : Except ε α) :
    (ofExcept fault e).SeesAlike s t := by
  cases e with
  | error e => exact seesAlike_throw (fault e)
  | ok y => exact seesAlike_pure y

theorem seesAlike_mapM {ι : Type} {f : ι → Action α} {is : List ι}
    (h : ∀ i ∈ is, (f i).SeesAlike s t) : (is.mapM f).SeesAlike s t := by
  induction is with
  | nil =>
      rw [List.mapM_nil]
      exact seesAlike_pure []
  | cons i is ih =>
      rw [List.mapM_cons]
      refine (h i (by simp)).bind fun y _ => ?_
      exact (ih fun j hj => h j (by simp [hj])).bind fun ys _ => seesAlike_pure _

/-! ## Faults -/

def fault? (a : Action α) (s : Store) : Option Fault :=
  match (a.exec s).1 with
  | .ok _ => none
  | .error e => some e

/-- Whether an action fails in the second store as a check does in the first one, which the
check leaves as it is, and spares certain objects if it does not fail. -/
inductive FailsAs (x : References) (s t : Store) (check : Action γ) (a : Action α) : Prop
  | fault {e : Fault} {u : Store} (hcheck : check.exec s = (.error e, s))
    (ha : a.exec t = (.error e, u)) : FailsAs x s t check a
  | value {z : γ} {y : α} {u : Store} (hcheck : check.exec s = (.ok z, s))
    (ha : a.exec t = (.ok y, u)) (htu : t.LeadsSparing x u) : FailsAs x s t check a

theorem FailsAs.fault?_eq (h : FailsAs x s t b a) : a.fault? t = b.fault? s := by
  cases h with
  | fault hcheck ha => rw [fault?, fault?, hcheck, ha]
  | value hcheck ha _ => rw [fault?, fault?, hcheck, ha]

theorem FailsAs.exists_value (h : FailsAs x s t b a) {z : γ} (hcheck : b.exec s = (.ok z, s)) :
    ∃ y u, a.exec t = (.ok y, u) := by
  cases h with
  | fault hfault _ =>
      rw [hcheck] at hfault
      cases hfault
  | value _ ha _ => exact ⟨_, _, ha⟩

theorem Succeeds.failsAs {Q : α → Store → Prop} (h : a.Succeeds x t Q) (z : γ) :
    FailsAs x s t (pure z : Action γ) a := by
  obtain ⟨y, u, hrun, htu, -⟩ := h
  exact .value rfl hrun htu

theorem FailsAs.bind (ha : FailsAs x s t b a)
    (hf : ∀ z y u, t.LeadsSparing x u → FailsAs x s u (g z) (f y)) :
    FailsAs x s t (b >>= g) (a >>= f) := by
  cases ha with
  | fault hcheck ha => exact .fault (by rw [exec_bind, hcheck]) (by rw [exec_bind, ha])
  | @value z y u hcheck ha htu =>
      cases hf z y u htu with
      | fault hcheck' hfault =>
          exact .fault (by rw [exec_bind_of hcheck, hcheck']) (by rw [exec_bind_of_eq ha, hfault])
      | value hcheck' hrest huv =>
          exact .value (by rw [exec_bind_of hcheck, hcheck']) (by rw [exec_bind_of_eq ha, hrest])
            (htu.trans huv)

theorem failsAs_get_bind {f : Store → Action β} (h : FailsAs x s t b (f t)) :
    FailsAs x s t b ((get : Action Store) >>= f) := by
  cases h with
  | fault hcheck ha => exact .fault hcheck (by rw [exec_get_bind, ha])
  | value hcheck ha htu => exact .value hcheck (by rw [exec_get_bind, ha]) htu

/-- What succeeds behind an action makes no difference to its faults. -/
theorem FailsAs.bind_succeeds (ha : FailsAs x s t b a)
    (hf : ∀ y u, t.LeadsSparing x u → (f y).Succeeds x u Q) : FailsAs x s t b (a >>= f) := by
  have h : FailsAs x s t (b >>= pure) (a >>= f) :=
    ha.bind fun z y u htu => (hf y u htu).failsAs z
  rwa [bind_pure] at h

/-- What is read in front of both is read alike. -/
theorem SeesAlike.bind_failsAs {g : α → Action δ} (ha : a.SeesAlike s t)
    (hf : ∀ y, a.exec s = (.ok y, s) → FailsAs x s t (g y) (f y)) :
    FailsAs x s t (a >>= g) (a >>= f) := by
  rcases ha.cases with ⟨e, hs, ht⟩ | ⟨y, hs, ht⟩
  · exact .fault (by rw [exec_bind, hs]) (by rw [exec_bind, ht])
  · cases hf y hs with
    | fault hcheck hfault =>
        exact .fault (by rw [exec_bind_of hs, hcheck]) (by rw [exec_bind_of ht, hfault])
    | value hcheck hrest htu =>
        exact .value (by rw [exec_bind_of hs, hcheck]) (by rw [exec_bind_of ht, hrest]) htu

/-- An action that succeeds behind a reading fails as the reading does. -/
theorem SeesAlike.failsAs_bind (ha : a.SeesAlike s t)
    (hf : ∀ y, a.exec s = (.ok y, s) → (f y).Succeeds x t Q) : FailsAs x s t a (a >>= f) := by
  have h : FailsAs x s t (a >>= pure) (a >>= f) :=
    ha.bind_failsAs fun y hy => (hf y hy).failsAs y
  rwa [bind_pure] at h

end Action

end Biblio
