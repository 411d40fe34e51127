import Biblio.Proofs.Store.Agree
import Biblio.Proofs.Store.Joined

/-!
# What an action gives at any later time

A store goes on, but nothing that is in it grows. An action always gives something if it does
so now and at any later time, however often it and others like it have been run before. Two
actions that always give records of the same fields give equal records, since the one record is
still what it was when the other one comes to it.
-/

namespace Biblio

namespace Action

variable {α β : Type} {s t : Store} {a : Action α} {f : α → Action β} {P : α → Store → Prop}
  {Q : β → Store → Prop}

/-! ## Actions that give a value -/

/-- Whether an action gives a value of which something holds, and lets nothing grow. -/
def Gives (s : Store) (a : Action α) (P : α → Store → Prop) : Prop :=
  ∃ x t, a.exec s = (.ok x, t) ∧ s.Leads False t ∧ P x t

theorem gives_pure {x : α} (h : P x s) : (pure x : Action α).Gives s P :=
  ⟨x, s, rfl, .refl s, h⟩

theorem gives_of_exec {x : α} (hrun : a.exec s = (.ok x, s)) (h : P x s) : a.Gives s P :=
  ⟨x, s, hrun, .refl s, h⟩

theorem Gives.bind (ha : a.Gives s P)
    (hf : ∀ x t, s.Leads False t → P x t → (f x).Gives t Q) : (a >>= f).Gives s Q := by
  obtain ⟨x, t, hrun, hst, hx⟩ := ha
  obtain ⟨y, u, hrest, htu, hy⟩ := hf x t hst hx
  exact ⟨y, u, by rw [exec_bind_of_eq hrun, hrest], hst.trans htu, hy⟩

theorem Gives.map {g : α → β} (ha : a.Gives s P) (hPQ : ∀ x t, P x t → Q (g x) t) :
    (g <$> a).Gives s Q := by
  rw [map_eq_pure_bind]
  exact ha.bind fun x t _ hx => gives_pure (hPQ x t hx)

/-- Behind an action that changes nothing, the rest is run on its value. -/
theorem gives_bind_of {x : α} (hrun : a.exec s = (.ok x, s)) (h : (f x).Gives s Q) :
    (a >>= f).Gives s Q := by
  rw [Gives, exec_bind_of hrun]
  exact h

theorem Gives.imp {P' : α → Store → Prop} (ha : a.Gives s P)
    (hP : ∀ x t, s.Leads False t → P x t → P' x t) : a.Gives s P' := by
  obtain ⟨x, t, hrun, hst, hx⟩ := ha
  exact ⟨x, t, hrun, hst, hP x t hst hx⟩

/-- What holds of the value that an action gives holds of the one that it ends with. -/
theorem Gives.of_exec_eq_ok {x : α} (ha : a.Gives s P) (hrun : a.exec s = (.ok x, t)) :
    s.Leads False t ∧ P x t := by
  obtain ⟨y, u, hrun', hsu, hy⟩ := ha
  obtain ⟨hvalue, rfl⟩ := Prod.mk.inj (hrun.symm.trans hrun')
  obtain rfl := Except.ok.inj hvalue
  exact ⟨hsu, hy⟩

theorem gives_newRecord {fs : List FieldRef} (h : ∀ f ∈ fs, s.HasField f) :
    (newRecord fs).Gives s fun r t => t.HasRecord r ∧ (t.record r).fields = fs := by
  refine ⟨_, _, exec_newRecord fs s, .single (.newRecord h), s.hasRecord_nextRecord fs, ?_⟩
  rw [Store.record_withNewRecord, if_pos rfl, Store.fields_gather]

/-! ## Later stores -/

/-- Whether an action gives a value of which something holds, now and at any later time. -/
def AlwaysGives (s : Store) (a : Action α) (P : α → Store → Prop) : Prop :=
  ∀ t, s.Leads False t → a.Gives t P

theorem AlwaysGives.now (h : a.AlwaysGives s P) : a.Gives s P :=
  h s (.refl s)

theorem AlwaysGives.bind (ha : a.AlwaysGives s P)
    (hf : ∀ x t, s.Leads False t → P x t → (f x).Gives t Q) : (a >>= f).AlwaysGives s Q :=
  fun t hst => (ha t hst).bind fun x u htu hx => hf x u (hst.trans htu) hx

theorem alwaysGives_pure {x : α} (h : ∀ t, s.Leads False t → P x t) :
    (pure x : Action α).AlwaysGives s P :=
  fun t hst => gives_pure (h t hst)

/-- Actions that always give the same, seen through a function, do so in a row. -/
theorem alwaysGives_mapM {γ : Type} {xs : List α} {f : α → Action β} {g : β → γ} {out : α → γ}
    (h : ∀ x ∈ xs, (f x).AlwaysGives s fun y _ => g y = out x) :
    (xs.mapM f).AlwaysGives s fun ys _ => ys.map g = xs.map out := by
  induction xs with
  | nil => exact alwaysGives_pure fun _ _ => rfl
  | cons x xs ih =>
      rw [List.mapM_cons]
      refine (h x (by simp)).bind fun y t hst hy => ?_
      refine (ih (fun x hx => h x (by simp [hx])) t hst).bind fun ys u _ hys => ?_
      exact gives_pure (by rw [List.map_cons, List.map_cons, hy, hys])

/-- A value that is always given is the one that is given now. -/
theorem AlwaysGives.value?_eq {x : α} (h : a.AlwaysGives s fun y _ => y = x) :
    a.value? s = some x := by
  obtain ⟨y, t, hrun, -, rfl⟩ := h.now
  exact value?_of_exec hrun

end Action

/-! ## Records of the same fields -/

def Datum.IsRecordOf (fs : List FieldRef) (v : Datum) (s : Store) : Prop :=
  ∃ r, v = .record r ∧ s.HasRecord r ∧ (s.record r).fields = fs

variable {s t : Store} {fs gs : List FieldRef} {a b : Action Datum}

theorem Datum.isRecordOf_record_iff {r : RecordRef} :
    Datum.IsRecordOf fs (.record r) s ↔ s.HasRecord r ∧ (s.record r).fields = fs := by
  constructor
  · rintro ⟨q, hq, h⟩
    obtain rfl := Value.record.inj hq
    exact h
  · exact fun h => ⟨r, rfl, h⟩

/-- A record stays a record of the same fields. -/
theorem Datum.IsRecordOf.mono {v : Datum} (h : v.IsRecordOf fs s) (hst : s.Leads False t) :
    v.IsRecordOf fs t := by
  obtain ⟨r, rfl, hr, hfs⟩ := h
  exact ⟨r, rfl, hr.mono hst, by rw [hr.record_eq hst, hfs]⟩

namespace Action

def GivesRecordOf (s : Store) (fs : List FieldRef) (a : Action Datum) : Prop :=
  a.AlwaysGives s (Datum.IsRecordOf fs)

/-- Whether of two actions that are run one after the other the second one always gives a record
that is equal to that of the first one. -/
def GiveEqual (s : Store) (a b : Action Datum) : Prop :=
  ∀ t, s.Leads False t → ∃ r q u v, a.exec t = (.ok (.record r), u) ∧
    b.exec u = (.ok (.record q), v) ∧ v.sameRecord r q = true

theorem GivesRecordOf.giveEqual (ha : a.GivesRecordOf s fs) (hb : b.GivesRecordOf s fs) :
    a.GiveEqual s b := by
  intro t hst
  obtain ⟨x, u, hrun, htu, hx⟩ := ha t hst
  obtain ⟨y, v, hrest, huv, hy⟩ := hb u (hst.trans htu)
  -- The first record is compared where the second action ends.
  have hx := hx.mono huv
  obtain ⟨r, rfl, -, hr⟩ := hx
  obtain ⟨q, rfl, -, hq⟩ := hy
  refine ⟨r, q, u, v, hrun, hrest, Store.sameRecord_of_fieldsOf_eq ?_⟩
  rw [Store.fieldsOf, Store.fieldsOf, hr, hq]

/-- Whether actions always give records of the same fields, which are equal in pairs. -/
structure GiveSame (s : Store) (fs : List FieldRef) (as : List (Action Datum)) : Prop where
  fields : ∀ a ∈ as, a.GivesRecordOf s fs
  equal : ∀ a ∈ as, ∀ b ∈ as, a.GiveEqual s b

theorem giveSame_of_givesRecordOf {as : List (Action Datum)}
    (h : ∀ a ∈ as, a.GivesRecordOf s fs) : GiveSame s fs as :=
  ⟨h, fun a ha b hb => (h a ha).giveEqual (h b hb)⟩

/-- Records that are equal have the same number of fields. -/
theorem GiveEqual.length_eq (h : a.GiveEqual s b) (ha : a.GivesRecordOf s fs)
    (hb : b.GivesRecordOf s gs) : fs.length = gs.length := by
  obtain ⟨r, q, u, v, hrun, hrest, hsame⟩ := h s (.refl s)
  obtain ⟨hsu, hr⟩ := ha.now.of_exec_eq_ok hrun
  obtain ⟨huv, hq⟩ := (hb u hsu).of_exec_eq_ok hrest
  obtain ⟨-, hfs⟩ := Datum.isRecordOf_record_iff.mp (hr.mono huv)
  obtain ⟨-, hgs⟩ := Datum.isRecordOf_record_iff.mp hq
  rw [Store.sameRecord, Bool.and_eq_true, beq_iff_eq, Store.fieldsOf, Store.fieldsOf,
    List.length_map, List.length_map, hfs, hgs] at hsame
  exact hsame.1

end Action

end Biblio
