import Biblio.Proofs.Store.Run

/-!
# What values refer to

A value is in a store if the fields that it refers to exist there; of the callbacks in an
argument it is asked too that they act by steps: in every store that the present one leads
to, called with a value of that store, they make steps and give a value of the store where
they end. Both stay so as the store goes on.
-/

namespace Biblio

namespace Value

variable {φ ψ : Type} {F F' : FieldRef → Prop} {C C' : φ → Prop}

mutual

/-- Whether the fields that a value refers to and the callbacks in it satisfy conditions. -/
def All (F : FieldRef → Prop) (C : φ → Prop) : Value φ → Prop
  | list xs => AllList F C xs
  | tuple xs => AllList F C xs
  | table es => AllEntries F C es
  | field f => F f
  | failure k _ => All F C k
  | callback c => C c
  | step st => AllStep F C st
  | chain ss => AllSteps F C ss
  | _ => True

def AllList (F : FieldRef → Prop) (C : φ → Prop) : List (Value φ) → Prop
  | [] => True
  | x :: xs => All F C x ∧ AllList F C xs

def AllEntries (F : FieldRef → Prop) (C : φ → Prop) : List (Value φ × Value φ) → Prop
  | [] => True
  | (k, v) :: es => (All F C k ∧ All F C v) ∧ AllEntries F C es

def AllStep (F : FieldRef → Prop) (C : φ → Prop) : Biblio.Step φ → Prop
  | .each c => C c
  | .nested st => AllStep F C st
  | .idle _ v => All F C v
  | _ => True

def AllSteps (F : FieldRef → Prop) (C : φ → Prop) : List (Biblio.Step φ) → Prop
  | [] => True
  | st :: ss => AllStep F C st ∧ AllSteps F C ss

end

theorem allList_iff {xs : List (Value φ)} : AllList F C xs ↔ ∀ x ∈ xs, x.All F C := by
  induction xs with
  | nil => simp [AllList]
  | cons x xs ih => simp [AllList, ih]

theorem allEntries_iff {es : List (Value φ × Value φ)} :
    AllEntries F C es ↔ ∀ e ∈ es, e.1.All F C ∧ e.2.All F C := by
  induction es with
  | nil => simp [AllEntries]
  | cons e es ih =>
      obtain ⟨k, v⟩ := e
      simp [AllEntries, ih]

theorem allSteps_iff {ss : List (Biblio.Step φ)} :
    AllSteps F C ss ↔ ∀ st ∈ ss, AllStep F C st := by
  induction ss with
  | nil => simp [AllSteps]
  | cons st ss ih => simp [AllSteps, ih]

@[simp] theorem all_list (xs : List (Value φ)) :
    (list xs).All F C ↔ ∀ x ∈ xs, x.All F C := by
  rw [All, allList_iff]

@[simp] theorem all_tuple (xs : List (Value φ)) :
    (tuple xs).All F C ↔ ∀ x ∈ xs, x.All F C := by
  rw [All, allList_iff]

@[simp] theorem all_table (es : List (Value φ × Value φ)) :
    (table es).All F C ↔ ∀ e ∈ es, e.1.All F C ∧ e.2.All F C := by
  rw [All, allEntries_iff]

@[simp] theorem all_chain (ss : List (Biblio.Step φ)) :
    (chain ss).All F C ↔ ∀ st ∈ ss, AllStep F C st := by
  rw [All, allSteps_iff]

theorem all_fields (fs : List FieldRef) :
    (list (fs.map field) : Value φ).All F C ↔ ∀ f ∈ fs, F f := by
  rw [all_list]
  simp [All]

mutual

/-- Conditions that are weaker, and those on changed callbacks that hold of the changes. -/
theorem All.map {D : ψ → Prop} {g : φ → ψ} (hF : ∀ f, F f → F' f) (hC : ∀ c, C c → D (g c)) :
    ∀ v : Value φ, v.All F C → (v.map g).All F' D
  | list xs, h => AllList.map hF hC xs h
  | tuple xs, h => AllList.map hF hC xs h
  | table es, h => AllEntries.map hF hC es h
  | field f, h => hF f h
  | failure k _, h => All.map hF hC k h
  | callback c, h => hC c h
  | step st, h => AllStep.map hF hC st h
  | chain ss, h => AllSteps.map hF hC ss h
  | null, _ | bool _, _ | int _, _ | real _, _ | text _, _ | bytes _, _ | subfield _, _
  | record _, _ | locator _, _ | selector _, _ | error _, _ | pattern _, _
  | operation _, _ => trivial

theorem AllList.map {D : ψ → Prop} {g : φ → ψ} (hF : ∀ f, F f → F' f)
    (hC : ∀ c, C c → D (g c)) :
    ∀ xs : List (Value φ), AllList F C xs → AllList F' D (mapList g xs)
  | [], _ => trivial
  | x :: xs, h => ⟨All.map hF hC x h.1, AllList.map hF hC xs h.2⟩

theorem AllEntries.map {D : ψ → Prop} {g : φ → ψ} (hF : ∀ f, F f → F' f)
    (hC : ∀ c, C c → D (g c)) :
    ∀ es : List (Value φ × Value φ), AllEntries F C es → AllEntries F' D (mapEntries g es)
  | [], _ => trivial
  | (k, v) :: es, h =>
    ⟨⟨All.map hF hC k h.1.1, All.map hF hC v h.1.2⟩, AllEntries.map hF hC es h.2⟩

theorem AllStep.map {D : ψ → Prop} {g : φ → ψ} (hF : ∀ f, F f → F' f)
    (hC : ∀ c, C c → D (g c)) :
    ∀ st : Biblio.Step φ, AllStep F C st → AllStep F' D (mapStep g st)
  | .each c, h => hC c h
  | .nested st, h => AllStep.map hF hC st h
  | .idle _ v, h => All.map hF hC v h
  | .find _, _ | .format _, _ => trivial

theorem AllSteps.map {D : ψ → Prop} {g : φ → ψ} (hF : ∀ f, F f → F' f)
    (hC : ∀ c, C c → D (g c)) :
    ∀ ss : List (Biblio.Step φ), AllSteps F C ss → AllSteps F' D (mapSteps g ss)
  | [], _ => trivial
  | st :: ss, h => ⟨AllStep.map hF hC st h.1, AllSteps.map hF hC ss h.2⟩

end

mutual

theorem map_id : ∀ v : Value φ, v.map id = v
  | list xs => congrArg list (mapList_id xs)
  | tuple xs => congrArg tuple (mapList_id xs)
  | table es => congrArg table (mapEntries_id es)
  | failure k c => congrArg (failure · c) (map_id k)
  | step st => congrArg step (mapStep_id st)
  | chain ss => congrArg chain (mapSteps_id ss)
  | null | bool _ | int _ | real _ | text _ | bytes _ | subfield _ | field _ | record _
  | locator _ | selector _ | error _ | pattern _ | callback _ | operation _ => rfl

theorem mapList_id : ∀ xs : List (Value φ), mapList id xs = xs
  | [] => rfl
  | x :: xs => congrArg₂ List.cons (map_id x) (mapList_id xs)

theorem mapEntries_id : ∀ es : List (Value φ × Value φ), mapEntries id es = es
  | [] => rfl
  | (k, v) :: es =>
    congrArg₂ List.cons (congrArg₂ Prod.mk (map_id k) (map_id v)) (mapEntries_id es)

theorem mapStep_id : ∀ st : Biblio.Step φ, mapStep id st = st
  | .each _ => rfl
  | .nested st => congrArg Biblio.Step.nested (mapStep_id st)
  | .idle k v => congrArg (Biblio.Step.idle k) (map_id v)
  | .find _ | .format _ => rfl

theorem mapSteps_id : ∀ ss : List (Biblio.Step φ), mapSteps id ss = ss
  | [] => rfl
  | st :: ss => congrArg₂ List.cons (mapStep_id st) (mapSteps_id ss)

end

theorem All.mono (hF : ∀ f, F f → F' f) (hC : ∀ c, C c → C' c) {v : Value φ} (h : v.All F C) :
    v.All F' C' := by
  have hmap := All.map (g := id) hF hC v h
  rwa [map_id] at hmap

theorem AllStep.mono (hF : ∀ f, F f → F' f) (hC : ∀ c, C c → C' c) {st : Biblio.Step φ}
    (h : AllStep F C st) : AllStep F' C' st := by
  have hmap := AllStep.map (g := id) hF hC st h
  rwa [mapStep_id] at hmap

/-- The items of a value satisfy what the value does, as those of records do. -/
theorem all_of_items? {s : Store} (hF : ∀ r, ∀ f ∈ (s.record r).fields, F f) {v : Value φ}
    (hv : v.All F C) {xs : List (Value φ)} (h : s.items? v = some xs) :
    ∀ x ∈ xs, x.All F C := by
  unfold Store.items? at h
  split at h
  case h_3 | h_4 =>
    obtain rfl := Option.some.inj h
    exact allList_iff.mp hv
  case h_5 es =>
    obtain rfl := Option.some.inj h
    simp only [List.mem_map]
    rintro _ ⟨e, he, rfl⟩
    exact ((all_table es).mp hv e he).1
  case h_8 r =>
    obtain rfl := Option.some.inj h
    simpa [All] using hF r
  case h_9 ss =>
    obtain rfl := Option.some.inj h
    simpa [All] using (all_chain ss).mp hv
  case h_10 => exact absurd h (by simp)
  all_goals
    obtain rfl := Option.some.inj h
    simp [All]

end Value

/-! ## Being in a store -/

def Datum.IsIn (s : Store) (x : Datum) : Prop :=
  x.All s.HasField fun _ => True

/-- Whether a callback does, from a store on, nothing but make steps. -/
def Callback.Acts (growth : Prop) (s : Store) (c : Callback) : Prop :=
  ∀ t, s.Leads growth t → ∀ x : Datum, x.IsIn t → (c x).Runs growth t fun y u => y.IsIn u

/-- Whether the fields that an argument refers to exist and its callbacks act by steps. -/
def Arg.IsIn (growth : Prop) (s : Store) (v : Arg) : Prop :=
  v.All s.HasField (Callback.Acts growth s)

def Step.IsIn (growth : Prop) (s : Store) (st : Step Callback) : Prop :=
  Value.AllStep s.HasField (Callback.Acts growth s) st

variable {s t : Store} {growth : Prop}

theorem Datum.IsIn.mono {x : Datum} (h : x.IsIn s) (hst : s.Leads growth t) : x.IsIn t :=
  Value.All.mono (fun _ hf => hf.mono hst) (fun _ h => h) h

theorem Callback.Acts.mono {c : Callback} (h : c.Acts growth s) (hst : s.Leads growth t) :
    c.Acts growth t :=
  fun u htu => h u (hst.trans htu)

theorem Arg.IsIn.mono {v : Arg} (h : v.IsIn growth s) (hst : s.Leads growth t) :
    v.IsIn growth t :=
  Value.All.mono (fun _ hf => hf.mono hst) (fun _ hc => hc.mono hst) h

theorem Step.IsIn.mono {st : Step Callback} (h : st.IsIn growth s) (hst : s.Leads growth t) :
    st.IsIn growth t :=
  Value.AllStep.mono (fun _ hf => hf.mono hst) (fun _ hc => hc.mono hst) h

theorem Arg.isIn_texts (xs : List String) : ∀ v ∈ xs.map Value.text, Arg.IsIn growth s v := by
  intro v hv
  obtain ⟨x, -, rfl⟩ := List.mem_map.mp hv
  trivial

/-- Making the callbacks of an argument opaque. -/
theorem Arg.IsIn.forget {v : Arg} (h : v.IsIn growth s) : Datum.IsIn s v.forget :=
  Value.All.map (fun _ hf => hf) (fun _ _ => trivial) v h

end Biblio
