import Biblio.Request.Call
import Biblio.Proofs.Run.Record

/-!
# Calls as runs of steps

An operation with arguments of the store makes steps only, whatever its name is, and its
answer is in the store where it ends. Only the operations that are there to grow an object
need steps that change what exists.
-/

namespace Biblio

open Biblio.Action

variable {s t : Store} {growth : Prop}

namespace Request

theorem runs_withArguments {α : Type} {Q : α → Store → Prop} {name : String}
    {parameters : List String} {required : Nat} {args : List Arg} {body : (Nat → Arg) → Action α}
    (h : (body fun i => args.getD i .null).Runs growth s Q) :
    (withArguments name parameters required args body).Runs growth s Q := by
  unfold withArguments
  split
  · exact h
  · exact runs_throw _

theorem isIn_getD {args : List Arg} (hargs : ∀ v ∈ args, Arg.IsIn growth s v) (i : Nat) :
    Arg.IsIn growth s (args.getD i .null) := by
  rw [List.getD_eq_getElem?_getD]
  cases h : args[i]? with
  | none => trivial
  | some v => exact hargs v (List.mem_of_getElem? h)

theorem isIn_withError {result : Datum} (h : result.IsIn s) (error : Option QueryError) :
    (withError result error).IsIn s := by
  have herror : Datum.IsIn s (.ofOption .error error) := by
    cases error <;> trivial
  simpa [withError, Datum.IsIn] using ⟨h, herror⟩

/-! ## Any value -/

theorem steps_contains (v : Datum) (item : Arg) : (contains v item).Steps growth s := by
  refine runs_get_bind fun _ => ?_
  split
  · exact runs_pure fun _ => trivial
  · exact runs_throw _
  · exact (steps_checkKey _).bind fun _ _ _ _ => runs_pure fun _ => trivial
  · exact FieldRef.steps_contains _ _
  · exact RecordRef.steps_contains _ _
  · split
    · exact runs_pure fun _ => trivial
    · exact runs_throw _

theorem runs_callValue {v : Datum} (hv : v.IsIn s) (name : String) {args : List Arg} :
    (callValue v name args).Runs growth s fun x t => x.IsIn t := by
  refine runs_get_bind fun hs => ?_
  dsimp only
  split
  case h_1 =>
    split
    · exact runs_pure fun _ => trivial
    · exact runs_throw _
  case h_2 => exact runs_pure fun _ => trivial
  case h_3 => exact runs_pure fun _ => trivial
  case h_4 =>
    split
    · next xs h =>
      exact runs_pure fun _ => (Value.all_list xs).mpr (Value.all_of_items? hs.hasField hv h)
    · exact runs_throw _
  case h_5 => exact runs_withArguments (Value.runs_item hv _)
  case h_6 => exact runs_withArguments ((steps_contains _ _).map fun _ _ _ _ _ => trivial)
  case h_7 => exact runs_withArguments (runs_pure fun _ => trivial)
  case h_8 => exact runs_withArguments (runs_pure fun _ => trivial)
  case h_9 => exact runs_throw _

/-! ## Fields and records -/

/-- Whether a name is that of an operation that grows an object. -/
def Grows (name : String) : Prop :=
  name = "append" ∨ name = "extend"

instance (name : String) : Decidable (Grows name) :=
  inferInstanceAs (Decidable (_ ∨ _))

theorem runs_callField {f : FieldRef} (hf : s.HasField f) {name : String}
    (hg : Grows name → growth) {args : List Arg} (hargs : ∀ v ∈ args, Arg.IsIn growth s v) :
    (callField f name args).Runs growth s fun x t => x.IsIn t := by
  have harg := isIn_getD hargs
  have htext : ∀ {a : Action (Option String)}, a.Steps growth s →
      (Value.ofOption Value.text <$> a : Action Datum).Runs growth s fun x t => x.IsIn t :=
    fun h => h.map fun x _ _ _ _ => Datum.isIn_ofOption_text x
  have htexts : ∀ {a : Action (List String)}, a.Steps growth s →
      (Value.texts <$> a : Action Datum).Runs growth s fun x t => x.IsIn t :=
    fun h => h.map fun x _ _ _ _ => Datum.isIn_texts x
  refine runs_field_bind ?_
  dsimp only
  split
  case h_1 => exact runs_pure fun _ => hf
  case h_2 =>
    exact runs_withArguments ((f.steps_append (hg (.inl rfl)) _ _).bind fun _ _ hst _ =>
      runs_pure fun _ => hf.mono hst)
  case h_3 =>
    exact runs_withArguments ((f.steps_extend (hg (.inr rfl)) (harg 0)).bind fun _ _ hst _ =>
      runs_pure fun _ => hf.mono hst)
  case h_4 => exact runs_withArguments (htext (f.steps_byPosition _))
  case h_5 => exact runs_withArguments (htext (f.steps_byCode _))
  case h_6 => exact runs_withArguments (htexts (f.steps_valuesFor _))
  case h_7 => exact runs_withArguments (runs_pure fun _ => Datum.isIn_texts _)
  case h_8 => exact runs_withArguments (runs_pure fun _ => Datum.isIn_texts _)
  case h_9 =>
    refine runs_withArguments (runs_pure fun _ => ?_)
    rw [Datum.IsIn, Value.all_list]
    simp [Value.All]
  case h_10 =>
    exact runs_withArguments ((f.steps_get _ _ (harg 2)).bind fun _ _ _ _ =>
      runs_pure fun _ => isIn_withError (Datum.isIn_texts _) _)
  case h_11 => exact runs_withArguments (htext (f.steps_first _ (harg 1)))
  case h_12 => exact runs_withArguments (htexts (f.steps_all _ (harg 1)))
  case h_13 =>
    exact runs_withArguments ((f.runs_map hf (harg 0)).map fun _ _ _ _ h => h.toDatum)
  case h_14 => exact runs_withArguments (f.runs_join hf _ (harg 1))
  case h_15 => exact runs_withArguments ((f.runs_copy _ _).map fun _ _ _ _ h => h.2)
  case h_16 => exact runs_withArguments ((f.steps_sameLabel _).map fun _ _ _ _ _ => trivial)
  case h_17 =>
    split
    · next v hv => exact runs_pure fun _ => Value.isIn_of_mem_fieldProperty? _ _ v hv
    · exact runs_callValue (f.isIn_field hf) name

theorem runs_callRecord (r : RecordRef) {name : String} (hg : Grows name → growth)
    {args : List Arg} (hargs : ∀ v ∈ args, Arg.IsIn growth s v) :
    (callRecord r name args).Runs growth s fun x t => x.IsIn t := by
  have harg := isIn_getD hargs
  have hattempts : ∀ p ∈ args.map Arg.attempt, Query.Predicate.Acts growth s p := by
    intro p hp
    obtain ⟨v, hv, rfl⟩ := List.mem_map.mp hp
    exact Arg.acts_attempt (hargs v hv)
  have hrecord : ∀ {a : Action RecordRef}, a.Steps growth s →
      (Value.record <$> a : Action Datum).Runs growth s fun x t => x.IsIn t :=
    fun h => h.map fun _ _ _ _ _ => trivial
  refine runs_record_bind fun hs => ?_
  dsimp only
  split
  case h_1 => exact runs_pure fun _ => trivial
  case h_2 =>
    exact runs_withArguments ((r.steps_append (hg (.inl rfl)) (harg 0)).bind fun _ _ _ _ =>
      runs_pure fun _ => trivial)
  case h_3 => exact runs_withArguments (runs_pure fun _ =>
    (Value.all_fields _).mpr (hs.hasField r))
  case h_4 =>
    exact runs_withArguments ((r.runs_fieldsByTag _).bind fun _ _ _ hfs =>
      runs_pure fun _ => (Value.all_fields _).mpr hfs)
  case h_5 => exact runs_withArguments (r.runs_first _ _ (harg 2))
  case h_6 => exact runs_withArguments (r.runs_all (harg 0) _ (harg 2))
  case h_7 =>
    exact runs_withArguments ((r.runs_query _ _ (harg 2)).bind fun _ _ _ hx =>
      runs_pure fun _ => isIn_withError hx _)
  case h_8 => exact runs_withArguments ((r.steps_has _ _).map fun _ _ _ _ _ => trivial)
  case h_9 => exact runs_withArguments ((r.runs_map (harg 0)).map fun _ _ _ _ h => h.toDatum)
  case h_10 => exact hrecord (r.steps_filter hattempts)
  case h_11 => exact (r.steps_apply hattempts).bind fun _ _ _ _ => runs_pure fun _ => trivial
  case h_12 =>
    refine runs_withArguments ?_
    split
    · exact hrecord (r.steps_slice _ _ _)
    · exact hrecord (r.steps_slice _ _ _)
  case h_13 =>
    split
    · next v hv => exact runs_pure fun _ => Value.isIn_of_mem_recordProperty? _ _ v hv
    · exact runs_callValue (v := .record r) trivial name

/-! ## Tables of operations -/

theorem runs_call {x : Datum} (hx : x.IsIn s) {name : String} (hg : Grows name → growth)
    {args : List Arg} (hargs : ∀ v ∈ args, Arg.IsIn growth s v) :
    (call x name args).Runs growth s fun y t => y.IsIn t := by
  unfold call
  split
  · exact runs_callField hx hg hargs
  · exact runs_callRecord _ hg hargs
  · exact runs_callValue hx name

theorem runs_create (hg : growth) (name : String) {args : List Arg}
    (hargs : ∀ v ∈ args, Arg.IsIn growth s v) :
    (create name args).Runs growth s fun y t => y.IsIn t := by
  have harg := isIn_getD hargs
  unfold create
  dsimp only
  split
  case h_1 => exact runs_withArguments ((runs_createField _ _).map fun _ _ _ _ h => h)
  case h_2 => exact runs_withArguments ((runs_readField _).map fun _ _ _ _ h => h)
  case h_3 =>
    exact runs_withArguments ((steps_createRecord (harg 0)).map fun _ _ _ _ _ => trivial)
  case h_4 => exact runs_withArguments ((steps_readRecord hg _).map fun _ _ _ _ _ => trivial)
  case h_5 => exact runs_withArguments ((Arg.steps_toLocator _ _).map fun _ _ _ _ _ => trivial)
  case h_6 => exact runs_withArguments (runs_pure fun _ => trivial)
  case h_7 => exact runs_throw _

end Request

end Biblio
