import Biblio.Proofs.Payload
import Biblio.Proofs.Run.Argument

/-!
# Operations on fields as runs of steps

Every operation on a field makes steps only, and what it answers with is in the store
where it ends. Only growing a field needs steps that change what exists.
-/

namespace Biblio

open Biblio.Action

variable {s t : Store} {growth : Prop}

namespace FieldRef

variable (f : FieldRef)

/-! ## Growth -/

theorem steps_append (hg : growth) (code value : Arg) :
    (f.append code value).Steps growth s := by
  unfold append
  split
  · next c =>
    by_cases hc : (!Field.isCodeForm c) = true
    · rw [if_pos hc]
      exact runs_throw_bind _
    · rw [if_neg hc]
      split
      · exact steps_pushSubfield hg f (by simpa using hc) _
      · exact runs_throw _
  · exact runs_get_bind fun _ => runs_throw _

theorem steps_extendItems (hg : growth) {xs : List Arg} (hxs : ∀ x ∈ xs, Arg.IsIn growth s x) :
    (f.extendItems xs).Steps growth s := by
  induction xs generalizing s with
  | nil => exact runs_pure fun _ => trivial
  | cons x xs ih =>
      refine (Arg.runs_pair (hxs x (by simp))).bind fun xy t hst _ => ?_
      refine (f.steps_append hg xy.1 xy.2).bind fun _ u htu _ => ?_
      exact ih fun y hy => (hxs y (by simp [hy])).mono (hst.trans htu)

theorem steps_extend (hg : growth) {data : Arg} (hdata : data.IsIn growth s) :
    (f.extend data).Steps growth s := by
  unfold extend
  split
  · split
    · next gs h => exact steps_pushGroups hg f (Payload.isCode_of_decode? h)
    · exact runs_throw _
  · exact (Arg.runs_items hdata).bind fun xs t _ hxs => f.steps_extendItems hg hxs

/-! ## Plain access -/

theorem steps_byPosition (position : Arg) : (f.byPosition position).Steps growth s := by
  refine runs_field_bind ?_
  split
  · split
    · exact runs_throw _
    · exact runs_pure fun _ => trivial
  · split
    · exact runs_pure fun _ => trivial
    · exact runs_throw _

theorem steps_valuesFor (code : Arg) : (f.valuesFor code).Steps growth s :=
  runs_field_bind ((steps_codeOf? code).bind fun _ _ _ _ => runs_pure fun _ => trivial)

theorem steps_contains (code : Arg) : (f.contains code).Steps growth s :=
  runs_field_bind ((steps_codeOf? code).bind fun _ _ _ _ => runs_pure fun _ => trivial)

theorem steps_sameLabel (other : Arg) : (f.sameLabel other).Steps growth s := by
  unfold sameLabel
  split
  · exact runs_field_bind (runs_field_bind (runs_pure fun _ => trivial))
  · exact (steps_checkKey _).bind fun _ _ _ _ => runs_pure fun _ => trivial

/-! ## Queries -/

theorem steps_query (sel : Selector) {filters : Arg} (hfilters : filters.IsIn growth s) :
    (f.query sel filters).Steps growth s :=
  (Chain.runs_ofArg hfilters).bind fun _ _ _ hc =>
    runs_field_bind (Query.steps_queryField (Chain.acts_sieve hc) _ sel)

theorem steps_get (code marks : Arg) {filters : Arg} (hfilters : filters.IsIn growth s) :
    (f.get code marks filters).Steps growth s :=
  (Arg.steps_fieldSelector code marks).bind fun sel _ hst _ =>
    f.steps_query sel (hfilters.mono hst)

theorem steps_first (code : Arg) {filters : Arg} (hfilters : filters.IsIn growth s) :
    (f.first code filters).Steps growth s := by
  refine (Arg.steps_fieldSelector code .null).bind fun sel t hst _ => ?_
  exact (f.steps_query _ (hfilters.mono hst)).bind fun _ _ _ _ => runs_pure fun _ => trivial

theorem steps_all (code : Arg) {filters : Arg} (hfilters : filters.IsIn growth s) :
    (f.all code filters).Steps growth s :=
  (f.steps_get code .null hfilters).bind fun _ _ _ _ => runs_pure fun _ => trivial

theorem isIn_unwrap (sel : Selector) (vs : List String) : (unwrap sel vs).IsIn s := by
  unfold unwrap
  split
  · split
    · exact Datum.isIn_texts _
    · trivial
  · exact Datum.isIn_texts _

theorem acts_resolve : Mapping.Resolver.Acts growth s f.resolve := by
  intro t _ entry hentry
  refine (Mapping.runs_fieldQuery hentry).bind fun q u _ hq => ?_
  refine (Arg.steps_fieldSelector (.text q.code) q.marks).bind fun sel w huw _ => ?_
  exact (f.steps_query _ (hq.mono huw)).bind fun _ _ _ _ => runs_pure fun _ => isIn_unwrap _ _

theorem isIn_field (hf : s.HasField f) : Datum.IsIn s (.field f) := hf

theorem runs_map (hf : s.HasField f) {mapping : Arg} (hmapping : mapping.IsIn growth s) :
    (f.map mapping).Runs growth s fun x t => x.IsIn t :=
  (Mapping.runs_entries hmapping).bind fun _ _ hst hes =>
    Mapping.runs_collect f.acts_resolve (f.isIn_field (hf.mono hst)) hes

/-! ## Joining -/

theorem runs_joinEntries {codes : Arg} (hcodes : codes.IsIn growth s) :
    (joinEntries codes).Runs growth s fun es t =>
      ∀ e ∈ es, e.1.IsIn growth t ∧ e.2.IsIn growth t := by
  unfold joinEntries
  split
  · next es => exact runs_pure fun _ => (Value.all_table es).mp hcodes
  · refine (Arg.runs_items hcodes).bind fun xs t _ hxs => runs_pure fun _ => ?_
    intro e he
    obtain ⟨i, hi, rfl⟩ := List.mem_mapIdx.mp he
    exact ⟨trivial, hxs _ (List.getElem_mem hi)⟩

theorem runs_join (hf : s.HasField f) (sep : Arg) {codes : Arg} (hcodes : codes.IsIn growth s) :
    (f.join sep codes).Runs growth s fun x t => x.IsIn t := by
  unfold join
  -- All values or selected ones: the separator is read in the same way behind both.
  lift_lets
  extract_lets jp
  have hjoin : ∀ vs t, (jp vs).Runs growth t fun x u => x.IsIn u := by
    intro vs t
    dsimp only [jp]
    split
    · exact runs_ofExcept_bind fun _ => runs_pure fun _ => trivial
    · exact runs_ofExcept_bind fun _ => runs_pure fun _ => trivial
    · exact runs_throw _
    · exact runs_throw _
  by_cases hnull : codes.isNull = true
  · rw [if_pos hnull]
    exact runs_field_bind (hjoin _ s)
  · rw [if_neg hnull]
    refine (runs_joinEntries hcodes).bind fun es t hst hes => ?_
    exact (Mapping.runs_collect f.acts_resolve (f.isIn_field (hf.mono hst)) hes).bind
      fun _ u _ _ => hjoin _ u

/-! ## Copying -/

/-- A copy is a field of its own. -/
theorem runs_copy (fullTag codes : Arg) :
    (f.copy fullTag codes).Runs growth s fun g t => ¬s.HasField g ∧ t.HasField g := by
  refine runs_field_bind ((Arg.runs_toCodeClass _).bind ?_)
  rintro k _ - rfl
  split
  · exact runs_of_exec (exec_newField _ _) (fun _ => .single (.newField (.copy f _ k)))
      fun _ => ⟨Nat.lt_irrefl _, Store.hasField_nextField _ _⟩
  · exact runs_throw _

end FieldRef

theorem Action.runs_readField (line : Arg) :
    (readField line).Runs growth s fun f t => t.HasField f := by
  unfold readField
  split
  · exact runs_parseField _
  · exact runs_throw _

end Biblio
