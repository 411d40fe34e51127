import Biblio.Request.Script
import Biblio.Proofs.Run.Call

/-!
# Scripts as runs of steps

What a literal writes is in the store where its evaluation ends, if the objects that the
scope names are in the store where it starts. So the steps of a script are runs of steps
of the store, and the objects that they store stay in it.
-/

namespace Biblio

open Biblio.Action

variable {s t : Store} {growth : Prop}

/-! ## Builtins -/

namespace Builtin

theorem runs_onField (v : Datum) (property : String) {g : Field → Action Datum}
    {Q : Datum → Store → Prop} (h : ∀ x, (g x).Runs growth s Q) :
    (onField v property g).Runs growth s Q := by
  unfold onField
  split
  · exact runs_field_bind (h _)
  · exact runs_throw _

theorem runs_compare (n : Int) (sign : String) (test : Ordering → Bool) (limit : Datum) :
    (compare n sign test limit).Runs growth s fun x t => x.IsIn t := by
  unfold compare
  split
  · exact runs_pure fun _ => trivial
  · exact runs_pure fun _ => trivial
  · exact runs_throw _

theorem runs_reversed {v : Datum} (hv : v.IsIn s) :
    (reversed v).Runs growth s fun x t => x.IsIn t := by
  unfold reversed
  split
  · exact runs_pure fun _ => trivial
  · next xs =>
    refine runs_pure fun _ => (Value.all_list _).mpr ?_
    simpa using (Value.all_list xs).mp hv
  · next xs =>
    refine runs_pure fun _ => (Value.all_tuple _).mpr ?_
    simpa using (Value.all_tuple xs).mp hv
  · next r =>
    refine runs_record_bind fun hs => ?_
    have hfields : ∀ f ∈ (s.record r).fields.reverse, s.HasField f := by
      simpa using hs.hasField r
    exact (steps_newRecord hfields).bind fun _ _ _ _ => runs_pure fun _ => trivial
  · exact runs_throw _
  · exact runs_throw _
  · exact runs_throw _

theorem acts_call (b : Builtin) : Callback.Acts growth s b.call := by
  intro t _ v hv
  unfold call
  split
  case h_1 =>
    split
    · exact runs_pure fun _ => trivial
    · exact runs_throw _
  case h_2 =>
    split
    · exact runs_pure fun _ => trivial
    · exact runs_throw _
  case h_3 => exact runs_reversed hv
  case h_4 => exact runs_pure fun _ => by simpa [Datum.IsIn] using hv
  case h_5 =>
    refine runs_get_bind fun _ => ?_
    split
    · exact runs_compare _ _ _ _
    · exact runs_throw _
  case h_6 => exact runs_throw _
  case h_7 =>
    exact runs_onField _ _ fun x => runs_get_bind fun _ => runs_pure fun _ => trivial
  case h_8 =>
    refine runs_onField _ _ fun x => ?_
    split
    · exact runs_compare _ _ _ _
    · exact runs_pure fun _ => trivial
  case h_9 => exact runs_onField _ _ fun x => runs_pure fun _ => trivial
  case h_10 => exact runs_pure fun _ => hv

end Builtin

/-! ## Literals -/

namespace Literal

def Scope.IsIn (s : Store) (scope : Scope) : Prop :=
  ∀ x ∈ scope, x.2.IsIn s

theorem Scope.IsIn.mono {scope : Scope} (h : scope.IsIn s) (hst : s.Leads growth t) :
    scope.IsIn t :=
  fun x hx => (h x hx).mono hst

theorem Scope.IsIn.lookup {scope : Scope} (h : scope.IsIn s) {name : String} {v : Datum}
    (hv : scope.lookup name = some v) : v.IsIn s := by
  obtain ⟨before, behind, rfl, -⟩ := List.lookup_eq_some_iff.mp hv
  exact h (name, v) (by simp)

theorem isIn_remembered {v : Datum} (hv : v.IsIn s) : (remembered v).IsIn growth s :=
  Value.All.map (fun _ hf => hf) (fun _ _ _ _ _ _ => runs_throw _) v hv

theorem isIn_of_toStep {kind : StepKind} {v : Arg} (hv : v.IsIn growth s)
    {st : Step Callback} (h : toStep kind v = .ok st) : st.IsIn growth s := by
  unfold toStep at h
  split at h
  · exact Chain.allStep_findStep hv h
  · obtain rfl := Except.ok.inj h
    exact Step.allStep_ofKind _ hv

theorem runs_asStep {v : Arg} (hv : v.IsIn growth s) :
    (asStep v).Runs growth s fun st t => st.IsIn growth t := by
  unfold asStep
  split
  · exact runs_pure fun _ => hv
  · exact runs_get_bind fun _ => runs_throw _

def EntriesIn (growth : Prop) (s : Store) (es : List (Arg × Arg)) : Prop :=
  ∀ e ∈ es, e.1.IsIn growth s ∧ e.2.IsIn growth s

theorem entriesIn_cons {e : Arg × Arg} {es : List (Arg × Arg)} :
    EntriesIn growth s (e :: es) ↔
      (e.1.IsIn growth s ∧ e.2.IsIn growth s) ∧ EntriesIn growth s es :=
  List.forall_mem_cons

theorem entriesIn_insert (s' : Store) {k v : Arg} (hk : k.IsIn growth s) (hv : v.IsIn growth s)
    {es : List (Arg × Arg)} (hes : EntriesIn growth s es) :
    EntriesIn growth s (insert s' k v es) := by
  induction es with
  | nil => simpa [EntriesIn, insert] using ⟨hk, hv⟩
  | cons e es ih =>
      obtain ⟨k', v'⟩ := e
      obtain ⟨hkv, hrest⟩ := entriesIn_cons.mp hes
      unfold insert
      split
      · exact entriesIn_cons.mpr ⟨⟨hkv.1, hv⟩, hrest⟩
      · exact entriesIn_cons.mpr ⟨hkv, ih hrest⟩

theorem entriesIn_tabulate (s' : Store) {es : List (Arg × Arg)} (hes : EntriesIn growth s es) :
    EntriesIn growth s (tabulate s' es) := by
  have htable : EntriesIn growth s [] := by simp [EntriesIn]
  unfold tabulate
  -- The induction is on the entries, over any table that they are filed in.
  generalize ([] : List (Arg × Arg)) = table at htable ⊢
  induction es generalizing table with
  | nil => exact htable
  | cons e es ih =>
      obtain ⟨he, hrest⟩ := entriesIn_cons.mp hes
      exact ih hrest _ (entriesIn_insert s' he.1 he.2 htable)

mutual

theorem runs_eval (hg : growth) : ∀ (x : Literal) {scope : Scope} {s : Store}, scope.IsIn s →
    (x.eval scope).Runs growth s fun v t => v.IsIn growth t
  | null, _, _, _ | bool _, _, _, _ | int _, _, _, _ | real _, _, _, _ | text _, _, _, _
  | bytes _, _, _, _ | locator _, _, _, _ | selector _, _, _, _ => by
    unfold eval
    exact runs_pure fun _ => trivial
  | list xs, _, _, h => by
    unfold eval
    exact (runs_evalList hg xs h).bind fun vs _ _ hvs =>
      runs_pure fun _ => (Value.all_list vs).mpr hvs
  | table es, _, _, h => by
    unfold eval
    refine (runs_evalEntries hg es h).bind fun vs _ _ hvs => runs_get_bind fun _ => ?_
    exact runs_pure fun _ => (Value.all_table _).mpr (entriesIn_tabulate _ hvs)
  | parsedLocator x y, _, _, h => by
    unfold eval
    refine (runs_eval hg x h).bind fun _ _ hst _ => ?_
    refine (runs_eval hg y (h.mono hst)).bind fun _ _ _ _ => ?_
    exact (Arg.steps_toLocator _ _).bind fun _ _ _ _ => runs_pure fun _ => trivial
  | pattern _ _, _, _, _ => by
    unfold eval
    exact (runs_ofExcept (Q := fun _ _ => True) fun _ _ => trivial).map fun _ _ _ _ _ => trivial
  | step kind arg, _, _, h => by
    unfold eval
    refine (runs_eval hg arg h).bind fun v t _ hv => ?_
    exact (runs_ofExcept (Q := fun st t => Step.IsIn growth t st)
      fun _ hst => isIn_of_toStep hv hst).map fun _ _ _ _ hst => hst
  | chain xs, _, _, h => by
    unfold eval
    exact (runs_evalSteps hg xs h).bind fun c _ _ hc =>
      runs_pure fun _ => (Value.all_chain c).mpr hc
  | field line, _, _, _ => by
    unfold eval
    exact (runs_parseField line).bind fun _ _ _ hf => runs_pure fun _ => hf
  | record x, _, _, _ => by
    unfold eval
    exact (steps_parseRecord hg x).bind fun _ _ _ _ => runs_pure fun _ => trivial
  | stored name, scope, s, h => by
    unfold eval
    split
    · next v hv => exact runs_pure fun _ => isIn_remembered (h.lookup hv)
    · exact runs_throw _
  | builtin b, _, _, _ => by
    unfold eval
    exact runs_pure fun _ => b.acts_call
  | const x, _, _, h => by
    unfold eval
    refine (runs_eval hg x h).bind fun v t _ hv => runs_pure fun _ => ?_
    exact fun u htu _ _ => runs_pure fun _ => hv.forget.mono htu
  | call name xs, _, _, h => by
    unfold eval
    refine (runs_evalList hg xs h).bind fun vs t _ hvs => runs_pure fun _ => ?_
    exact fun u htu x hx => Request.runs_call hx (fun _ => hg) fun v hv => (hvs v hv).mono htu

theorem runs_evalList (hg : growth) : ∀ (xs : List Literal) {scope : Scope} {s : Store},
    scope.IsIn s →
    (evalList scope xs).Runs growth s fun vs t => ∀ v ∈ vs, Arg.IsIn growth t v
  | [], _, _, _ => by
    unfold evalList
    exact runs_pure fun _ => by simp
  | x :: xs, _, _, h => by
    unfold evalList
    refine (runs_eval hg x h).bind fun v t hst hv => ?_
    refine (runs_evalList hg xs (h.mono hst)).bind fun vs u htu hvs => runs_pure fun _ => ?_
    simpa using ⟨hv.mono htu, hvs⟩

theorem runs_evalSteps (hg : growth) : ∀ (xs : List Literal) {scope : Scope} {s : Store},
    scope.IsIn s → (evalSteps scope xs).Runs growth s fun c t => Chain.IsIn growth t c
  | [], _, _, _ => by
    unfold evalSteps
    exact runs_pure fun _ => Chain.all_nil
  | x :: xs, _, _, h => by
    unfold evalSteps
    refine (runs_eval hg x h).bind fun v t hst hv => ?_
    refine (runs_asStep hv).bind fun st u htu hstep => ?_
    refine (runs_evalSteps hg xs (h.mono (hst.trans htu))).bind fun c w huw hc => ?_
    exact runs_pure fun _ => Chain.all_append.mpr
      ⟨Chain.all_singleton.mpr (hstep.mono huw), hc⟩

theorem runs_evalEntries (hg : growth) : ∀ (es : List (Literal × Literal)) {scope : Scope}
    {s : Store}, scope.IsIn s →
    (evalEntries scope es).Runs growth s fun vs t => EntriesIn growth t vs
  | [], _, _, _ => by
    unfold evalEntries
    exact runs_pure fun _ => by simp [EntriesIn]
  | (x, y) :: es, _, _, h => by
    unfold evalEntries
    refine (runs_eval hg x h).bind fun k t hst hk => ?_
    refine (runs_eval hg y (h.mono hst)).bind fun v u htu hv => ?_
    refine (steps_checkKey k).bind fun _ w huw _ => ?_
    refine (runs_evalEntries hg es (h.mono ((hst.trans htu).trans huw))).bind
      fun vs z hwz hvs => runs_pure fun _ => ?_
    exact entriesIn_cons.mpr
      ⟨⟨hk.mono ((htu.trans huw).trans hwz), hv.mono (huw.trans hwz)⟩, hvs⟩

end

end Literal

/-! ## Steps of scripts -/

namespace ScriptStep

theorem runs_action (hg : growth) (step : ScriptStep) {scope : Literal.Scope}
    (h : scope.IsIn s) : (step.action scope).Runs growth s fun x t => x.IsIn t := by
  refine (Literal.runs_evalList hg step.args h).bind fun vs t hst hvs => ?_
  split
  · exact Request.runs_create hg _ hvs
  · split
    · next x hx => exact Request.runs_call ((h.lookup hx).mono hst) (fun _ => hg) hvs
    · exact runs_throw _

/-- The scope after a step is in the store after the step, also after a fault. -/
theorem isIn_rescope (step : ScriptStep) {scope : Literal.Scope} (h : scope.IsIn s)
    {outcome : Except Fault Datum} (houtcome : ∀ v, outcome = .ok v → v.IsIn s) :
    (step.rescope scope outcome).IsIn s := by
  cases outcome with
  | error e => exact h
  | ok v =>
      unfold rescope
      dsimp only
      split
      · exact List.forall_mem_cons.mpr ⟨houtcome v rfl, h⟩
      · exact h

end ScriptStep

end Biblio
