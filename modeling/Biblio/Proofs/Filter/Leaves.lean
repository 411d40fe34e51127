import Biblio.Proofs.Filter.Sequence
import Biblio.Proofs.Run.Filter
import Biblio.Proofs.Store.Reachable
import Biblio.Request.Literal

/-!
# Definitions and their leaves

A definition of filters may be nested: lists and tuples of definitions stand for the chains
of their items, one behind the other. However they are nested, the chain that a definition
gives has the steps of its leaves from left to right, and a definition fails as the first
leaf does that fails. A table of options contributes what to find, the template and the
callback in this order, whatever the order of its keys is.
-/

namespace Biblio

namespace Chain

/-! ## Leaves -/

mutual

def leaves : Arg → List Arg
  | .list xs => leavesAll xs
  | .tuple xs => leavesAll xs
  | .subfield sf => [.text sf.code, .text sf.value]
  | v => [v]

def leavesAll : List Arg → List Arg
  | [] => []
  | x :: xs => leaves x ++ leavesAll xs

end

def IsLeaf : Arg → Prop
  | .list _ | .tuple _ | .subfield _ => False
  | _ => True

mutual

theorem isLeaf_of_mem_leaves (v : Arg) : ∀ x ∈ leaves v, IsLeaf x := by
  intro x hx
  cases v with
  | list xs => exact isLeaf_of_mem_leavesAll xs x (by rwa [leaves] at hx)
  | tuple xs => exact isLeaf_of_mem_leavesAll xs x (by rwa [leaves] at hx)
  | subfield sf =>
      rw [leaves, List.mem_cons, List.mem_singleton] at hx
      rcases hx with rfl | rfl <;> trivial
  | _ =>
      simp only [leaves, List.mem_singleton] at hx
      rw [hx]
      trivial

theorem isLeaf_of_mem_leavesAll (xs : List Arg) : ∀ x ∈ leavesAll xs, IsLeaf x := by
  intro x hx
  cases xs with
  | nil => simp [leavesAll] at hx
  | cons y ys =>
      rw [leavesAll, List.mem_append] at hx
      rcases hx with hx | hx
      · exact isLeaf_of_mem_leaves y x hx
      · exact isLeaf_of_mem_leavesAll ys x hx

end

/-! ## Flattening -/

variable {s : Store}

theorem buildAll_append (s : Store) (xs ys : List Arg) :
    buildAll s (xs ++ ys) = do
      let c ← buildAll s xs
      let d ← buildAll s ys
      return c ++ d := by
  induction xs with
  | nil =>
      rw [List.nil_append, buildAll]
      cases buildAll s ys <;> rfl
  | cons x xs ih =>
      rw [List.cons_append, buildAll, buildAll, ih]
      cases build s x with
      | error e => rfl
      | ok c =>
          cases buildAll s xs with
          | error e => rfl
          | ok d =>
              cases buildAll s ys with
              | error e => rfl
              | ok e => exact congrArg Except.ok (List.append_assoc c d e).symm

theorem buildAll_singleton (s : Store) (v : Arg) : buildAll s [v] = build s v := by
  rw [buildAll, buildAll]
  cases build s v with
  | error e => rfl
  | ok c => exact congrArg Except.ok (List.append_nil c)

/-- The parts of a subfield are texts, of which the first one is refused. -/
theorem build_subfield (s : Store) (sf : Subfield) :
    build s (.subfield sf) = buildAll s (leaves (.subfield sf)) := by
  have hcode : build s (.text sf.code) = .error (.argument (.filter (Text.quote sf.code))) := by
    simp [build, Store.shown]
  rw [leaves, buildAll, hcode, build]
  rfl

mutual

/-- A definition gives what its leaves give together. -/
theorem build_eq_buildAll_leaves (s : Store) (v : Arg) :
    build s v = buildAll s (leaves v) := by
  cases v with
  | list xs => rw [build, leaves, buildAll_eq_buildAll_leavesAll]
  | tuple xs => rw [build, leaves, buildAll_eq_buildAll_leavesAll]
  | subfield sf => exact build_subfield s sf
  | _ => simp only [leaves, buildAll_singleton]

theorem buildAll_eq_buildAll_leavesAll (s : Store) (xs : List Arg) :
    buildAll s xs = buildAll s (leavesAll xs) := by
  cases xs with
  | nil => rw [leavesAll]
  | cons x xs =>
      rw [buildAll, leavesAll, buildAll_append, build_eq_buildAll_leaves s x,
        buildAll_eq_buildAll_leavesAll s xs]

end

variable {xs : List Arg}

theorem buildAll_eq_ok_iff {c : Chain} :
    buildAll s xs = .ok c ↔
      ∃ cs, List.Forall₂ (fun x d => build s x = .ok d) xs cs ∧ c = cs.flatten := by
  induction xs generalizing c with
  | nil =>
      rw [buildAll]
      constructor
      · rintro ⟨⟩
        exact ⟨[], .nil, rfl⟩
      · rintro ⟨cs, ⟨⟩, rfl⟩
        rfl
  | cons x xs ih =>
      rw [buildAll]
      constructor
      · intro h
        obtain ⟨d, hx, h⟩ := exists_of_bind_eq_ok h
        obtain ⟨e, hxs, h⟩ := exists_of_bind_eq_ok h
        obtain ⟨cs, hcs, rfl⟩ := ih.mp hxs
        exact ⟨d :: cs, .cons hx hcs, (Except.ok.inj h).symm⟩
      · rintro ⟨cs, hcs, rfl⟩
        cases hcs with
        | cons hx hcs =>
            rw [hx, ih.mpr ⟨_, hcs, rfl⟩]
            rfl

/-- Definitions fail as the first one does that fails. -/
theorem buildAll_eq_error_iff {e : Fault} :
    buildAll s xs = .error e ↔
      ∃ front x behind, xs = front ++ x :: behind ∧ (∀ y ∈ front, ∃ c, build s y = .ok c) ∧
        build s x = .error e := by
  induction xs with
  | nil => simp [buildAll]
  | cons x xs ih =>
      rw [buildAll]
      constructor
      · intro h
        cases hx : build s x with
        | error e' =>
            rw [hx] at h
            cases h
            exact ⟨[], x, xs, rfl, by simp, hx⟩
        | ok c =>
            cases hxs : buildAll s xs with
            | ok d =>
                rw [hx, hxs] at h
                cases h
            | error e' =>
                rw [hx, hxs] at h
                cases h
                obtain ⟨front, y, behind, rfl, hfront, hy⟩ := ih.mp hxs
                exact ⟨x :: front, y, behind, rfl, by simpa [hx] using hfront, hy⟩
      · rintro ⟨front, y, behind, hsplit, hfront, hy⟩
        cases front with
        | nil =>
            obtain ⟨rfl, rfl⟩ := List.cons.inj hsplit
            rw [hy]
            rfl
        | cons z front =>
            obtain ⟨rfl, hrest⟩ := List.cons.inj hsplit
            rw [List.forall_mem_cons] at hfront
            obtain ⟨c, hc⟩ := hfront.1
            rw [hc, ih.mpr ⟨front, y, behind, hrest, hfront.2, hy⟩]
            rfl

/-! ## What leaves contribute -/

variable {es : List (Arg × Arg)}

/-- There are no unknown names if each key names an option. -/
theorem unknownNames_eq_ok_nil_iff :
    unknownNames es = .ok [] ↔ ∀ e ∈ es, isOption e.1 = true := by
  have hfilter : ((es.map Prod.fst).filter fun k => !isOption k) = [] ↔
      ∀ e ∈ es, isOption e.1 = true := by
    simp [List.filter_eq_nil_iff]
  rw [← hfilter, unknownNames]
  cases (es.map Prod.fst).filter fun k => !isOption k with
  | nil =>
      rw [List.mapM_nil, pure_bind, List.mergeSort_nil]
      exact iff_of_true rfl rfl
  | cons k ks =>
      refine iff_of_false (fun h => ?_) (by simp)
      obtain ⟨names, hnames, h⟩ := exists_of_bind_eq_ok h
      obtain rfl : names = [] := by
        have hlength := congrArg List.length (Except.ok.inj h)
        rw [List.length_mergeSort] at hlength
        exact List.length_eq_zero_iff.mp hlength
      rw [List.mapM_cons] at hnames
      obtain ⟨name, -, hnames⟩ := exists_of_bind_eq_ok hnames
      obtain ⟨rest, -, hnames⟩ := exists_of_bind_eq_ok hnames
      cases hnames

/-- A table contributes what its options add, if it has no other ones: first what to find, then
the template, then the callback. -/
theorem ofOptions_eq_ok_iff {c : Chain} :
    ofOptions es = .ok c ↔ (∀ e ∈ es, isOption e.1 = true) ∧
      ∃ find format each, findSteps (given? "find" es) = .ok find ∧
        formatSteps (given? "format" es) = .ok format ∧
        eachSteps (given? "each" es) = .ok each ∧ c = find ++ format ++ each := by
  rw [← unknownNames_eq_ok_nil_iff]
  constructor
  · intro h
    obtain ⟨unknown, hunknown, h⟩ := exists_of_bind_eq_ok h
    split at h
    · cases h
    · next hempty =>
      obtain ⟨find, hfind, h⟩ := exists_of_bind_eq_ok h
      obtain ⟨format, hformat, h⟩ := exists_of_bind_eq_ok h
      obtain ⟨each, heach, h⟩ := exists_of_bind_eq_ok h
      obtain rfl : unknown = [] := by simpa using hempty
      exact ⟨hunknown, find, format, each, hfind, hformat, heach, (Except.ok.inj h).symm⟩
  · rintro ⟨hunknown, find, format, each, hfind, hformat, heach, rfl⟩
    rw [ofOptions, hunknown, hfind, hformat, heach]
    rfl

/-- The steps that a definition contributes that does not consist of others. -/
inductive Contributes : Arg → Chain → Prop
  | null : Contributes .null []
  | chain (c : Chain) : Contributes (.chain c) c
  | step (st : Step Callback) : Contributes (.step st) [st]
  | callback (f : Callback) : Contributes (.callback f) [.each f]
  | table {es : List (Arg × Arg)} {find format each : Chain}
    (hkeys : ∀ e ∈ es, isOption e.1 = true) (hfind : findSteps (given? "find" es) = .ok find)
    (hformat : formatSteps (given? "format" es) = .ok format)
    (heach : eachSteps (given? "each" es) = .ok each) :
    Contributes (.table es) (find ++ format ++ each)

theorem build_eq_ok_iff_contributes {v : Arg} (hv : IsLeaf v) {c : Chain} :
    build s v = .ok c ↔ Contributes v c := by
  constructor
  · intro h
    cases v with
    | null =>
        cases h
        exact .null
    | chain d =>
        cases h
        exact .chain c
    | step st =>
        cases h
        exact .step st
    | callback f =>
        cases h
        exact .callback f
    | table es =>
        rw [build] at h
        obtain ⟨hkeys, find, format, each, hfind, hformat, heach, rfl⟩ := ofOptions_eq_ok_iff.mp h
        exact .table hkeys hfind hformat heach
    | list xs => exact hv.elim
    | tuple xs => exact hv.elim
    | _ => simp [build] at h
  · intro h
    cases h with
    | table hkeys hfind hformat heach =>
        rw [build]
        exact ofOptions_eq_ok_iff.mpr ⟨hkeys, _, _, _, hfind, hformat, heach, rfl⟩
    | _ => rfl

/-! ## The order of keys -/

def textKeys (es : List (Arg × Arg)) : List String :=
  es.filterMap fun e =>
    match e.1 with
    | .text k => some k
    | _ => none

theorem option?_eq_some_iff (h : (textKeys es).Nodup) {name : String} {v : Arg} :
    option? name es = some v ↔ (.text name, v) ∈ es := by
  induction es with
  | nil => simp [option?]
  | cons e es ih =>
      obtain ⟨k, w⟩ := e
      by_cases hk : ∃ t, k = .text t
      · obtain ⟨t, rfl⟩ := hk
        rw [textKeys, List.filterMap_cons, List.nodup_cons] at h
        by_cases hname : t = name
        · subst hname
          have hrest : (.text t, v) ∉ es := fun hmem =>
            h.1 (List.mem_filterMap.mpr ⟨_, hmem, rfl⟩)
          simp [option?, hrest, eq_comm]
        · simp [option?, hname, Ne.symm hname, ih h.2]
      · have hother : ∀ t, k ≠ .text t := fun t ht => hk ⟨t, ht⟩
        have hskip : textKeys ((k, w) :: es) = textKeys es ∧
            option? name ((k, w) :: es) = option? name es := by
          cases k with
          | text t => exact absurd rfl (hother t)
          | _ => exact ⟨rfl, rfl⟩
        rw [hskip.1] at h
        rw [hskip.2, ih h]
        simp [Ne.symm (hother name)]

/-- What a table contributes does not depend on the order of its keys. -/
theorem Contributes.perm {ds : List (Arg × Arg)} {c : Chain} (h : Contributes (.table es) c)
    (hperm : es.Perm ds) (hkeys : (textKeys es).Nodup) : Contributes (.table ds) c := by
  have hds : (textKeys ds).Nodup := (hperm.filterMap _).nodup_iff.mp hkeys
  have hgiven : ∀ name, given? name ds = given? name es := by
    intro name
    have hoption : option? name ds = option? name es := by
      ext v
      rw [option?_eq_some_iff hds, option?_eq_some_iff hkeys, hperm.mem_iff]
    rw [given?, given?, hoption]
  cases h with
  | table hnames hfind hformat heach =>
      exact .table (fun e he => hnames e (hperm.mem_iff.mpr he)) (by rwa [hgiven])
        (by rwa [hgiven]) (by rwa [hgiven])

/-! ## Definitions -/

structure IsBuiltFromLeaves (s : Store) (v : Arg) : Prop where
  ok_iff : ∀ c, build s v = .ok c ↔
    ∃ cs, List.Forall₂ Contributes (leaves v) cs ∧ c = cs.flatten
  /-- The first leaf that fails decides which fault it is. -/
  error_iff : ∀ e, build s v = .error e ↔
    ∃ front x behind, leaves v = front ++ x :: behind ∧
      (∀ y ∈ front, ∃ c, Contributes y c) ∧ build s x = .error e
  again : ∀ c t, build s v = .ok c → build t (.chain c) = .ok c

theorem forall₂_contributes_iff (hxs : ∀ x ∈ xs, IsLeaf x) {cs : List Chain} :
    List.Forall₂ (fun x c => build s x = .ok c) xs cs ↔ List.Forall₂ Contributes xs cs := by
  constructor
  · intro h
    exact ((List.forall₂_and_left xs cs).mpr ⟨hxs, h⟩).imp fun x c hx =>
      (build_eq_ok_iff_contributes hx.1).mp hx.2
  · intro h
    exact ((List.forall₂_and_left xs cs).mpr ⟨hxs, h⟩).imp fun x c hx =>
      (build_eq_ok_iff_contributes hx.1).mpr hx.2

theorem isBuiltFromLeaves (s : Store) (v : Arg) : IsBuiltFromLeaves s v where
  ok_iff := by
    intro c
    rw [build_eq_buildAll_leaves, buildAll_eq_ok_iff]
    simp only [forall₂_contributes_iff (isLeaf_of_mem_leaves v)]
  error_iff := by
    intro e
    rw [build_eq_buildAll_leaves, buildAll_eq_error_iff]
    constructor
    all_goals
      rintro ⟨front, x, behind, hsplit, hfront, hx⟩
      refine ⟨front, x, behind, hsplit, fun y hy => ?_, hx⟩
      have hleaf := isLeaf_of_mem_leaves v y (by simp [hsplit, hy])
      obtain ⟨c, hc⟩ := hfront y hy
    · exact ⟨c, (build_eq_ok_iff_contributes hleaf).mp hc⟩
    · exact ⟨c, (build_eq_ok_iff_contributes hleaf).mpr hc⟩
  again := fun _ _ _ => rfl

/-- Chains compose, and definitions of chains flatten: two chains in sequence do what they do in
turn, and for lists too if no step fails and each judges texts by what the texts are; a
definition, however it is nested, gives the steps of its leaves from left to right or fails as
the first leaf does that fails; and the keys of a table of options may come in any order. -/
theorem compose_and_flatten :
    (∀ c d : Chain, c.GoesOnAs d) ∧ (∀ (s : Store) (v : Arg), IsBuiltFromLeaves s v) ∧
      ∀ (es ds : List (Arg × Arg)) (c : Chain), es.Perm ds → (textKeys es).Nodup →
        Contributes (.table es) c → Contributes (.table ds) c :=
  ⟨goesOnAs, isBuiltFromLeaves, fun _ _ _ hperm hkeys h => h.perm hperm hkeys⟩

/-- Values are ended by a full stop and then turned round. -/
theorem compose_and_flatten_stops :
    (∃ ws xs t u u',
      (applyAll [.each (Builtin.suffix ".").call] ["ab", "c"]).exec {} = (.ok ws, t) ∧
      (applyAll [.each Builtin.reverse.call] ws).exec t = (.ok xs, u) ∧
      (applyAll [.each (Builtin.suffix ".").call, .each Builtin.reverse.call] ["ab", "c"]).exec {} =
        (.ok xs, u')) ∧
      build {} (.list [.null, .tuple [.callback (Builtin.suffix ".").call, .list []],
        .chain [.each Builtin.reverse.call]]) =
        .ok [.each (Builtin.suffix ".").call, .each Builtin.reverse.call] ∧
      Contributes
        (.table [(.text "format", .text "x"), (.text "each", .callback Builtin.reverse.call)])
        ([] ++ [.format "x"] ++ [.each Builtin.reverse.call]) := by
  obtain ⟨hcompose, hflatten, hperm⟩ := compose_and_flatten
  refine ⟨?_, ?_, ?_⟩
  · have hsuffix : Callback.JudgesTexts {} (Builtin.suffix ".").call :=
      fun _ _ _ _ _ => Action.agrees_pure rfl
    have hreverse : Callback.JudgesTexts {} Builtin.reverse.call :=
      fun _ _ _ _ _ => Action.agrees_pure rfl
    refine (hcompose [.each (Builtin.suffix ".").call] [.each Builtin.reverse.call]).inTurn {} _
      ?_ ?_
    · simpa [Step.call] using ⟨hsuffix, hreverse⟩
    · intro v hv
      rw [List.mem_cons, List.mem_singleton] at hv
      rcases hv with rfl | rfl
      · exact ⟨some ".ba", {}, rfl⟩
      · exact ⟨some ".c", {}, rfl⟩
  · refine ((hflatten {} _).ok_iff _).mpr
      ⟨[[], [.each (Builtin.suffix ".").call], [.each Builtin.reverse.call]], ?_, rfl⟩
    exact .cons .null (.cons (.callback _) (.cons (.chain _) .nil))
  · refine hperm [(.text "each", .callback Builtin.reverse.call), (.text "format", .text "x")] _ _
      (.swap _ _ _) (by decide) ?_
    exact .table (by decide) rfl rfl rfl

def blankBook : Store :=
  ((Request.create "Record" []).exec ((Request.create "Field" [.text "021A"]).exec {}).2).2

/-- Puts a field into a record for each text that it is called with. -/
def recording : Callback := fun _ => do
  RecordRef.append ⟨0⟩ (.field ⟨0⟩)
  return .bool true

/-- Answers each text with the number of the fields in that record. -/
def counting : Callback := fun _ => do
  return .text (toString (← Action.record ⟨0⟩).fields.length)

theorem acts_recording : recording.Acts True blankBook := by
  intro t hst _ _
  have hfield : Arg.IsIn True t (.field ⟨0⟩) :=
    Store.HasField.mono (s := blankBook) (f := ⟨0⟩) (by decide) hst
  exact (RecordRef.steps_append ⟨0⟩ trivial hfield).bind fun _ _ _ _ =>
    Action.runs_pure fun _ => trivial

theorem acts_counting (s : Store) : counting.Acts True s :=
  fun _ _ _ _ => Action.runs_record_bind fun _ => Action.runs_pure fun _ => trivial

/-- That no step fails is not enough for lists of values. Of two steps the first one may leave
behind what the second one looks at, and then it matters whether all values go through the
first one before any goes through the second one. -/
theorem not_applyAll_in_turn :
    ¬ ∀ (c d : Chain) (s : Store), s.Reachable → (c ++ d).IsIn True s →
      (∀ st ∈ c ++ d, ∀ v t, ∃ x u, (st.call (.text v)).exec t = (.ok x, u)) →
      ∀ vs, ∃ ws xs t u u', (c.applyAll vs).exec s = (.ok ws, t) ∧
        (d.applyAll ws).exec t = (.ok xs, u) ∧
        ((c ++ d).applyAll vs).exec s = (.ok xs, u') := by
  intro h
  have hreachable : blankBook.Reachable :=
    (Store.Reachable.empty.create "Field" (Arg.isIn_texts ["021A"])).create "Record" (by simp)
  have hacts : IsIn True blankBook ([.each recording] ++ [.each counting]) := by
    rintro _ (_ | ⟨_, _ | ⟨_, ⟨⟩⟩⟩)
    · exact acts_recording
    · exact acts_counting blankBook
  have hruns : ∀ st ∈ [Step.each recording] ++ [Step.each counting], ∀ v t,
      ∃ x u, (st.call (.text v)).exec t = (.ok x, u) := by
    simpa using ⟨fun _ _ => ⟨_, _, rfl⟩, fun _ _ => ⟨_, _, rfl⟩⟩
  obtain ⟨ws, xs, t, u, u', hfirst, hsecond, htogether⟩ :=
    h [.each recording] [.each counting] blankBook hreachable hacts hruns ["a", "b"]
  obtain ⟨rfl, rfl⟩ : ["a", "b"] = ws ∧ _ = t := by
    obtain ⟨hws, ht⟩ := Prod.mk.inj hfirst
    exact ⟨Except.ok.inj hws, ht⟩
  have hturns : ["2", "2"] = xs := Except.ok.inj (congrArg Prod.fst hsecond)
  have hboth : ["1", "2"] = xs := Except.ok.inj (congrArg Prod.fst htogether)
  rw [← hboth] at hturns
  exact absurd hturns (by decide)

end Chain

end Biblio
