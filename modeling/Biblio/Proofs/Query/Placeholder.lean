import Biblio.Proofs.Query.Cardinality
import Biblio.Proofs.Store.Agree

/-!
# Empty values

Fields have no empty values, and a filter that answers with an empty text drops the value. So
the only empty values that a query of values finds are the placeholders of fields in which no
value with the code is left. `Share` is what one match contributes: the values that the chain
leaves there, and what the selector makes of them. The shares of a query are told in the order
in which the matches are looked at, since a filter may change the store in between.
-/

namespace Biblio

open Biblio.Action

/-! ## Values of fields -/

theorem Field.IsBuilt.ne_empty_of_mem_valuesWith {x : Field} {plain : Prop} (h : x.IsBuilt plain)
    {code v : String} (hv : v ∈ x.valuesWith code) : v ≠ "" := by
  obtain ⟨sf, hsf, rfl⟩ := List.mem_map.mp hv
  exact h.looselyFormed.values sf (List.mem_filter.mp hsf).1

theorem Field.valuesWith_subset (x : Field) (code : String) : x.valuesWith code ⊆ x.values :=
  List.map_subset _ List.filter_sublist.subset

theorem Store.Leads.after {s t : Store} {growth : Prop} (h : ({} : Store).Leads True s)
    (hst : s.Leads growth t) : ({} : Store).Leads True t :=
  h.trans (hst.mono fun _ => trivial)

/-- A field that exists keeps its values. -/
theorem Store.HasField.values_subset {s t : Store} {growth : Prop} {f : FieldRef}
    (h : s.HasField f) (hst : s.Leads growth t) : (s.field f).values ⊆ (t.field f).values := by
  induction hst with
  | refl => exact List.Subset.refl _
  | @tail u v hsu hstep ih =>
      refine List.Subset.trans ih ?_
      cases hstep with
      | newField _ =>
          rw [field_withNewField_of_hasField _ (h.mono hsu)]
          exact List.Subset.refl _
      | growField _ g _ value =>
          rw [field_withField]
          split
          · rw [Field.values, Field.values, Field.subfields_push, List.map_append]
            exact List.subset_append_left _ _
          · exact List.Subset.refl _
      | _ => exact List.Subset.refl _

namespace Query

variable {c : Chain} {s t : Store} {sel : Selector} {growth : Prop}

/-! ## Placeholders -/

/-- Whether a selector has a placeholder for the lack of values, which its flag does not take
for an error. -/
def HasPlaceholder (sel : Selector) : Prop :=
  sel.placeholder = true ∧ sel.flag? ∈ [none, some .optional, some .any]

instance (sel : Selector) : Decidable (HasPlaceholder sel) :=
  inferInstanceAs (Decidable (_ ∧ _))

theorem hasPlaceholder_iff :
    HasPlaceholder sel ↔ sel.placeholder = true ∧ ¬IsStrict sel := by
  rw [HasPlaceholder, IsStrict]
  rcases sel.flag? with _ | _ | _ | _ | _ <;> simp

theorem checkValues_of_hasPlaceholder (h : HasPlaceholder sel) (fullTag : String) :
    checkValues fullTag sel [] = ([""], none) := by
  obtain ⟨hplaceholder, hstrict⟩ := hasPlaceholder_iff.mp h
  rw [checkValues_of_not_isStrict hstrict, if_pos ⟨rfl, hplaceholder⟩]

/-- But for a placeholder a selector adds nothing to the values that are left. -/
theorem fst_checkValues_subset {left : List String} (h : left = [] → ¬HasPlaceholder sel)
    (fullTag : String) : (checkValues fullTag sel left).1 ⊆ left := by
  by_cases hstrict : IsStrict sel
  · rcases hstrict with hflag | hflag
    · rcases left with _ | ⟨x, _ | ⟨y, left⟩⟩ <;> simp [checkValues, hflag]
    · cases left <;> simp [checkValues, hflag]
  · rw [checkValues_of_not_isStrict hstrict]
    split
    · next hvoid => exact absurd (hasPlaceholder_iff.mpr ⟨hvoid.2, hstrict⟩) (h hvoid.1)
    · exact List.Subset.refl _

end Query

/-! ## Shares -/

namespace Query

/-- What a match contributes to a query of values: the values that the chain leaves of those
with the code of its selector, and the values that the query gets. -/
structure Share where
  origin : Match
  selector : Selector
  left : List String
  values : List String

namespace Share

def IsVoid (x : Share) : Prop :=
  HasPlaceholder x.selector ∧ x.left = []

instance (x : Share) : Decidable x.IsVoid :=
  inferInstanceAs (Decidable (_ ∧ _))

/-- Whether a match contributes a share in a store, and which store it leaves. -/
structure Arises (c : Chain) (s : Store) (x : Share) (t : Store) : Prop where
  selector : x.origin.1.subfield = some x.selector
  left : ∃ code, x.selector.code = some code ∧
    c.Leaves x.selector.flag? ((s.field x.origin.2).valuesWith code) s x.left t
  values : ∃ e, (queryField (s.field x.origin.2) x.selector c.sieve).exec s =
    (.ok (x.values, e), t)

end Share

inductive Collects (c : Chain) : Store → List Share → Store → Prop
  | nil (s : Store) : Collects c s [] s
  | cons {s t u : Store} {x : Share} {xs : List Share} (hx : x.Arises c s t)
    (hxs : Collects c t xs u) : Collects c s (x :: xs) u

variable {c : Chain} {s t : Store} {growth : Prop}

namespace Share.Arises

variable {x : Share}

theorem leads (h : x.Arises c s t) (hc : c.IsIn growth s) (hs : s.IsIndexed) :
    s.Leads growth t := by
  obtain ⟨_, _, hleft⟩ := h.left
  exact hleft.leads hc hs

/-- A share has the values that its selector makes of those that are left. -/
theorem values_eq (h : x.Arises c s t) (hbuilt : (s.field x.origin.2).IsBuilt False) :
    x.values = (checkValues (s.field x.origin.2).fullTag x.selector x.left).1 := by
  obtain ⟨code, hcode, hleft⟩ := h.left
  obtain ⟨e, hvalues⟩ := h.values
  rw [← hbuilt.valuesFor_eq_valuesWith] at hleft
  have hquery := (exec_queryField_eq_ok_iff hcode).mpr ⟨x.left, hleft, rfl⟩
  exact congrArg Prod.fst (Except.ok.inj (congrArg Prod.fst (hvalues.symm.trans hquery)))

theorem values_of_isVoid (h : x.Arises c s t) (hbuilt : (s.field x.origin.2).IsBuilt False)
    (hvoid : x.IsVoid) : x.values = [""] := by
  rw [h.values_eq hbuilt, hvoid.2, checkValues_of_hasPlaceholder hvoid.1]

theorem empty_notMem_values (h : x.Arises c s t) (hbuilt : (s.field x.origin.2).IsBuilt False)
    (hvoid : ¬x.IsVoid) : "" ∉ x.values := by
  obtain ⟨code, _, hleft⟩ := h.left
  rw [h.values_eq hbuilt]
  intro hmem
  have hsubset := fst_checkValues_subset (fun hnil hsel => hvoid ⟨hsel, hnil⟩)
    (s.field x.origin.2).fullTag
  exact hleft.ne_empty (fun _ => hbuilt.ne_empty_of_mem_valuesWith) _ (hsubset hmem) rfl

end Share.Arises

/-- Each share of a query arises in a store that the query gets to. -/
theorem Collects.exists_arises {xs : List Share} (h : Collects c s xs t) (hc : c.IsIn growth s)
    (hs : ({} : Store).Leads True s) :
    ∀ x ∈ xs, ∃ u v, ({} : Store).Leads True u ∧ x.Arises c u v := by
  induction h with
  | nil => simp
  | @cons s t u x xs hx _ ih =>
      have hst := hx.leads hc (Store.isIndexed_empty.mono hs)
      rw [List.forall_mem_cons]
      exact ⟨⟨s, t, hs, hx⟩, ih (hc.mono hst) (hs.after hst)⟩

/-- Empty values are told by the shares that are placeholders. -/
theorem count_empty {xs : List Share}
    (h : ∀ x ∈ xs, (x.IsVoid → x.values = [""]) ∧ (¬x.IsVoid → "" ∉ x.values)) :
    (xs.flatMap Share.values).count "" = xs.countP (fun x => x.IsVoid) := by
  induction xs with
  | nil => rfl
  | cons x xs ih =>
      rw [List.forall_mem_cons] at h
      rw [List.flatMap_cons, List.count_append, ih h.2, List.countP_cons, Nat.add_comm]
      congr 1
      by_cases hvoid : x.IsVoid
      · simp [hvoid, h.1.1 hvoid]
      · simpa [hvoid] using List.count_eq_zero.mpr (h.1.2 hvoid)

/-! ## Queries of records -/

def AsksForCode (m : Match) : Prop :=
  ∃ sel code, m.1.subfield = some sel ∧ sel.code = some code

theorem AsksForCode.exec_collectValues_cons {a : Alternative} {f : FieldRef} {ms : List Match}
    (h : AsksForCode (a, f)) (v : Sieve) (s : Store) :
    ∃ sel code, a.subfield = some sel ∧ sel.code = some code ∧
      (collectValues v ((a, f) :: ms)).exec s =
        (queryField (s.field f) sel v >>= fun x => collectValues v ms >>= fun y =>
          pure (x.1 ++ y.1, x.2.toList ++ y.2)).exec s := by
  obtain ⟨sel, code, hsel, hcode⟩ := h
  have hselector : (selectorOf "code" a).exec s = (.ok sel, s) := by
    rw [selectorOf, show a.subfield = some sel from hsel, exec_pure]
  refine ⟨sel, code, hsel, hcode, ?_⟩
  rw [collectValues, exec_bind_of (exec_field f s), exec_bind_of hselector]

/-- The values that matches contribute are those of their shares. -/
theorem exists_collects {ms : List Match} (hms : ∀ m ∈ ms, AsksForCode m)
    (hc : c.IsIn growth s) (hs : ({} : Store).Leads True s)
    {found : List String × List QueryError}
    (h : (collectValues c.sieve ms).exec s = (.ok found, t)) :
    ∃ xs : List Share, xs.map Share.origin = ms ∧ Collects c s xs t ∧
      found.1 = xs.flatMap Share.values := by
  induction ms generalizing s found with
  | nil =>
      obtain ⟨rfl, rfl⟩ := exec_pure_eq_ok h
      exact ⟨[], rfl, .nil s, rfl⟩
  | cons m ms ih =>
      obtain ⟨a, f⟩ := m
      rw [List.forall_mem_cons] at hms
      obtain ⟨sel, code, hsel, hcode, hcons⟩ := hms.1.exec_collectValues_cons c.sieve s
      rw [hcons] at h
      obtain ⟨⟨values, e⟩, u, hquery, h⟩ := exec_bind_eq_ok h
      obtain ⟨rest, v, hrest, h⟩ := exec_bind_eq_ok h
      obtain ⟨rfl, rfl⟩ := exec_pure_eq_ok h
      obtain ⟨left, hleft, -⟩ := (exec_queryField_eq_ok_iff hcode).mp hquery
      rw [(hs.isBuilt f).valuesFor_eq_valuesWith] at hleft
      let x : Share := ⟨(a, f), sel, left, values⟩
      have hx : x.Arises c s u := ⟨hsel, ⟨code, hcode, hleft⟩, e, hquery⟩
      have hsu := hx.leads hc (Store.isIndexed_empty.mono hs)
      obtain ⟨xs, rfl, hxs, hvalues⟩ :=
        ih hms.2 (hc.mono hsu) (hs.after hsu) hrest
      exact ⟨x :: xs, rfl, .cons hx hxs, by rw [List.flatMap_cons, ← hvalues]⟩

end Query

/-- Whether a chain fails on no value of certain fields, whatever steps are made meanwhile. -/
def Chain.FailsNowhere (growth : Prop) (s : Store) (fs : List FieldRef) (c : Chain) : Prop :=
  ∀ t, s.Leads growth t → ∀ f ∈ fs, ∀ v ∈ (t.field f).values, ∀ e u,
    (c.apply v).exec t ≠ (.error e, u)

namespace Query

variable {c : Chain} {s t : Store} {growth : Prop}

/-- A query of fields on whose values a chain does not fail comes to an end. -/
theorem exists_exec_queryField {f : FieldRef} {sel : Selector} {code : String}
    (hcode : sel.code = some code) (hf : s.HasField f) (hc : c.IsIn growth s)
    (hs : ({} : Store).Leads True s) (hsafe : c.FailsNowhere growth s [f]) :
    ∃ found t, (queryField (s.field f) sel c.sieve).exec s = (.ok found, t) ∧
      s.Leads growth t := by
  have hindexed := Store.isIndexed_empty.mono hs
  have hvalues : ∀ u, s.Leads growth u → ∀ v ∈ (s.field f).valuesFor code, ∀ e u',
      (c.apply v).exec u ≠ (.error e, u') := by
    intro u hsu v hv
    rw [(hs.isBuilt f).valuesFor_eq_valuesWith] at hv
    exact hsafe u hsu f (List.mem_singleton_self f) v
      (hf.values_subset hsu ((s.field f).valuesWith_subset code hv))
  obtain ⟨ws, t, hsifts⟩ := Chain.exists_sifts hc hindexed hvalues
  obtain ⟨u, hleaves, -⟩ := hsifts.exists_leaves sel.flag?
  exact ⟨_, u, (exec_queryField_eq_ok_iff hcode).mpr ⟨_, hleaves, rfl⟩,
    hleaves.leads hc hindexed⟩

theorem exists_exec_collectValues {ms : List Match} (hms : ∀ m ∈ ms, AsksForCode m)
    (hfields : ∀ m ∈ ms, s.HasField m.2) (hc : c.IsIn growth s) (hs : ({} : Store).Leads True s)
    (hsafe : c.FailsNowhere growth s (ms.map Prod.snd)) :
    ∃ found t, (collectValues c.sieve ms).exec s = (.ok found, t) := by
  induction ms generalizing s with
  | nil => exact ⟨_, s, rfl⟩
  | cons m ms ih =>
      obtain ⟨a, f⟩ := m
      rw [List.forall_mem_cons] at hms hfields
      obtain ⟨sel, code, -, hcode, hcons⟩ := hms.1.exec_collectValues_cons c.sieve s
      obtain ⟨x, t, hquery, hst⟩ := exists_exec_queryField hcode hfields.1 hc hs
        fun u hsu g hg => hsafe u hsu g (by simp_all)
      obtain ⟨y, u, hrest⟩ := ih hms.2 (fun m hm => (hfields.2 m hm).mono hst) (hc.mono hst)
        (hs.after hst)
        fun u htu g hg => hsafe u (hst.trans htu) g (List.mem_cons_of_mem _ hg)
      exact ⟨_, u, by rw [hcons, exec_bind_of_eq hquery, exec_bind_of_eq hrest, exec_pure]⟩

end Query

/-- All values of a locator are those that its matches contribute in turn. -/
theorem RecordRef.exec_all_values {s : Store} (hs : s.IsIndexed) (r : RecordRef) {p : Locator}
    (hp : p.wantField = false) {filters : Arg} {c : Chain}
    (hc : (Chain.ofArg filters).exec s = (.ok c, s)) :
    (r.all (.locator p) .null filters).exec s =
      (Query.collectValues c.sieve (s.scan r p.alternatives) >>= fun x =>
        pure (Value.texts x.1)).exec s := by
  have hread : (filtersFor p filters).exec s = (.ok ([], c.sieve), s) := by
    rw [filtersFor, if_neg (by simp [hp]), exec_bind_of hc, exec_pure]
  change (r.allMatches p filters).exec s = _
  rw [allMatches, exec_bind_of hread, exec_get_bind]
  dsimp only
  rw [if_neg (by simp [hp]), hs.matching_eq_scan]

namespace Store

variable {s : Store}

/-- A locator of values that is read asks each of its matches for the values of a code. -/
theorem asksForCode_of_mem_scan {text : String} {subfield : Option String} {p : Locator}
    (hp : Locator.parse text subfield = .ok p) (hvalue : p.wantField = false) {r : RecordRef}
    {m : Query.Match} (hm : m ∈ s.scan r p.alternatives) : Query.AsksForCode m := by
  have hform := Locator.wellFormed_of_parse hp
  obtain ⟨ha, -⟩ := mem_scan.mp hm
  obtain ⟨sel, hsel⟩ := Option.ne_none_iff_exists'.mp (hform.values hvalue _ ha)
  obtain ⟨code, -, hcode⟩ := ((hform.alternatives _ ha).subfield sel hsel).code
  exact ⟨sel, _, hsel, hcode⟩

/-- The empty values that a query of values finds are as many as the matches of which nothing
is left and whose selectors have a placeholder for that, and each of these contributes one of
them and nothing else. The matches are those of `s`; filters are not to add to them. -/
theorem Reachable.count_placeholders (h : s.Reachable) (r : RecordRef) {text : String}
    {subfield : Option String} {p : Locator} (hp : Locator.parse text subfield = .ok p)
    (hvalue : p.wantField = false) {filters : Arg} {c : Chain} {growth : Prop}
    (hfilters : filters.IsIn growth s) (hc : (Chain.ofArg filters).exec s = (.ok c, s)) :
    (∀ d t, (r.all (.locator p) .null filters).exec s = (.ok d, t) →
      ∃ xs : List Query.Share, xs.map Query.Share.origin = s.scan r p.alternatives ∧
        Query.Collects c s xs t ∧ d = .texts (xs.flatMap Query.Share.values) ∧
        (xs.flatMap Query.Share.values).count "" = xs.countP (fun x => x.IsVoid) ∧
        ∀ x ∈ xs, (x.IsVoid → x.values = [""]) ∧ (¬x.IsVoid → "" ∉ x.values)) ∧
    (c.FailsNowhere growth s (s.record r).fields →
      ∃ d t, (r.all (.locator p) .null filters).exec s = (.ok d, t)) := by
  have hchain : c.IsIn growth s :=
    ((Chain.runs_ofArg hfilters).of_exec_eq_ok h.isIndexed hc).2
  have hms : ∀ m ∈ s.scan r p.alternatives, Query.AsksForCode m := fun _ hm =>
    asksForCode_of_mem_scan hp hvalue hm
  rw [r.exec_all_values h.isIndexed hvalue hc]
  constructor
  · intro d t hrun
    obtain ⟨found, u, hcollect, hrun⟩ := exec_bind_eq_ok hrun
    obtain ⟨rfl, rfl⟩ := exec_pure_eq_ok hrun
    obtain ⟨xs, horigin, hxs, hvalues⟩ := Query.exists_collects hms hchain h.leads hcollect
    have hshares : ∀ x ∈ xs, (x.IsVoid → x.values = [""]) ∧ (¬x.IsVoid → "" ∉ x.values) := by
      intro x hx
      obtain ⟨u, v, hu, harises⟩ := hxs.exists_arises hchain h.leads x hx
      exact ⟨harises.values_of_isVoid (hu.isBuilt _), harises.empty_notMem_values (hu.isBuilt _)⟩
    exact ⟨xs, horigin, hxs, by rw [hvalues], Query.count_empty hshares, hshares⟩
  · intro hsafe
    have hfields : ∀ m ∈ s.scan r p.alternatives, m.2 ∈ (s.record r).fields :=
      fun m hm => (mem_scan.mp hm).2.1
    obtain ⟨found, t, hcollect⟩ := Query.exists_exec_collectValues hms
      (fun m hm => h.isIndexed.hasField r _ (hfields m hm)) hchain h.leads
      fun u hsu f hf => by
        obtain ⟨m, hm, rfl⟩ := List.mem_map.mp hf
        exact hsafe u hsu m.2 (hfields m hm)
    exact ⟨_, t, by rw [exec_bind_of_eq hcollect, exec_pure]⟩

theorem acts_oneCharacter (growth : Prop) (s : Store) : oneCharacter.Acts growth s := by
  intro t _ v _
  cases v <;> exact runs_pure fun _ => trivial

theorem failsNowhere_oneCharacter (growth : Prop) (s : Store) (fs : List FieldRef) :
    Chain.FailsNowhere growth s fs [.each oneCharacter] := by
  intro t _ f _ v _ e u hrun
  obtain ⟨w, hw⟩ := Chain.exec_apply_each (f := oneCharacter) (x := v) (s := t) rfl
  rw [hw] at hrun
  cases hrun

def anyTitle : Locator :=
  { alternatives := [{ tag := "021A", subfield := some { code := some "a", placeholder := true } }]
    cardinality := ""
    wantField := false
    source := "021A$a_" }

/-- Of the two titles one has no value with the code `a`. -/
theorem count_placeholders_titles :
    titles.Reachable ∧ Locator.parse "021A$a_" none = .ok anyTitle ∧
      Arg.IsIn False titles (.callback oneCharacter) ∧
      (Chain.ofArg (.callback oneCharacter)).exec titles = (.ok [.each oneCharacter], titles) ∧
      (∃ d t, (RecordRef.all ⟨0⟩ (.locator anyTitle) .null (.callback oneCharacter)).exec titles =
        (.ok d, t)) ∧
      ∃ xs : List Query.Share,
        xs.map Query.Share.origin = titles.scan ⟨0⟩ anyTitle.alternatives ∧
          xs.flatMap Query.Share.values = ["x", ""] ∧ xs.countP (fun x => x.IsVoid) = 1 := by
  have hparse : Locator.parse "021A$a_" none = .ok anyTitle := rfl
  have hfilters : Arg.IsIn False titles (.callback oneCharacter) :=
    acts_oneCharacter False titles
  have hc : (Chain.ofArg (.callback oneCharacter)).exec titles =
      (.ok [.each oneCharacter], titles) := rfl
  obtain ⟨hcount, hruns⟩ :=
    reachable_titles.count_placeholders ⟨0⟩ hparse rfl hfilters hc
  obtain ⟨xs, horigin, -, hvalues, hvoid, -⟩ := hcount (.texts ["x", ""]) titles rfl
  have hxs := Value.texts_injective hvalues
  refine ⟨reachable_titles, hparse, hfilters, hc, hruns (failsNowhere_oneCharacter _ _ _), xs,
    horigin, hxs.symm, ?_⟩
  rw [← hvoid, ← hxs]
  rfl

end Store

end Biblio
