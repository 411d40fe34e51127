import Biblio.Proofs.Mapping.Shape

/-!
# Joined values

A join by selectors numbers them, runs them as the entries of a mapping and takes the values
that this files, with lists taken apart. What a selector adds in this way is told by its flag
and by the values with its code: the empty value and the empty list of the mapping add nothing,
and neither does an entry with an error.
-/

namespace Biblio

open Biblio.Action

namespace Query

/-- The parts of a join that a selector gives for the values with its code: the first one, the
only one, or all of them, with an empty part for the lack of any if there is a placeholder. -/
def joined (sel : Selector) (values : List String) : List String :=
  match sel.flag? with
  | none | some .optional => values.head?.toList
  | some .one => (only? values).toList
  | some .some => values
  | some .any => if values = [] ∧ sel.placeholder = true then [""] else values

end Query

def Field.joined (x : Field) (sel : Selector) : List String :=
  Query.joined sel ((sel.code.map x.valuesWith).getD [])

namespace FieldRef

/-! ## Parts -/

theorem parts_append (xs ys : List Datum) : parts (xs ++ ys) = parts xs ++ parts ys := by
  induction xs with
  | nil => rfl
  | cons x xs ih => cases x <;> simp [parts, ih]

theorem textsFrom_map_text (xs : List String) (i : Nat) :
    textsFrom i (xs.map .text) = .ok xs := by
  induction xs generalizing i with
  | nil => rfl
  | cons x xs ih =>
      rw [List.map_cons, textsFrom, ih]
      rfl

def partsOf (s : Store) (key value : Datum) (error : Option Datum) : List Datum :=
  parts ((Mapping.finding s key value error).values.map Prod.snd)

theorem partsOf_texts (s : Store) (key : Datum) (xs : List String) (e : Option Datum) :
    partsOf s key (.texts xs) e = xs.map .text := by
  rw [partsOf, Mapping.finding]
  cases xs with
  | nil => rfl
  | cons x xs =>
      rw [if_neg (by simp [Mapping.isEmpty_texts])]
      exact List.append_nil _

theorem partsOf_text (s : Store) (key : Datum) (x : String) (e : Option Datum) :
    partsOf s key (.text x) e = if x = "" then [] else [.text x] := by
  rw [partsOf, Mapping.finding]
  by_cases hx : x = ""
  · rw [if_pos hx, hx]
    rfl
  · rw [if_neg hx, if_neg (by simpa using (Mapping.isEmpty_text s x).mpr hx)]
    rfl

section unwrap

variable {sel : Selector} {j : Flag} {values : List String} (s : Store) (key : Datum)
  (e : Option Datum)

theorem partsOf_unwrap_nil (sel : Selector) : partsOf s key (unwrap sel []) e = [] :=
  partsOf_texts s key [] e

theorem partsOf_unwrap_singleton (h : sel.flag? = some .optional ∨ sel.flag? = some .one)
    (x : String) : partsOf s key (unwrap sel [x]) e = if x = "" then [] else [.text x] := by
  rw [unwrap_singleton h, partsOf_text]

/-- The answer of a query gives the parts that the values with its code tell: the placeholder of
a single value is empty, and the lack of values an empty list. -/
theorem partsOf_unwrap (hflag : sel.flag? = some j) (hvalues : ∀ v ∈ values, v ≠ "")
    (fullTag : String) :
    partsOf s key (unwrap sel
        (Query.checkValues fullTag sel (Query.lookedAt (some j) values)).1) e =
      (Query.joined sel values).map .text := by
  have hnil := partsOf_unwrap_nil s key e sel
  cases j with
  | optional =>
      have hone := partsOf_unwrap_singleton s key e (.inl hflag)
      -- A placeholder is dropped here, being an empty text, and a value is not.
      rcases values with _ | ⟨v, values⟩
      · cases hplaceholder : sel.placeholder <;>
          simp [Query.checkValues, Query.lookedAt, Query.joined, hflag, hplaceholder, hnil, hone]
      · have hv : v ≠ "" := hvalues v List.mem_cons_self
        simp [Query.checkValues, Query.lookedAt, Query.joined, hflag, hone, hv]
  | one =>
      have hone := partsOf_unwrap_singleton s key e (.inr hflag)
      rcases values with _ | ⟨v, _ | ⟨w, values⟩⟩
      · simp [Query.checkValues, Query.lookedAt, Query.joined, Query.only?, hflag, hnil]
      · have hv : v ≠ "" := hvalues v List.mem_cons_self
        simp [Query.checkValues, Query.lookedAt, Query.joined, Query.only?, hflag, hone, hv]
      · simp [Query.checkValues, Query.lookedAt, Query.joined, Query.only?, hflag, hnil]
  | some =>
      rw [unwrap_of_several (.inr hflag), partsOf_texts]
      cases values <;> simp [Query.checkValues, Query.lookedAt, Query.joined, hflag]
  | any =>
      rw [unwrap_of_several (.inl hflag), partsOf_texts]
      cases values <;> cases hplaceholder : sel.placeholder <;>
        simp [Query.checkValues, Query.lookedAt, Query.joined, hflag, hplaceholder]

end unwrap

/-! ## Entries -/

variable {f : FieldRef} {s : Store} {text sep : String} {sel : Selector}

/-- The flag that counts for want of another one changes nothing about the parts. -/
theorem joined_withDefault {c : String} {k : Option Flag} (hcode : sel.code = some c)
    (hk : sel.cardinality = Flag.text k) (values : List String) :
    Query.joined (sel.withDefault "?") values = Query.joined sel values := by
  have hflag : sel.flag? = k := by rw [Selector.flag?, hk, Flag.ofText?_text]
  rw [Query.joined, Query.joined, Selector.flag?_withDefault hcode hk, hflag]
  cases k with
  | none => rfl
  | some k =>
      have hsame : (sel.withDefault "?").placeholder = sel.placeholder := by
        rw [Selector.withDefault]
        split <;> rfl
      rw [hsame]
      rfl

theorem exec_query_code {j : Flag} {c : String} (hbuilt : (s.field f).IsBuilt False)
    (hcode : sel.code = some c) (hflag : sel.flag? = some j) :
    (f.query sel .null).exec s =
      (.ok (Query.checkValues (s.field f).fullTag sel
        (Query.lookedAt (some j) ((s.field f).valuesWith c))), s) := by
  rw [exec_query_null, Query.select, hcode, Query.lookedAt, hflag,
    ← hbuilt.valuesFor_eq_valuesWith, List.take_one]
  simp only [List.filterMap_some]

/-- A selector is answered, and its answer gives its parts. -/
theorem exec_answer_selector (hbuilt : (s.field f).IsBuilt False)
    (h : Selector.IsArgument text.toList sel) (key : Arg) :
    ∃ x, (Mapping.answer (.field f) f.resolve key (.text text)).exec s = (.ok x, s) ∧
      ∀ t, partsOf t key.forget x.1 x.2 = ((s.field f).joined sel).map .text := by
  obtain ⟨⟨c, -, hcode⟩, k, hk⟩ := h.wellFormed
  have hread := Arg.exec_fieldSelector ((Selector.parse_eq_ok_iff text sel).mpr h) s
  have hflag := Selector.flag?_withDefault hcode hk
  have hquery := exec_query_code hbuilt ((Selector.code_withDefault sel "?").trans hcode) hflag
  generalize hfound : Query.checkValues _ _ _ = found at hquery
  have hresolve : (f.resolve (.text text)).exec s =
      (.ok (unwrap (sel.withDefault "?") found.1, found.2), s) := by
    rw [resolve, Mapping.fieldQuery, pure_bind, exec_bind_of hread, exec_bind_of hquery, exec_pure]
  refine ⟨_, by rw [Mapping.answer, exec_bind_of hresolve, exec_pure], fun t => ?_⟩
  rw [Field.joined, hcode, ← joined_withDefault hcode hk, ← hfound]
  exact partsOf_unwrap t key.forget _ hflag (fun v hv => hbuilt.ne_empty_of_mem_valuesWith hv) _

/-- The entries of selectors give the parts of these in turn. -/
theorem exec_collect_selectors (hbuilt : (s.field f).IsBuilt False) {texts : List String}
    {sels : List Selector}
    (h : List.Forall₂ (fun text sel => Selector.IsArgument text.toList sel) texts sels)
    {es : List (Arg × Arg)} (hes : es.map Prod.snd = texts.map .text) :
    ∃ found, (Mapping.collect (.field f) f.resolve es).exec s = (.ok found, s) ∧
      parts (found.values.map Prod.snd) = (sels.flatMap (s.field f).joined).map .text := by
  -- The names of the entries are not looked at, so that they need not be counted from zero.
  induction h generalizing es with
  | nil =>
      obtain rfl := List.map_eq_nil_iff.mp hes
      exact ⟨_, rfl, rfl⟩
  | @cons text sel texts sels htext _ ih =>
      obtain ⟨⟨key, entry⟩, es, rfl, rfl, hrest⟩ := List.map_eq_cons_iff.mp hes
      obtain ⟨x, hanswer, hx⟩ := exec_answer_selector hbuilt htext key
      obtain ⟨found, hfound, hparts⟩ := ih hrest
      refine ⟨_, by rw [Mapping.collect, exec_bind_of hanswer, exec_get_bind,
        exec_bind_of hfound, exec_pure], ?_⟩
      rw [Mapping.Findings.append, List.map_append, parts_append, hparts, List.flatMap_cons,
        List.map_append, ← hx s]
      rfl

/-! ## Joins -/

/-- A join of values that are all texts. -/
theorem exec_join_null (f : FieldRef) (sep : String) (s : Store) :
    (f.join (.text sep) .null).exec s =
      (.ok (.text (sep.intercalate (s.field f).values)), s) := by
  have hvalues := textsFrom_map_text (s.field f).values 0
  have hnull : (Value.null : Arg).isNull = true := rfl
  rw [join, if_pos hnull, exec_bind_of (exec_field f s), pure_bind]
  dsimp only
  rw [hvalues]
  rfl

theorem exec_join_list (hbuilt : (s.field f).IsBuilt False) (sep : String) {texts : List String}
    {sels : List Selector}
    (h : List.Forall₂ (fun text sel => Selector.IsArgument text.toList sel) texts sels) :
    (f.join (.text sep) (.list (texts.map .text))).exec s =
      (.ok (.text (sep.intercalate (sels.flatMap (s.field f).joined))), s) := by
  have hentries : (joinEntries (.list (texts.map .text))).exec s =
      (.ok ((texts.map .text).mapIdx fun i x => (.int i, x)), s) := rfl
  have hsnd : ((texts.map Value.text).mapIdx fun i x => ((.int i, x) : Arg × Arg)).map Prod.snd =
      texts.map .text :=
    List.ext_getElem (by simp) (by simp)
  obtain ⟨found, hcollect, hparts⟩ := exec_collect_selectors hbuilt h hsnd
  have htexts := textsFrom_map_text (sels.flatMap (s.field f).joined) 0
  rw [join, if_neg (by simp [Value.isNull]), exec_bind_of hentries, exec_bind_of hcollect,
    pure_bind]
  dsimp only
  rw [hparts, htexts]
  rfl

/-- A text of codes stands for the list of its characters. -/
theorem join_text (f : FieldRef) (sep codes : String) :
    f.join (.text sep) (.text codes) =
      f.join (.text sep) (.list (codes.toList.map fun c => .text (String.singleton c))) := rfl

end FieldRef

namespace Store

variable {s : Store}

/-- A join by selectors succeeds and gives the parts of the selectors in their order: the first
value of a code, the only one if the flag is `!`, or all of them, and an empty part for the
lack of any if the flag is `*` with a placeholder. A text of codes stands for the list of its
characters, and without codes all values are joined. -/
theorem Reachable.join_selected (h : s.Reachable) (f : FieldRef) (sep : String) :
    (∀ texts sels, List.Forall₂ (fun text sel => Selector.IsArgument text.toList sel) texts sels →
      (f.join (.text sep) (.list (texts.map .text))).exec s =
        (.ok (.text (sep.intercalate (sels.flatMap (s.field f).joined))), s)) ∧
    (∀ codes : String, f.join (.text sep) (.text codes) =
      f.join (.text sep) (.list (codes.toList.map fun c => .text (String.singleton c)))) ∧
    (f.join (.text sep) .null).exec s =
      (.ok (.text (sep.intercalate (s.field f).values)), s) :=
  ⟨fun _ _ hsels => FieldRef.exec_join_list (h.leads.isBuilt f) sep hsels,
    f.join_text sep, f.exec_join_null sep s⟩

def manySelectors : List (String × Selector) :=
  [("b!", { code := some "b", cardinality := "!" }), ("a", { code := some "a" }),
    ("9*_", { code := some "9", cardinality := "*", placeholder := true }),
    ("a*\n", { code := some "a", cardinality := "*" }),
    ("a!", { code := some "a", cardinality := "!" }), ("a", { code := some "a" }),
    ("9_", { code := some "9", placeholder := true }),
    ("9+", { code := some "9", cardinality := "+" }),
    ("b!", { code := some "b", cardinality := "!" })]

theorem join_selected_uneven :
    uneven.Reachable ∧
      List.Forall₂ (fun text sel => Selector.IsArgument text.toList sel)
        (manySelectors.map Prod.fst) (manySelectors.map Prod.snd) ∧
      ((⟨0⟩ : FieldRef).join (.text "; ")
          (.list ((manySelectors.map Prod.fst).map .text))).exec uneven =
        (.ok (.text "y; x; ; x; z; $v; x; y"), uneven) := by
  have hsels : List.Forall₂ (fun text sel => Selector.IsArgument text.toList sel)
      (manySelectors.map Prod.fst) (manySelectors.map Prod.snd) := by
    rw [List.forall₂_map_left_iff, List.forall₂_map_right_iff, List.forall₂_same]
    simp only [manySelectors, List.forall_mem_cons, ← Selector.parse_eq_ok_iff]
    exact ⟨rfl, rfl, rfl, rfl, rfl, rfl, rfl, rfl, rfl, fun _ h => absurd h List.not_mem_nil⟩
  obtain ⟨hlist, -⟩ := reachable_uneven.join_selected ⟨0⟩ "; "
  exact ⟨reachable_uneven, hsels, hlist _ _ hsels⟩

end Store

end Biblio
