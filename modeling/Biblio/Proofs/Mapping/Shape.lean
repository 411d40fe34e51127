import Biblio.Proofs.Mapping.Reading
import Biblio.Proofs.Query.Placeholder

/-!
# Shapes of mapped values

A mapping of a field files a value or an error under a key, and never both. Which of them it
is, and whether a value is a text or a list of texts, is told by the flag of the query: the
one that stands behind the code, or else the one beside it, or else `?`. Since callbacks of a
mapping may change the field, an entry is held against the field as the entries in front of it
leave it.
-/

namespace Biblio

open Biblio.Action

/-! ## Flags of queries -/

namespace FieldQuery

def inlineFlag? (q : FieldQuery) : Option Flag :=
  match Selector.parse q.code with
  | .ok sel => sel.flag?
  | .error _ => none

def givenFlag? (q : FieldQuery) : Option Flag :=
  match q.marks with
  | .text t => (readMarks? (Text.chomp t.toList)).bind fun x => Flag.ofText? x.1
  | _ => none

def flag (q : FieldQuery) : Flag :=
  (q.inlineFlag?.or q.givenFlag?).getD .optional

end FieldQuery

namespace Selector

theorem flag?_withDefault {sel : Selector} {code : String} (hcode : sel.code = some code)
    {k : Option Flag} (hk : sel.cardinality = Flag.text k) :
    (sel.withDefault "?").flag? = some (k.getD .optional) := by
  cases k with
  | none =>
      have hempty : sel.cardinality = "" := hk
      simp only [withDefault, hempty, hcode]
      exact Flag.ofText?_write .optional
  | some k =>
      have hne : sel.cardinality ≠ "" := by
        rw [hk]
        cases k <;> decide
      rw [withDefault, if_pos (by simp [hne]), flag?, hk, Flag.ofText?_text]
      rfl

/-- A flag beside the code counts if there is none behind it. -/
theorem exists_of_withMarks {own sel : Selector} {marks : String}
    (h : own.withMarks marks = .ok sel) {k : Option Flag} (hk : own.cardinality = Flag.text k) :
    sel.code = own.code ∧ ∃ j placeholder,
      readMarks? (Text.chomp marks.toList) = some (Flag.text j, placeholder) ∧
        sel.cardinality = Flag.text (k.or j) := by
  rw [withMarks] at h
  split at h
  · next cardinality placeholder hmarks =>
    obtain ⟨j, -, rfl⟩ := (readMarks?_eq_some_iff _ _ _).mp hmarks
    obtain rfl := Except.ok.inj h
    refine ⟨rfl, j, placeholder, hmarks, ?_⟩
    rw [hk]
    cases k with
    | none => rfl
    | some k => cases k <;> rfl
  · cases h

theorem code_withDefault (sel : Selector) (cardinality : String) :
    (sel.withDefault cardinality).code = sel.code := by
  rw [withDefault]
  split <;> rfl

end Selector

namespace FieldQuery

variable {q : FieldQuery} {s t : Store} {own sel : Selector}

theorem inlineFlag?_eq (h : Selector.parse q.code = .ok own) {k : Option Flag}
    (hk : own.cardinality = Flag.text k) : q.inlineFlag? = k := by
  rw [inlineFlag?, h]
  dsimp only
  rw [Selector.flag?, hk, Flag.ofText?_text]

/-- The selector that a query of a field is run with has its flag. -/
theorem exec_fieldSelector_eq_ok (hmarks : q.marks = .null ∨ ∃ t, q.marks = .text t)
    (h : (Arg.fieldSelector (.text q.code) q.marks).exec s = (.ok sel, t)) :
    s = t ∧ ∃ own code, Selector.parse q.code = .ok own ∧ own.code = some code ∧
      sel.code = some code ∧ (sel.withDefault "?").flag? = some q.flag := by
  rw [Arg.fieldSelector, if_neg (by simp [Value.isNull])] at h
  cases hparse : Selector.parse q.code with
  | error e =>
      have hfault : (Arg.toSelector (.text q.code)).exec s = (.error (.locator e), s) := by
        rw [Arg.toSelector, hparse]
        rfl
      rw [exec_bind, hfault] at h
      cases h
  | ok own =>
      have hform := (Selector.parse_eq_ok_iff q.code own).mp hparse
      obtain ⟨⟨c, -, hcode⟩, k, hk⟩ := hform.wellFormed
      have hinline := inlineFlag?_eq hparse hk
      rw [exec_bind_of (Arg.exec_toSelector hparse s), exec_get_bind] at h
      split at h
      · next hfalse =>
        obtain ⟨rfl, rfl⟩ := exec_pure_eq_ok h
        refine ⟨rfl, own, _, rfl, hcode, hcode, ?_⟩
        have hgiven : q.givenFlag? = none := by
          rcases hmarks with hnull | ⟨t, ht⟩
          · rw [givenFlag?, hnull]
          · rw [ht] at hfalse
            obtain rfl : t = "" := by simpa [Store.isTrue, Store.length?] using hfalse
            rw [givenFlag?, ht]
            rfl
        rw [Selector.flag?_withDefault hcode hk, flag, hinline, hgiven, Option.or_none]
      · next htrue =>
        rcases hmarks with hnull | ⟨m, hm⟩
        · rw [hnull] at htrue
          exact absurd rfl htrue
        · rw [hm] at h
          dsimp only at h
          have hmarked : own.withMarks m = .ok sel := exec_ofExcept_eq_ok h
          obtain ⟨hsel, j, placeholder, hread, hj⟩ := Selector.exists_of_withMarks hmarked hk
          rw [hmarked] at h
          obtain ⟨-, rfl⟩ := exec_pure_eq_ok h
          have hgiven : q.givenFlag? = j := by
            rw [givenFlag?, hm]
            dsimp only
            rw [hread, Option.bind_some, Flag.ofText?_text]
          refine ⟨rfl, own, _, rfl, hcode, hsel.trans hcode, ?_⟩
          rw [Selector.flag?_withDefault (hsel.trans hcode) hj, flag, hinline, hgiven]

end FieldQuery

namespace Mapping

/-- The entries that are read as a query of a field: a text, and a list or a tuple of a text
and further arguments, of which a text is a flag. A subfield is a tuple of two texts. -/
inductive Asks : Arg → FieldQuery → Prop
  | text (code : String) : Asks (.text code) { code }
  | list {xs : List Arg} {q : FieldQuery} (h : fieldQuery? xs = some q) : Asks (.list xs) q
  | tuple {xs : List Arg} {q : FieldQuery} (h : fieldQuery? xs = some q) : Asks (.tuple xs) q
  | subfield (sf : Subfield) : Asks (.subfield sf) { code := sf.code, marks := .text sf.value }

variable {entry : Arg} {q : FieldQuery}

theorem Asks.exec_fieldQuery (h : Asks entry q) (s : Store) :
    (fieldQuery entry).exec s = (.ok q, s) := by
  have hitems : ∀ (v : Arg) xs, s.items? v = some xs → (Arg.items v).exec s = (.ok xs, s) := by
    intro v xs hv
    rw [Arg.items, exec_get_bind, hv]
    rfl
  cases h with
  | text | subfield => rfl
  | list h | tuple h =>
      rw [fieldQuery, exec_bind_of (hitems _ _ rfl), h]
      · rfl
      · exact fun _ => by simp

/-- What is given beside the code is a text, if anything. -/
theorem Asks.marks (h : Asks entry q) : q.marks = .null ∨ ∃ t, q.marks = .text t := by
  have hquery : ∀ {xs : List Arg}, fieldQuery? xs = some q →
      q.marks = .null ∨ ∃ t, q.marks = .text t := by
    intro xs h
    unfold fieldQuery? at h
    split at h
    · obtain rfl := Option.some.inj h
      exact .inr ⟨_, rfl⟩
    · obtain rfl := Option.some.inj h
      exact .inl rfl
    · cases h
  cases h with
  | text => exact .inl rfl
  | subfield => exact .inr ⟨_, rfl⟩
  | list h | tuple h => exact hquery h

theorem Asks.isQuery (h : Asks entry q) : isQuery entry = true := by
  cases h <;> rfl

/-! ## Answers -/

/-- What is filed under a key is a value or an error, and not both. -/
structure IsPart (key : Datum) (part : Findings) : Prop where
  keys : ∀ e ∈ part.values ++ part.errors, e.1 = key
  apart : part.values = [] ∨ part.errors = []

theorem mem_values_finding {s : Store} {key x d : Datum} {e : Option Datum} :
    (key, d) ∈ (finding s key x e).values ↔ d = x ∧ isEmpty s x = false := by
  rw [finding]
  cases isEmpty s x <;> simp

theorem mem_errors_finding {s : Store} {key x d : Datum} {e : Option Datum} :
    (key, d) ∈ (finding s key x e).errors ↔ e = some d := by
  simp [finding]

theorem fst_of_mem_finding {s : Store} {key x : Datum} {e : Option Datum} :
    ∀ y ∈ (finding s key x e).values ++ (finding s key x e).errors, y.1 = key := by
  rintro ⟨k, d⟩ hy
  rw [List.mem_append] at hy
  rcases hy with hy | hy
  · rw [finding] at hy
    dsimp only at hy
    split at hy
    · cases hy
    · exact congrArg Prod.fst (List.mem_singleton.mp hy)
  · obtain ⟨d', -, hd⟩ := List.mem_map.mp hy
    exact congrArg Prod.fst hd.symm

theorem isPart_finding {s : Store} (key : Datum) {x : Datum} {e : Option Datum}
    (h : e = none ∨ isEmpty s x = true) : IsPart key (finding s key x e) where
  keys := fst_of_mem_finding
  apart := by
    rcases h with rfl | h
    · exact .inr rfl
    · exact .inl (if_pos h)

/-- What a mapping finds is filed under the keys of its entries. -/
theorem exists_key_of_exec_collect {target : Datum} {resolve : Resolver} {es : List (Arg × Arg)}
    {s t : Store} {found : Findings} (h : (collect target resolve es).exec s = (.ok found, t)) :
    ∀ y ∈ found.values ++ found.errors, ∃ e ∈ es, y.1 = e.1.forget := by
  induction es generalizing s found with
  | nil =>
      obtain ⟨rfl, -⟩ := exec_pure_eq_ok h
      exact fun y hy => absurd hy List.not_mem_nil
  | cons e es ih =>
      obtain ⟨key, entry⟩ := e
      rw [collect] at h
      obtain ⟨⟨d, err⟩, u, -, h⟩ := exec_bind_eq_ok h
      rw [exec_get_bind] at h
      obtain ⟨rest, v, hrest, h⟩ := exec_bind_eq_ok h
      obtain ⟨rfl, rfl⟩ := exec_pure_eq_ok h
      intro y hy
      simp only [Findings.append, List.mem_append] at hy
      have hhead : y ∈ (finding u key.forget d err).values ++ (finding u key.forget d err).errors ∨
          y ∈ rest.values ++ rest.errors := by
        simp only [List.mem_append]
        tauto
      rcases hhead with hy | hy
      · exact ⟨(key, entry), List.mem_cons_self, fst_of_mem_finding y hy⟩
      · obtain ⟨e, he, hkey⟩ := ih hrest y hy
        exact ⟨e, List.mem_cons_of_mem _ he, hkey⟩

theorem isEmpty_text (s : Store) (x : String) : isEmpty s (.text x) = false ↔ x ≠ "" := by
  simp [isEmpty, Store.length?]

theorem isEmpty_texts (s : Store) (xs : List String) : isEmpty s (.texts xs) = false ↔ xs ≠ [] := by
  simp [isEmpty, Value.texts, Store.length?]

end Mapping

namespace FieldRef

variable {sel : Selector}

/-- A flag that allows several values asks for a list, also of one value. -/
theorem unwrap_of_several (h : sel.flag? = some .any ∨ sel.flag? = some .some) (xs : List String) :
    unwrap sel xs = .texts xs := by
  unfold unwrap
  split
  · rw [if_pos (by simpa using h)]
  · rfl

theorem unwrap_singleton (h : sel.flag? = some .optional ∨ sel.flag? = some .one) (x : String) :
    unwrap sel [x] = .text x := by
  rcases h with h | h <;> simp [unwrap, h]

end FieldRef

namespace FieldQuery

open Mapping

/-- How a query of a field is answered: the selector that it is run with has its code and its
flag, and its chain leaves values of those with the code. -/
structure Asked (q : FieldQuery) (s : Store) (f : FieldRef) (t : Store) where
  own : Selector
  sel : Selector
  code : String
  chain : Chain
  left : List String
  values : List String
  error : Option QueryError
  parse : Selector.parse q.code = .ok own
  own_code : own.code = some code
  sel_flag : sel.flag? = some q.flag
  ofArg : (Chain.ofArg q.filters).exec s = (.ok chain, s)
  leaves : chain.Leaves (some q.flag) ((s.field f).valuesWith code) s left t
  meets : Query.MeetsFlag (some q.flag) sel (s.field f).fullTag left values error

variable {q : FieldQuery} {s t : Store} {f : FieldRef} {entry key : Arg} {part : Findings}

theorem exists_asked (hbuilt : (s.field f).IsBuilt False) (h : Asks entry q)
    (hrun : (f.map (.table [(key, entry)])).exec s = (.ok part, t)) :
    ∃ x : q.Asked s f t,
      part = finding t key.forget (FieldRef.unwrap x.sel x.values) (x.error.map Value.error) := by
  have hmap : f.map (.table [(key, entry)]) = collect (.field f) f.resolve [(key, entry)] := rfl
  rw [hmap, collect_singleton, answer_of_isQuery h.isQuery, bind_assoc] at hrun
  obtain ⟨⟨d, e⟩, v, hresolve, hrun⟩ := exec_bind_eq_ok hrun
  rw [pure_bind, exec_get_bind] at hrun
  obtain ⟨rfl, rfl⟩ := exec_pure_eq_ok hrun
  rw [FieldRef.resolve, exec_bind_of (h.exec_fieldQuery s)] at hresolve
  obtain ⟨sel, s', hsel, hresolve⟩ := exec_bind_eq_ok hresolve
  obtain ⟨rfl, own, code, hparse, hown, hcode, hflag⟩ := exec_fieldSelector_eq_ok h.marks hsel
  obtain ⟨⟨values, error⟩, v', hquery, hresolve⟩ := exec_bind_eq_ok hresolve
  obtain ⟨hpair, rfl⟩ := exec_pure_eq_ok hresolve
  obtain ⟨rfl, rfl⟩ := Prod.mk.inj hpair
  rcases Chain.exec_ofArg q.filters s with ⟨c, hc⟩ | ⟨fault, hfault⟩
  · rw [f.exec_query_filters hc] at hquery
    have hdefault := (Selector.code_withDefault sel "?").trans hcode
    obtain ⟨left, hleft, hfound⟩ := (Query.exec_queryField_eq_ok_iff hdefault).mp hquery
    rw [hflag, hbuilt.valuesFor_eq_valuesWith] at hleft
    have hmeets := Query.meetsFlag_checkValues hflag (s.field f).fullTag left
    rw [hleft.lookedAt_eq, ← hfound] at hmeets
    let x : q.Asked s f v' := ⟨own, sel.withDefault "?", code, c, left, values, error, hparse,
      hown, hflag, hc, hleft, hmeets⟩
    exact ⟨x, rfl⟩
  · rw [FieldRef.query, exec_bind, hfault] at hquery
    cases hquery

/-- Whether these are the values with the code of a query that its filters keep. -/
def Keeps (q : FieldQuery) (s : Store) (f : FieldRef) (left : List String) : Prop :=
  ∃ own code c t, Selector.parse q.code = .ok own ∧ own.code = some code ∧
    (Chain.ofArg q.filters).exec s = (.ok c, s) ∧
    c.Sifts s ((s.field f).valuesWith code) left t

structure Shapes (q : FieldQuery) (s : Store) (f : FieldRef) (key : Datum) (part : Findings) :
    Prop where
  text : q.flag = .optional ∨ q.flag = .one → ∀ d, (key, d) ∈ part.values →
    ∃ x, x ≠ "" ∧ d = .text x
  texts : q.flag = .any ∨ q.flag = .some → ∀ d, (key, d) ∈ part.values →
    ∃ xs, xs ≠ [] ∧ d = .texts xs
  optional : q.flag = .optional → ∃ found t,
    (f.first (.text q.code) q.filters).exec s = (.ok found, t) ∧
      ∀ d, (key, d) ∈ part.values ↔ ∃ x, found = some x ∧ x ≠ "" ∧ d = .text x
  one : q.flag = .one → ∃ left, q.Keeps s f left ∧
    ((∃ d, (key, d) ∈ part.values) ↔ left.length = 1)
  some : q.flag = .some → ∃ left, q.Keeps s f left ∧
    ((∃ e, (key, e) ∈ part.errors) ↔ left = [])

namespace Asked

variable (x : q.Asked s f t)

theorem keeps (h : q.flag ≠ .optional) : q.Keeps s f x.left := by
  have hleaves := x.leaves
  generalize x.left = left at hleaves ⊢
  cases hleaves with
  | all _ h => exact ⟨x.own, x.code, x.chain, t, x.parse, x.own_code, x.ofArg, h⟩
  | first hk | none hk => exact absurd (Option.some.inj hk) h

theorem ne_empty (hbuilt : (s.field f).IsBuilt False) : ∀ w ∈ x.left, w ≠ "" :=
  x.leaves.ne_empty fun _ => hbuilt.ne_empty_of_mem_valuesWith

/-- A query without error files its values, and one with an error files none. -/
theorem error_eq_none_or (u : Store) :
    x.error = none ∨ isEmpty u (FieldRef.unwrap x.sel x.values) = true := by
  cases herror : x.error with
  | none => exact .inl rfl
  | some e =>
      refine .inr ?_
      rw [(x.meets.error e herror).1]
      rfl

theorem single_or_nil_of_error_eq_none (hflag : q.flag = .optional ∨ q.flag = .one)
    (h : x.error = none) : x.left = [] ∨ ∃ y, x.left = [y] := by
  have hlength : x.left.length ≤ 1 := by
    rcases hflag with hflag | hflag
    · have hlooked := x.leaves.lookedAt_eq
      rw [hflag, Query.lookedAt, if_pos rfl] at hlooked
      rw [← hlooked]
      exact List.length_take_le 1 _
    · by_contra hmany
      exact x.meets.error_iff.mpr (.inl ⟨congrArg some hflag, by omega⟩) h
  rcases hleft : x.left with _ | ⟨y, ys⟩
  · exact .inl rfl
  · rw [hleft, List.length_cons] at hlength
    obtain rfl : ys = [] := List.length_eq_zero_iff.mp (by omega)
    exact .inr ⟨y, rfl⟩

theorem error_eq_none_of_singleton {y : String} (h : x.left = [y]) : x.error = none := by
  by_contra herror
  rcases x.meets.error_iff.mp herror with ⟨-, hlength⟩ | ⟨-, hnil⟩
  · exact hlength (by rw [h]; rfl)
  · rw [h] at hnil
    cases hnil

/-- Without error the values are those that are left, or a placeholder. -/
theorem values_eq (h : x.error = none) :
    x.values = if x.left = [] ∧ x.sel.placeholder = true then [""] else x.left := by
  rw [x.meets.values h, x.leaves.lookedAt_eq]

/-- The flags `?` and `!` file the only value that is left. -/
theorem mem_values_iff_of_single (hbuilt : (s.field f).IsBuilt False)
    (hflag : q.flag = .optional ∨ q.flag = .one) {u : Store} {k d : Datum} {e : Option Datum} :
    (k, d) ∈ (finding u k (FieldRef.unwrap x.sel x.values) e).values ↔
      ∃ y, x.left = [y] ∧ d = .text y := by
  have hsel : x.sel.flag? = some .optional ∨ x.sel.flag? = some .one := by
    rw [x.sel_flag]
    simpa using hflag
  rw [mem_values_finding]
  constructor
  · rintro ⟨rfl, hfull⟩
    rcases x.error_eq_none_or u with herror | hempty
    · rcases x.single_or_nil_of_error_eq_none hflag herror with hnil | ⟨y, hy⟩
      · -- A placeholder is the empty text, which is not filed either.
        rw [x.values_eq herror, hnil] at hfull
        split at hfull
        · rw [FieldRef.unwrap_singleton hsel] at hfull
          cases hfull
        · cases hfull
      · refine ⟨y, hy, ?_⟩
        rw [x.values_eq herror, hy, if_neg (by simp), FieldRef.unwrap_singleton hsel]
    · rw [hempty] at hfull
      cases hfull
  · rintro ⟨y, hy, rfl⟩
    have hvalue : FieldRef.unwrap x.sel x.values = .text y := by
      rw [x.values_eq (x.error_eq_none_of_singleton hy), hy, if_neg (by simp),
        FieldRef.unwrap_singleton hsel]
    rw [hvalue, isEmpty_text]
    exact ⟨rfl, x.ne_empty hbuilt y (by simp [hy])⟩

/-- The first value of the code is the only one that is left, or an empty text or none. -/
theorem exists_exec_first (hbuilt : (s.field f).IsBuilt False) (hflag : q.flag = .optional) :
    ∃ found, (f.first (.text q.code) q.filters).exec s = (.ok found, t) ∧
      ∀ y, found = some y ∧ y ≠ "" ↔ x.left = [y] := by
  have hselector := Arg.exec_fieldSelector x.parse s
  have hdefault : (x.own.withDefault "?").flag? = some .optional := by
    obtain ⟨-, k, hk⟩ := ((Selector.parse_eq_ok_iff q.code x.own).mp x.parse).wellFormed
    rw [Selector.flag?_withDefault x.own_code hk]
    rw [flag, inlineFlag?_eq x.parse hk] at hflag
    cases k with
    | none => rfl
    | some k => exact congrArg some hflag
  have hleaves := x.leaves
  rw [hflag, ← hdefault, ← hbuilt.valuesFor_eq_valuesWith] at hleaves
  have hquery := (Query.exec_queryField_eq_ok_iff
    ((Selector.code_withDefault x.own "?").trans x.own_code)).mpr ⟨x.left, hleaves, rfl⟩
  rw [← f.exec_query_filters x.ofArg] at hquery
  refine ⟨_, by rw [FieldRef.first, exec_bind_of hselector, exec_bind_of_eq hquery, exec_pure], ?_⟩
  have hstrict : ¬Query.IsStrict (x.own.withDefault "?") := by simp [Query.IsStrict, hdefault]
  have herror : x.error = none := by
    by_contra herror
    simpa [hflag] using x.meets.error_iff.mp herror
  rw [Query.checkValues_of_not_isStrict hstrict]
  intro y
  rcases x.single_or_nil_of_error_eq_none (.inl hflag) herror with hnil | ⟨z, hz⟩
  · rw [hnil]
    cases (x.own.withDefault "?").placeholder <;> simp
  · have hne := x.ne_empty hbuilt z (by simp [hz])
    simp only [hz, reduceCtorEq, false_and, if_false, List.head?_cons, Option.some.injEq,
      List.cons.injEq, and_true]
    constructor
    · exact fun h => h.1
    · rintro rfl
      exact ⟨rfl, hne⟩

/-- What a query files has the shape of its flag. -/
theorem shapes (hbuilt : (s.field f).IsBuilt False) (key : Datum) :
    q.Shapes s f key
      (finding t key (FieldRef.unwrap x.sel x.values) (x.error.map Value.error)) where
  text := by
    intro hflag d hd
    obtain ⟨y, hy, rfl⟩ := (x.mem_values_iff_of_single hbuilt hflag).mp hd
    exact ⟨y, x.ne_empty hbuilt y (by simp [hy]), rfl⟩
  texts := by
    intro hflag d hd
    have hsel : x.sel.flag? = some .any ∨ x.sel.flag? = some .some := by
      rw [x.sel_flag]
      simpa using hflag
    rw [FieldRef.unwrap_of_several hsel, mem_values_finding, isEmpty_texts] at hd
    exact ⟨x.values, hd.2, hd.1⟩
  optional := by
    intro hflag
    obtain ⟨found, hfirst, hfound⟩ := x.exists_exec_first hbuilt hflag
    refine ⟨found, t, hfirst, fun d => ?_⟩
    rw [x.mem_values_iff_of_single hbuilt (.inl hflag)]
    simp only [← hfound, and_assoc]
  one := by
    intro hflag
    refine ⟨x.left, x.keeps (by simp [hflag]), ?_⟩
    simp only [x.mem_values_iff_of_single hbuilt (.inr hflag), List.length_eq_one_iff]
    constructor
    · rintro ⟨_, y, hy, -⟩
      exact ⟨y, hy⟩
    · rintro ⟨y, hy⟩
      exact ⟨_, y, hy, rfl⟩
  some := by
    intro hflag
    refine ⟨x.left, x.keeps (by simp [hflag]), ?_⟩
    have herror : x.error ≠ none ↔ x.left = [] := by
      simp [x.meets.error_iff, hflag]
    simp only [mem_errors_finding]
    rw [← herror]
    cases x.error <;> simp

end Asked

end FieldQuery

/-! ## Mappings -/

namespace FieldRef

open Mapping

variable {f : FieldRef} {s t : Store}

/-- An answer of an entry with an error has no value to be filed. -/
theorem eq_none_or_isEmpty_of_exec_answer {key entry : Arg} {d : Datum} {e : Option Datum}
    (h : (answer (.field f) f.resolve key entry).exec s = (.ok (d, e), t)) (u : Store) :
    e = none ∨ isEmpty u d = true := by
  by_cases hquery : isQuery entry = true
  · rw [answer_of_isQuery hquery] at h
    obtain ⟨⟨x, err⟩, v, hresolve, h⟩ := exec_bind_eq_ok h
    obtain ⟨hpair, -⟩ := exec_pure_eq_ok h
    obtain ⟨rfl, rfl⟩ := Prod.mk.inj hpair
    cases err with
    | none => exact .inl rfl
    | some err =>
        obtain ⟨q, _, -, hresolve⟩ := exec_bind_eq_ok hresolve
        obtain ⟨sel, _, -, hresolve⟩ := exec_bind_eq_ok hresolve
        obtain ⟨⟨xs, e⟩, _, hxs, hresolve⟩ := exec_bind_eq_ok hresolve
        obtain ⟨hpair, -⟩ := exec_pure_eq_ok hresolve
        obtain ⟨rfl, rfl⟩ := Prod.mk.inj hpair
        obtain ⟨c, _, -, hxs⟩ := exec_bind_eq_ok hxs
        rw [exec_bind_of (exec_field f _)] at hxs
        obtain ⟨rfl, -⟩ := Query.queryField_of_error hxs
        exact .inr rfl
  · rw [Bool.not_eq_true] at hquery
    cases hcall : Chain.callable? entry with
    | none =>
        rw [answer_of_not_callable hquery hcall, exec_get_bind] at h
        cases h
    | some c =>
        rw [answer_of_callable hcall, exec_guarded] at h
        split at h
        · cases h
          exact .inl rfl
        · cases h
          exact .inr rfl

/-- A mapping of one entry files a value or an error. -/
theorem isPart_of_exec_map {key entry : Arg} {part : Findings}
    (h : (f.map (.table [(key, entry)])).exec s = (.ok part, t)) : IsPart key.forget part := by
  have hmap : f.map (.table [(key, entry)]) = collect (.field f) f.resolve [(key, entry)] := rfl
  rw [hmap, collect_singleton] at h
  obtain ⟨⟨d, e⟩, u, hanswer, h⟩ := exec_bind_eq_ok h
  rw [exec_get_bind] at h
  obtain ⟨rfl, -⟩ := exec_pure_eq_ok h
  exact isPart_finding _ (eq_none_or_isEmpty_of_exec_answer hanswer u)

/-- A mapping runs each of its entries where the entries in front of it end. -/
theorem exists_of_exec_map {front behind : List (Arg × Arg)} {e : Arg × Arg} {found : Findings}
    (h : (f.map (.table (front ++ e :: behind))).exec s = (.ok found, t)) :
    ∃ before part after u v, (f.map (.table front)).exec s = (.ok before, u) ∧
      (f.map (.table [e])).exec u = (.ok part, v) ∧
      (f.map (.table behind)).exec v = (.ok after, t) ∧
      found = before.append (part.append after) := by
  have hmap : ∀ es, f.map (.table es) = collect (.field f) f.resolve es := fun _ => rfl
  rw [hmap, collect_append, ← List.singleton_append, collect_append] at h
  obtain ⟨before, u, hbefore, h⟩ := exec_bind_eq_ok h
  obtain ⟨rest, w, hrest, h⟩ := exec_bind_eq_ok h
  obtain ⟨rfl, rfl⟩ := exec_pure_eq_ok h
  obtain ⟨part, v, hpart, hrest⟩ := exec_bind_eq_ok hrest
  obtain ⟨after, w', hafter, hrest⟩ := exec_bind_eq_ok hrest
  obtain ⟨rfl, rfl⟩ := exec_pure_eq_ok hrest
  exact ⟨before, part, after, u, v, hbefore, hpart, hafter, rfl⟩

/-- Under a key that no other entry has there is what its entry files. -/
theorem mem_middle_iff {front part behind : List (Datum × Datum)} {key d : Datum}
    (hfront : ∀ y ∈ front, y.1 ≠ key) (hbehind : ∀ y ∈ behind, y.1 ≠ key) :
    (key, d) ∈ front ++ (part ++ behind) ↔ (key, d) ∈ part := by
  simp only [List.mem_append]
  constructor
  · rintro (hy | hy | hy)
    · exact absurd rfl (hfront _ hy)
    · exact hy
    · exact absurd rfl (hbehind _ hy)
  · exact fun hy => .inr (.inl hy)

/-- What an entry of a mapping of a field contributes to what is found there, where `u` is the
store in which the entries in front of it end. -/
structure Contributes (f : FieldRef) (s : Store) (es front : List (Arg × Arg)) (key entry : Arg)
    (found : Findings) (u : Store) (part : Findings) : Prop where
  joined : ∃ before after, (f.map (.table front)).exec s = (.ok before, u) ∧
    found = before.append (part.append after)
  ran : ∃ v, (f.map (.table [(key, entry)])).exec u = (.ok part, v)
  isPart : IsPart key.forget part
  shapes : ∀ q, Asks entry q → q.Shapes u f key.forget part
  owned : (es.map fun e => e.1.forget).Nodup → ∀ d,
    ((key.forget, d) ∈ found.values ↔ (key.forget, d) ∈ part.values) ∧
      ((key.forget, d) ∈ found.errors ↔ (key.forget, d) ∈ part.errors)

theorem exists_contributes {growth : Prop} (hs : ({} : Store).Leads True s) (hf : s.HasField f)
    {front behind : List (Arg × Arg)} {key entry : Arg}
    (hes : Arg.IsIn growth s (.table (front ++ (key, entry) :: behind))) {found : Findings}
    (hrun : (f.map (.table (front ++ (key, entry) :: behind))).exec s = (.ok found, t)) :
    ∃ u part, s.Leads growth u ∧
      f.Contributes s (front ++ (key, entry) :: behind) front key entry found u part := by
  obtain ⟨before, part, after, u, v, hbefore, hpart, hafter, rfl⟩ := exists_of_exec_map hrun
  have hfront : Arg.IsIn growth s (.table front) := (Value.all_table front).mpr fun e he =>
    (Value.all_table _).mp hes e (List.mem_append_left _ he)
  have hsu : s.Leads growth u :=
    ((f.runs_map hf hfront).of_exec_eq_ok (Store.isIndexed_empty.mono hs) hbefore).1
  refine ⟨u, part, hsu, ⟨before, after, hbefore, rfl⟩, ⟨v, hpart⟩, isPart_of_exec_map hpart,
    fun q hq => ?_, fun hkeys d => ?_⟩
  · have hbuilt := (hs.after hsu).isBuilt f
    obtain ⟨x, rfl⟩ := FieldQuery.exists_asked hbuilt hq hpart
    exact x.shapes hbuilt key.forget
  · rw [List.map_append, List.map_cons, List.nodup_append, List.nodup_cons] at hkeys
    obtain ⟨-, ⟨hbehind, -⟩, hapart⟩ := hkeys
    have hbeforeKeys : ∀ y ∈ before.values ++ before.errors, y.1 ≠ key.forget := by
      intro y hy
      obtain ⟨e, he, hkey⟩ := exists_key_of_exec_collect hbefore y hy
      rw [hkey]
      exact hapart _ (List.mem_map.mpr ⟨e, he, rfl⟩) _ List.mem_cons_self
    have hafterKeys : ∀ y ∈ after.values ++ after.errors, y.1 ≠ key.forget := by
      intro y hy hkey
      obtain ⟨e, he, hy⟩ := exists_key_of_exec_collect hafter y hy
      exact hbehind (List.mem_map.mpr ⟨e, he, hy.symm.trans hkey⟩)
    rw [List.forall_mem_append] at hbeforeKeys hafterKeys
    exact ⟨mem_middle_iff hbeforeKeys.1 hafterKeys.1, mem_middle_iff hbeforeKeys.2 hafterKeys.2⟩

end FieldRef

namespace Store

variable {s t : Store}

/-- A mapping of a field files a value or an error for each entry, and not both, and what it
files for a query has the shape of the flag that counts. -/
theorem Reachable.map_shape (h : s.Reachable) {f : FieldRef} (hf : s.HasField f) {growth : Prop}
    {es : List (Arg × Arg)} (hes : Arg.IsIn growth s (.table es)) {found : Mapping.Findings}
    (hrun : (f.map (.table es)).exec s = (.ok found, t)) :
    (∀ front key entry behind, es = front ++ (key, entry) :: behind →
      ∃ u part, s.Leads growth u ∧ f.Contributes s es front key entry found u part) ∧
    ((es.map fun e => e.1.forget).Nodup → ∀ key d e, (key, d) ∈ found.values →
      (key, e) ∉ found.errors) := by
  have hparts : ∀ front key entry behind, es = front ++ (key, entry) :: behind →
      ∃ u part, s.Leads growth u ∧ f.Contributes s es front key entry found u part := by
    rintro front key entry behind rfl
    exact FieldRef.exists_contributes h.leads hf hes hrun
  refine ⟨hparts, fun hkeys key d e hvalue herror => ?_⟩
  obtain ⟨⟨k, entry⟩, hmem, rfl⟩ :=
    Mapping.exists_key_of_exec_collect hrun _ (List.mem_append_left found.errors hvalue)
  obtain ⟨front, behind, hsplit⟩ := List.append_of_mem hmem
  obtain ⟨u, part, -, hpart⟩ := hparts front k entry behind hsplit
  rw [(hpart.owned hkeys d).1] at hvalue
  rw [(hpart.owned hkeys e).2] at herror
  rcases hpart.isPart.apart with hnone | hnone
  · rw [hnone] at hvalue
    cases hvalue
  · rw [hnone] at herror
    cases herror

def onlyEntry : Arg × Arg :=
  (.text "only", .tuple [.text "b", .text "!"])

def moreEntry : Arg × Arg :=
  (.text "more", .text "c+")

def onlyFound : Mapping.Findings where
  values := [(.text "only", .text "y")]
  errors :=
    [(.text "more", .error (.subfieldNotFound { code := some "c", cardinality := "+" } "021A"))]

theorem exec_map_onlyEntry :
    (FieldRef.map ⟨0⟩ (.table [onlyEntry])).exec uneven =
      (.ok { values := [(.text "only", .text "y")] }, uneven) :=
  rfl

theorem exec_map_onlyFound :
    (FieldRef.map ⟨0⟩ (.table [onlyEntry, moreEntry])).exec uneven = (.ok onlyFound, uneven) :=
  rfl

theorem map_shape_uneven :
    uneven.Reachable ∧ uneven.HasField ⟨0⟩ ∧
      Arg.IsIn False uneven (.table [onlyEntry, moreEntry]) ∧
      (FieldRef.map ⟨0⟩ (.table [onlyEntry, moreEntry])).exec uneven = (.ok onlyFound, uneven) ∧
      (∀ e, (.text "only", e) ∉ onlyFound.errors) ∧
      ∃ left, FieldQuery.Keeps { code := "c+" } uneven ⟨0⟩ left ∧ left = [] := by
  have hfield : uneven.HasField ⟨0⟩ := by decide
  have hes : Arg.IsIn False uneven (.table [onlyEntry, moreEntry]) := by
    simp [onlyEntry, moreEntry, Arg.IsIn, Value.All, Value.AllEntries]
  have hkeys : ([onlyEntry, moreEntry].map fun e => e.1.forget).Nodup := by
    simp [onlyEntry, moreEntry, Value.forget, Value.map]
  obtain ⟨hparts, hapart⟩ := reachable_uneven.map_shape hfield hes exec_map_onlyFound
  obtain ⟨u, part, -, hpart⟩ := hparts [onlyEntry] _ _ [] rfl
  obtain ⟨before, after, hbefore, -⟩ := hpart.joined
  have hu : uneven = u := congrArg Prod.snd (exec_map_onlyEntry.symm.trans hbefore)
  rw [← hu] at hpart
  obtain ⟨left, hkeeps, hleft⟩ := (hpart.shapes _ (.text "c+")).some rfl
  have hmissing := ((hpart.owned hkeys _).2).mp List.mem_cons_self
  exact ⟨reachable_uneven, hfield, hes, exec_map_onlyFound,
    fun e => hapart hkeys _ _ e List.mem_cons_self, left, hkeeps, hleft.mp ⟨_, hmissing⟩⟩

end Store

end Biblio
