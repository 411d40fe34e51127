import Biblio.Proofs.Built
import Biblio.Proofs.Index
import Biblio.Proofs.Locator.Grammar
import Biblio.Proofs.Query.First

/-!
# Access to the values of a field

A field keeps the positions of its subfields by code. After every history these are exactly
the positions that a scan of the subfields finds, with one bucket for each code that is in
use. All ways to ask a field for values read the positions, and so they agree: whether a code
is in use, its first value and all its values are what the subfields tell, and a query by a
code alone answers as plain access does.
-/

namespace Biblio

open Biblio.Action

theorem nodup_eraseDups {α : Type} [DecidableEq α] (xs : List α) : xs.eraseDups.Nodup := by
  induction xs using List.reverseRecOn with
  | nil => exact List.nodup_nil
  | append_singleton xs x ih =>
      rw [eraseDups_concat]
      split
      · exact ih
      · next hx =>
        rw [List.nodup_append]
        refine ⟨ih, by simp, fun y hy z hz hyz => hx ?_⟩
        rw [← List.mem_singleton.mp hz, ← hyz]
        exact List.mem_eraseDups.mp hy

namespace Grouping

variable {κ α : Type} [DecidableEq κ]

theorem findIn_eq_of_mem {bs : List (κ × List α)} (h : (bs.map Prod.fst).Nodup) {k : κ}
    {as : List α} (hb : (k, as) ∈ bs) : findIn k bs = as := by
  induction bs with
  | nil => exact absurd hb (by simp)
  | cons b bs ih =>
      rw [List.map_cons, List.nodup_cons] at h
      rcases List.mem_cons.mp hb with rfl | hb
      · rw [findIn, if_pos rfl]
      · have hne : b.1 ≠ k := by
          rintro rfl
          exact h.1 (List.mem_map.mpr ⟨_, hb, rfl⟩)
        rw [findIn, if_neg hne]
        exact ih h.2 hb

/-- A grouping with distinct keys is told by its keys and by what is found under them. -/
theorem buckets_eq {g : Grouping κ α} (h : g.keys.Nodup) :
    g.buckets = g.keys.map fun k => (k, g.find k) := by
  rw [keys, List.map_map]
  refine (List.map_id _).symm.trans (List.map_congr_left fun b hb => ?_)
  exact Prod.ext rfl (findIn_eq_of_mem h hb).symm

end Grouping

namespace Field

variable {f : Field} {plain : Prop}

/-- The positions of the subfields with a code, as a scan of all positions finds them. -/
def indicesOf (f : Field) (code : String) : List Nat :=
  (List.range f.subfields.length).filter fun i => f.codes[i]? == some code

theorem indicesOf_push (f : Field) (c code : String) {value : String} (h : value ≠ "") :
    (f.push c value).indicesOf code =
      if c = code then f.indicesOf code ++ [f.subfields.length] else f.indicesOf code := by
  have hlength : f.codes.length = f.subfields.length := List.length_map _
  have hcodes : (f.push c value).codes = f.codes ++ [c] := by
    rw [codes, subfields_push, if_neg h, List.map_append]
    rfl
  have hold : ∀ i ∈ List.range f.subfields.length,
      ((f.codes ++ [c])[i]? == some code) = (f.codes[i]? == some code) := by
    intro i hi
    rw [List.getElem?_append_left (by simpa [hlength] using hi)]
  have hnew : (f.codes ++ [c])[f.subfields.length]? = some c := by
    rw [← hlength, List.getElem?_concat_length]
  rw [indicesOf, hcodes, subfields_push, if_neg h, List.length_append, List.length_singleton,
    List.range_succ, List.filter_append, List.filter_congr hold, ← indicesOf,
    List.filter_singleton, hnew]
  by_cases hcode : c = code
  · simp [hcode]
  · have hbeq : (c == code) = false := by simpa using hcode
    simp [hcode, hbeq]

namespace IsBuilt

theorem find_positions_eq (h : f.IsBuilt plain) (code : String) :
    f.positions.find code = f.indicesOf code := by
  induction h with
  | ofTag => rfl
  | @push f _ c _ _ value ih =>
      by_cases hvalue : value = ""
      · rw [hvalue, push_empty]
        exact ih
      · rw [indicesOf_push f c code hvalue, ← ih, Field.push, if_neg hvalue, Grouping.find_add]

theorem keys_positions (h : f.IsBuilt plain) : f.positions.keys = f.codes.eraseDups := by
  induction h with
  | ofTag => rfl
  | @push f _ c _ _ value ih =>
      by_cases hvalue : value = ""
      · rw [hvalue, push_empty]
        exact ih
      · have hkeys : (f.push c value).positions.keys =
            (f.positions.add c f.subfields.length).keys := by
          rw [Field.push, if_neg hvalue]
        rw [hkeys, Grouping.keys_add, ih, codes, codes, subfields_push, if_neg hvalue,
          List.map_append, List.map_singleton, eraseDups_concat]
        simp only [List.mem_eraseDups]

/-- The index of a built field has one bucket for each code in use, in the order in which the
codes appear first. -/
theorem buckets_positions (h : f.IsBuilt plain) :
    f.positions.buckets = f.codes.eraseDups.map fun c => (c, f.indicesOf c) := by
  have hnodup : f.positions.keys.Nodup := by
    rw [h.keys_positions]
    exact nodup_eraseDups _
  rw [Grouping.buckets_eq hnodup, h.keys_positions]
  exact List.map_congr_left fun c _ => by rw [h.find_positions_eq]

theorem hasCode_eq (h : f.IsBuilt plain) (code : String) :
    f.hasCode code = decide (code ∈ f.codes) := by
  rw [hasCode, h.keys_positions, List.contains_eq_mem]
  simp only [List.mem_eraseDups]

end IsBuilt

end Field

/-! ## Queries by a code alone -/

theorem Selector.parse_singleton {c : Char} (h : Payload.isCode c = true) :
    parse (String.singleton c) = .ok { code := some (String.singleton c) } := by
  have htext : IsText [c] { code := some (String.singleton c) } := .intro h none false
  exact parse_of_isText htext

theorem Arg.exec_toSelector {text : String} {sel : Selector} (h : Selector.parse text = .ok sel)
    (s : Store) : (toSelector (.text text)).exec s = (.ok sel, s) := by
  rw [toSelector, h]
  rfl

/-- Without marks a selector is what its text writes. -/
theorem Arg.exec_fieldSelector {text : String} {sel : Selector}
    (h : Selector.parse text = .ok sel) (s : Store) :
    (fieldSelector (.text text) .null).exec s = (.ok sel, s) := by
  rw [fieldSelector, if_neg (by simp [Value.isNull]), exec_bind_of (exec_toSelector h s)]
  rfl

theorem Chain.keeps_sieve_nil (s : Store) (values : List String) :
    Query.Sieve.Keeps s (sieve []) some values := by
  have hkept : kept s [] = some := rfl
  rw [← hkept]
  exact keeps_sieve fun _ _ => ⟨_, rfl⟩

namespace FieldRef

variable {s : Store}

/-- Without filters a query gives what its selector selects of all values. -/
theorem exec_query_null (f : FieldRef) (sel : Selector) (s : Store) :
    (f.query sel .null).exec s = (.ok (Query.select some (s.field f) sel), s) := by
  have hread : (Chain.ofArg .null).exec s = (.ok [], s) := rfl
  rw [query, exec_bind_of hread, exec_bind_of (exec_field f s)]
  exact Query.exec_queryField (Chain.keeps_sieve_nil s _) sel

theorem select_code (x : Field) (code : String) :
    Query.select some x { code := some code } = (x.valuesFor code, none) := by
  have hflag : ({ code := some code } : Selector).flag? = none := rfl
  simp [Query.select, Query.checkValues, hflag]

theorem exec_first_code (f : FieldRef) {c : Char} (h : Payload.isCode c = true) (s : Store) :
    (f.first (.text (String.singleton c)) .null).exec s =
      (.ok ((s.field f).valuesFor (String.singleton c)).head?, s) := by
  have hsel := Arg.exec_fieldSelector (Selector.parse_singleton h) s
  rw [first, exec_bind_of hsel, exec_bind_of (exec_query_null f _ s)]
  rw [exec_pure, Query.head?_select_withDefault, select_code]

theorem exec_first_null (f : FieldRef) (s : Store) :
    (f.first .null .null).exec s = (f.byPosition (.int 0)).exec s := by
  have hselector : (Arg.fieldSelector .null .null).exec s = (.ok .all, s) := rfl
  have hposition : (f.byPosition (.int 0)).exec s = (.ok ((s.field f).valueAt? 0), s) := rfl
  rw [first, exec_bind_of hselector, exec_bind_of (exec_query_null f _ s), exec_pure, hposition]
  simp [Query.select, Selector.all, Selector.withDefault, Field.values, Field.valueAt?,
    List.head?_eq_getElem?]

theorem exec_all_code (f : FieldRef) {c : Char} (h : Payload.isCode c = true) (s : Store) :
    (f.all (.text (String.singleton c)) .null).exec s =
      (.ok ((s.field f).valuesFor (String.singleton c)), s) := by
  have hget : (f.get (.text (String.singleton c)) .null .null).exec s =
      (.ok ((s.field f).valuesFor (String.singleton c), none), s) := by
    have hsel := Arg.exec_fieldSelector (Selector.parse_singleton h) s
    rw [get, exec_bind_of hsel, exec_query_null, select_code]
  rw [all, exec_bind_of hget, exec_pure]

end FieldRef

namespace Store

variable {s : Store}

/-- After every history the index of a field by code holds exactly the positions of the
subfields with each code, and all ways to ask for the values of a code agree with a scan of
the subfields. -/
theorem Reachable.access_by_code (h : s.Reachable) (f : FieldRef) :
    let x := s.field f
    (∀ code : String, x.positions.find code = x.indicesOf code) ∧
      x.positions.buckets = x.codes.eraseDups.map (fun code => (code, x.indicesOf code)) ∧
      (∀ code : String,
        (f.contains (.text code)).exec s = (.ok (decide (code ∈ x.codes)), s) ∧
        (f.byCode (.text code : Arg)).exec s =
          (.ok ((x.subfields.find? fun sf => sf.code == code).map Subfield.value), s) ∧
        (f.valuesFor (.text code)).exec s =
          (.ok ((x.subfields.filter fun sf => sf.code == code).map Subfield.value), s)) ∧
      (∀ c : Char, Payload.isCode c = true →
        let code : Arg := .text (String.singleton c)
        (f.first code .null).exec s = (f.byCode code).exec s ∧
          (f.item code).exec s = (f.byCode code).exec s ∧
          (f.all code .null).exec s = (f.valuesFor code).exec s) ∧
      (f.first .null .null).exec s = (f.byPosition (.int 0)).exec s := by
  have hbuilt := h.leads.isBuilt f
  have hbyCode : ∀ code : String, (f.byCode (.text code : Arg)).exec s =
      (.ok ((s.field f).byCode? code), s) := fun _ => rfl
  have hvaluesFor : ∀ code : String, (f.valuesFor (.text code)).exec s =
      (.ok ((s.field f).valuesFor code), s) := fun _ => rfl
  refine ⟨hbuilt.find_positions_eq, hbuilt.buckets_positions, fun code => ⟨?_, ?_, ?_⟩,
    fun c hc => ⟨?_, rfl, ?_⟩, ?_⟩
  · rw [← hbuilt.hasCode_eq]
    rfl
  · rw [hbyCode, hbuilt.byCode?_eq, hbuilt.valuesFor_eq, List.head?_map, List.head?_filter]
  · rw [hvaluesFor, hbuilt.valuesFor_eq]
  · rw [FieldRef.exec_first_code f hc, hbyCode, hbuilt.byCode?_eq]
  · rw [FieldRef.exec_all_code f hc, hvaluesFor]
  · exact FieldRef.exec_first_null f s

def uneven : Store :=
  let s := ((Request.create "Field" [.text "021A"]).exec {}).2
  let s := ((Request.call (.field ⟨0⟩) "append" [.text "a", .text "x"]).exec s).2
  let s := ((Request.call (.field ⟨0⟩) "extend" [.list [.tuple [.text "b", .text "y"],
    .tuple [.text "a", .text "z"], .int 1, .tuple [.text "b", .text "u"]]]).exec s).2
  let s := ((Request.call (.field ⟨0⟩) "extend" [.text "$c$a$$v"]).exec s).2
  ((Request.call (.field ⟨0⟩) "copy" [.text "^b"]).exec s).2

theorem reachable_uneven : uneven.Reachable := by
  have htitle : ∀ t, t.HasField ⟨0⟩ → Datum.IsIn t (.field ⟨0⟩) := fun _ h => h
  have hpairs : ∀ t, ∀ v ∈ [(.list [.tuple [.text "b", .text "y"],
      .tuple [.text "a", .text "z"], .int 1, .tuple [.text "b", .text "u"]] : Arg)],
      Arg.IsIn True t v := by
    simp [Arg.IsIn, Value.All, Value.AllList]
  have hnew := Reachable.empty.create "Field" (Arg.isIn_texts ["021A"])
  have hvalue := hnew.call (htitle _ (by decide)) "append" (Arg.isIn_texts ["a", "x"])
  have hgrown := (hvalue.call (htitle _ (by decide)) "extend" (hpairs _)).call
    (htitle _ (by decide)) "extend" (Arg.isIn_texts ["$c$a$$v"])
  exact hgrown.call (htitle _ (by decide)) "copy" (Arg.isIn_texts ["^b"])

theorem access_by_code_uneven :
    uneven.Reachable ∧
      (uneven.field ⟨0⟩).positions.buckets = [("a", [0, 2, 3]), ("b", [1])] ∧
      ((⟨1⟩ : FieldRef).valuesFor (.text "a")).exec uneven =
        (.ok ["x", "z", "$v"], uneven) ∧
      Payload.isCode 'a' = true ∧
      ((⟨1⟩ : FieldRef).all (.text "a") .null).exec uneven = (.ok ["x", "z", "$v"], uneven) := by
  obtain ⟨-, hbuckets, -⟩ := reachable_uneven.access_by_code ⟨0⟩
  obtain ⟨-, -, hplain, hquery, -⟩ := reachable_uneven.access_by_code ⟨1⟩
  have hcode : Payload.isCode 'a' = true := by decide
  obtain ⟨-, -, hvalues⟩ := hplain "a"
  obtain ⟨-, -, hall⟩ := hquery 'a' hcode
  refine ⟨reachable_uneven, ?_, hvalues, hcode, hall.trans hvalues⟩
  rw [hbuckets]
  decide

end Store

end Biblio
