import Biblio.Proofs.Access
import Biblio.Proofs.Line.Read

/-!
# Extending fields

A field is extended by a payload or by a list of items. A payload is added as a whole: either
all of its groups that have a value come behind the old subfields, or the text is no payload
and the field stays as it is. A list is gone through item by item. What stands in front of the
first item that is refused is added and stays, the items behind it are not looked at, and the
fault is that of the item.
-/

namespace Biblio

open Biblio.Action

/-! ## What growth leaves in a store -/

namespace Store

variable {s : Store} {f : FieldRef} {sfs : List Subfield}

/-- Whether subfields have come behind those of a field, filed under their codes, while all
else is as it was. -/
structure GrowsBy (s : Store) (f : FieldRef) (sfs : List Subfield) (t : Store) : Prop where
  tag : (t.field f).tag = (s.field f).tag
  occurrence : (t.field f).occurrence = (s.field f).occurrence
  subfields : (t.field f).subfields = (s.field f).subfields ++ sfs
  positions : ∀ code, (t.field f).positions.find code = (t.field f).indicesOf code
  field_eq : ∀ g, g ≠ f → t.field g = s.field g
  size_eq : t.fields.size = s.fields.size
  records_eq : t.records = s.records
  notes_eq : t.notes = s.notes

theorem growsBy_pushAll (hf : s.HasField f) (hbuilt : (s.field f).IsBuilt False)
    (hcodes : ∀ sf ∈ sfs, Field.isCodeForm sf.code = true) :
    s.GrowsBy f (Field.valued sfs) (s.withField f fun x => x.pushAll sfs) := by
  have hfield : (s.withField f fun x => x.pushAll sfs).field f = (s.field f).pushAll sfs := by
    rw [field_withField, if_pos ⟨rfl, hf⟩]
  refine ⟨?_, ?_, ?_, ?_, ?_, Array.size_modify, rfl, rfl⟩
  · rw [hfield, Field.tag_pushAll]
  · rw [hfield, Field.occurrence_pushAll]
  · rw [hfield, Field.subfields_pushAll]
  · rw [hfield]
    exact (hbuilt.pushAll hcodes False.elim).find_positions_eq
  · intro g hg
    rw [field_withField, if_neg fun h => hg h.1.symm]

end Store

/-! ## Items -/

namespace Arg

variable {s t : Store} {v : Arg} {sf : Subfield}

structure IsPair (s : Store) (v : Arg) (sf : Subfield) : Prop where
  items : s.items? v = some [.text sf.code, .text sf.value]
  code : Field.isCodeForm sf.code = true

/-- Pairs are no objects of the store, so that they are pairs in every store. -/
theorem IsPair.change (h : v.IsPair s sf) (t : Store) : v.IsPair t sf := by
  refine ⟨?_, h.code⟩
  have hitems := h.items
  cases v with
  | field g =>
      have hmap := Option.some.inj hitems
      cases hsub : (s.field g).subfields <;> rw [hsub] at hmap <;> cases hmap
  | record r =>
      have hmap := Option.some.inj hitems
      cases hfields : (s.record r).fields <;> rw [hfields] at hmap <;> cases hmap
  | _ => exact hitems

/-- How an item is refused: it has no items or not two, its code is not accepted, or its value
is no text. -/
inductive Refused (s : Store) (v : Arg) : Fault → Prop
  | single (h : s.items? v = none) : Refused s v (.operation (.noItems v.typeName))
  | few {xs : List Arg} (h : s.items? v = some xs) (hfew : xs.length < 2) :
    Refused s v (.operation (.tooFewItems xs.length))
  | many {xs : List Arg} (h : s.items? v = some xs) (hmany : 2 < xs.length) :
    Refused s v (.operation .tooManyItems)
  | code {c x : Arg} (h : s.items? v = some [c, x])
    (hcode : ∀ code, c = .text code → Field.isCodeForm code = false) :
    Refused s v (.content (.code (s.shown c)))
  | value {code : String} {x : Arg} (h : s.items? v = some [.text code, x])
    (hcode : Field.isCodeForm code = true) (hvalue : ∀ value, x ≠ .text value) :
    Refused s v (.argument (.value x.typeName))

/-- An item that is no pair is refused. -/
theorem exists_refused (h : ∀ sf, ¬v.IsPair s sf) : ∃ e, v.Refused s e := by
  cases hitems : s.items? v with
  | none => exact ⟨_, .single hitems⟩
  | some xs =>
      match xs, hitems with
      | [], hitems | [_], hitems => exact ⟨_, .few hitems (by simp)⟩
      | _ :: _ :: _ :: _, hitems => exact ⟨_, .many hitems (by simp)⟩
      | [c, x], hitems =>
          by_cases hcode : ∃ code, c = .text code ∧ Field.isCodeForm code = true
          · obtain ⟨code, rfl, hcode⟩ := hcode
            refine ⟨_, .value hitems hcode ?_⟩
            rintro value rfl
            exact h ⟨code, value⟩ ⟨hitems, hcode⟩
          · refine ⟨_, .code hitems fun code hc => ?_⟩
            by_contra hform
            exact hcode ⟨code, hc, by simpa using hform⟩

/-- Either all items are pairs, or there is a first one that is none. -/
theorem exists_forall₂_isPair_or (s : Store) (xs : List Arg) :
    (∃ sfs, List.Forall₂ (IsPair s) xs sfs) ∨
      ∃ front sfs bad behind, xs = front ++ bad :: behind ∧
        List.Forall₂ (IsPair s) front sfs ∧ ∀ sf, ¬bad.IsPair s sf := by
  induction xs with
  | nil => exact .inl ⟨[], .nil⟩
  | cons v xs ih =>
      by_cases hv : ∃ sf, v.IsPair s sf
      · obtain ⟨sf, hsf⟩ := hv
        rcases ih with ⟨sfs, hsfs⟩ | ⟨front, sfs, bad, behind, rfl, hfront, hbad⟩
        · exact .inl ⟨sf :: sfs, .cons hsf hsfs⟩
        · exact .inr ⟨v :: front, sf :: sfs, bad, behind, rfl, .cons hsf hfront, hbad⟩
      · exact .inr ⟨[], [], v, xs, rfl, .nil, fun sf hsf => hv ⟨sf, hsf⟩⟩

theorem isCodeForm_of_forall₂_isPair {xs : List Arg} {sfs : List Subfield}
    (h : List.Forall₂ (IsPair s) xs sfs) : ∀ sf ∈ sfs, Field.isCodeForm sf.code = true := by
  induction h with
  | nil => simp
  | cons hv _ ih => exact List.forall_mem_cons.mpr ⟨hv.code, ih⟩

theorem exec_pair {x y : Arg} (h : s.items? v = some [x, y]) :
    (pair v).exec s = (.ok (x, y), s) := by
  rw [pair, exec_get_bind, h]
  rfl

end Arg

namespace FieldRef

variable {f : FieldRef} {s : Store} {v : Arg}

def appendItem (f : FieldRef) (v : Arg) : Action Unit := do
  let (code, value) ← Arg.pair v
  f.append code value

theorem exec_appendItem {sf : Subfield} (h : v.IsPair s sf) :
    (f.appendItem v).exec s = (.ok (), s.withField f fun x => x.push sf.code sf.value) := by
  rw [appendItem, exec_bind_of (Arg.exec_pair h.items)]
  exact exec_append f h.code sf.value s

theorem exec_appendItem_of_pair {e : Fault} (h : (Arg.pair v).exec s = (.error e, s)) :
    (f.appendItem v).exec s = (.error e, s) := by
  rw [appendItem, exec_bind, h]

theorem exec_appendItem_of_refused {e : Fault} (h : v.Refused s e) :
    (f.appendItem v).exec s = (.error e, s) := by
  cases h with
  | single h =>
      refine exec_appendItem_of_pair ?_
      rw [Arg.pair, exec_get_bind, h]
      rfl
  | @few xs h hfew =>
      refine exec_appendItem_of_pair ?_
      rw [Arg.pair, exec_get_bind, h]
      match xs, hfew with
      | [], _ | [_], _ => rfl
  | @many xs h hmany =>
      refine exec_appendItem_of_pair ?_
      rw [Arg.pair, exec_get_bind, h]
      match xs, hmany with
      | _ :: _ :: _ :: _, _ => rfl
  | @code c x h hcode =>
      rw [appendItem, exec_bind_of (Arg.exec_pair h)]
      cases c with
      | text code =>
          have hform := hcode code rfl
          simp [append, hform, Store.shown]
      | _ => rfl
  | @value code x h hcode hvalue =>
      rw [appendItem, exec_bind_of (Arg.exec_pair h)]
      cases x with
      | text value => exact absurd rfl (hvalue value)
      | _ => simp [append, hcode]

/-! ## Lists of items -/

theorem forM_cons_appendItem (f : FieldRef) (v : Arg) (xs : List Arg) :
    (v :: xs).forM f.appendItem = f.appendItem v >>= fun _ => xs.forM f.appendItem := rfl

/-- A list is gone through item by item. -/
theorem extend_list (f : FieldRef) (xs : List Arg) :
    f.extend (.list xs) = xs.forM f.appendItem := by
  have hitems : f.extend (.list xs) = f.extendItems xs := rfl
  rw [hitems]
  clear hitems
  induction xs with
  | nil => rfl
  | cons v xs ih => rw [extendItems, forM_cons_appendItem, ih, appendItem, bind_assoc]

/-- Pairs in front are appended, and the rest goes on from there. -/
theorem exec_forM_appendItem {front : List Arg} {sfs : List Subfield}
    (h : List.Forall₂ (Arg.IsPair s) front sfs) (behind : List Arg) (t : Store) :
    ((front ++ behind).forM f.appendItem).exec t =
      (behind.forM f.appendItem).exec (t.withField f fun x => x.pushAll sfs) := by
  induction h generalizing t with
  | nil => simp
  | cons hv _ ih =>
      rw [List.cons_append, forM_cons_appendItem, exec_bind_of_eq (exec_appendItem (hv.change t)),
        ih, Store.withField_withField]
      rfl

/-! ## Payloads -/

theorem exec_extend_payload {p : String} {gs : List Payload.Group}
    (h : Payload.decode? p.toList = some gs) (f : FieldRef) (s : Store) :
    (f.extend (.text p)).exec s =
      (.ok (), s.withField f fun x => x.pushAll (gs.map Field.ofGroup)) := by
  simp only [extend, h, exec_pushGroups, Field.pushGroups_eq_pushAll]

theorem exec_extend_of_not_payload {p : String} (h : Payload.decode? p.toList = none)
    (f : FieldRef) (s : Store) :
    (f.extend (.text p)).exec s = (.error (.content (.payload p)), s) := by
  simp only [extend, h, exec_throw]

end FieldRef

theorem Payload.decode?_eq_none_iff (cs : List Char) :
    decode? cs = none ↔ (∀ gs, ¬IsDivision cs gs) ∧ cs ≠ ['\n'] := by
  constructor
  · intro h
    refine ⟨fun gs hgs => ?_, ?_⟩
    · rw [hgs.decode?] at h
      cases h
    · rintro rfl
      cases h
  · rintro ⟨hdivision, hbreak⟩
    by_contra hread
    obtain ⟨gs, hgs⟩ := Option.ne_none_iff_exists'.mp hread
    rcases exists_isDivision_of_decode? hgs with ⟨ds, hds⟩ | hlone
    · exact hdivision ds hds
    · exact hbreak hlone

namespace Store

variable {s : Store}

/-- A text extends a field exactly if it is a payload or a lone line feed: it adds what its
groups decode to, less those without value, and any other text is refused and changes nothing.
A list extends a field as appending its items in turn does: if they all are pairs of an
accepted code and a text, those with a value are added, and otherwise those with a value in
front of the first item that is none, which says how it is refused. -/
theorem Reachable.extend_whole_or_front (h : s.Reachable) {f : FieldRef} (hf : s.HasField f) :
    (∀ p : String,
      ((f.extend (.text p)).exec s = (.error (.content (.payload p)), s) ↔
        (∀ gs, ¬Payload.IsDivision p.toList gs) ∧ p ≠ "\n") ∧
      (∀ gs, Payload.IsDivision p.toList gs → ∃ t,
        (f.extend (.text p)).exec s = (.ok (), t) ∧ s.GrowsBy f (Field.subfieldsOf gs) t) ∧
      (p = "\n" → (f.extend (.text p)).exec s = (.ok (), s))) ∧
    ∀ xs : List Arg, f.extend (.list xs) = xs.forM f.appendItem ∧
      ((∃ sfs t, List.Forall₂ (Arg.IsPair s) xs sfs ∧
          (f.extend (.list xs)).exec s = (.ok (), t) ∧ s.GrowsBy f (Field.valued sfs) t) ∨
        ∃ front sfs bad behind e t, xs = front ++ bad :: behind ∧
          List.Forall₂ (Arg.IsPair s) front sfs ∧ (∀ sf, ¬bad.IsPair s sf) ∧
          bad.Refused t e ∧ (f.extend (.list xs)).exec s = (.error e, t) ∧
          s.GrowsBy f (Field.valued sfs) t) := by
  have hbuilt := h.leads.isBuilt f
  refine ⟨fun p => ⟨?_, ?_, ?_⟩, fun xs => ⟨f.extend_list xs, ?_⟩⟩
  · have hlone : p ≠ "\n" ↔ p.toList ≠ ['\n'] := not_congr String.toList_inj.symm
    rw [hlone, ← Payload.decode?_eq_none_iff]
    refine ⟨fun hrun => ?_, fun hread => FieldRef.exec_extend_of_not_payload hread f s⟩
    by_contra hread
    obtain ⟨gs, hgs⟩ := Option.ne_none_iff_exists'.mp hread
    rw [FieldRef.exec_extend_payload hgs] at hrun
    cases hrun
  · intro gs hgs
    refine ⟨_, FieldRef.exec_extend_payload hgs.decode? f s, ?_⟩
    have hvalued : Field.valued ((Payload.unescapeAll gs).map Field.ofGroup) =
        Field.subfieldsOf gs := by
      rw [Field.valued_map_ofGroup, Field.filter_unescapeAll hgs.isRaw_of_mem]
    rw [← hvalued]
    refine growsBy_pushAll hf hbuilt fun sf hsf => ?_
    obtain ⟨g, hg, rfl⟩ := List.mem_map.mp hsf
    exact Field.isCodeForm_singleton (Payload.isCode_of_decode? hgs.decode? g hg)
  · rintro rfl
    have hread : Payload.decode? "\n".toList = some [] := rfl
    rw [FieldRef.exec_extend_payload hread]
    exact congrArg (Prod.mk _) (s.withField_id f)
  · rw [f.extend_list]
    rcases Arg.exists_forall₂_isPair_or s xs with
      ⟨sfs, hsfs⟩ | ⟨front, sfs, bad, behind, rfl, hfront, hbad⟩
    · have hrun := FieldRef.exec_forM_appendItem (f := f) hsfs [] s
      rw [List.append_nil] at hrun
      exact .inl ⟨sfs, _, hsfs, hrun,
        growsBy_pushAll hf hbuilt (Arg.isCodeForm_of_forall₂_isPair hsfs)⟩
    · have hrun := FieldRef.exec_forM_appendItem (f := f) hfront (bad :: behind) s
      have hstill : ∀ sf, ¬bad.IsPair (s.withField f fun x => x.pushAll sfs) sf :=
        fun sf hsf => hbad sf (hsf.change s)
      obtain ⟨e, he⟩ := Arg.exists_refused hstill
      rw [FieldRef.forM_cons_appendItem, exec_bind, FieldRef.exec_appendItem_of_refused he] at hrun
      exact .inr ⟨front, sfs, bad, behind, e, _, rfl, hfront, hbad, he, hrun,
        growsBy_pushAll hf hbuilt (Arg.isCodeForm_of_forall₂_isPair hfront)⟩

/-- Three pairs, one of them without value, a field with too many subfields to be a pair, and a
pair that is not reached. -/
def mixedItems : List Arg :=
  [.tuple [.text "b", .text ""], .text "c$", .list [.text "d\n", .text "w"], .field ⟨1⟩,
    .text "ez"]

theorem extend_whole_or_front_uneven :
    uneven.Reachable ∧ uneven.HasField ⟨1⟩ ∧
      (∃ t, ((⟨1⟩ : FieldRef).extend (.text "$a$$x$b$c\n$$")).exec uneven = (.ok (), t) ∧
        uneven.GrowsBy ⟨1⟩ [⟨"a", "$x"⟩, ⟨"c", "\n$"⟩] t) ∧
      ((⟨1⟩ : FieldRef).extend (.text "$ax$")).exec uneven =
        (.error (.content (.payload "$ax$")), uneven) ∧
      ∃ sfs t, ((⟨1⟩ : FieldRef).extend (.list mixedItems)).exec uneven =
          (.error (.operation .tooManyItems), t) ∧ uneven.GrowsBy ⟨1⟩ sfs t ∧
        (t.field ⟨1⟩).codes = ["a", "a", "a", "c", "d\n"] := by
  have hfield : uneven.HasField ⟨1⟩ := by decide
  obtain ⟨hpayloads, hlists⟩ := reachable_uneven.extend_whole_or_front hfield
  have hdivision : Payload.IsDivision "$a$$x$b$c\n$$".toList
      [('a', ['$', '$', 'x']), ('b', []), ('c', ['\n', '$', '$'])] :=
    .cons (by decide) (.pair (.plain (by decide) .nil)) (.cons (by decide) .nil
      (.cons (by decide) (.plain (by decide) (.pair .nil)) .nil))
  have hrun : ((⟨1⟩ : FieldRef).extend (.list mixedItems)).exec uneven =
      (.error (.operation .tooManyItems), _) := rfl
  refine ⟨reachable_uneven, hfield, (hpayloads _).2.1 _ hdivision, ?_, ?_⟩
  · exact (hpayloads _).1.mpr
      ⟨((Payload.decode?_eq_none_iff _).mp rfl).1, by decide⟩
  · obtain ⟨sfs, t, -, hok, -⟩ | ⟨front, sfs, bad, behind, e, t, -, -, -, -, herror, hgrows⟩ :=
      (hlists mixedItems).2
    · rw [hrun] at hok
      cases hok
    · obtain rfl : _ = t := congrArg Prod.snd (hrun.symm.trans herror)
      exact ⟨_, _, hrun, hgrows, by decide⟩

end Store

end Biblio
