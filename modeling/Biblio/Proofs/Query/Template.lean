import Biblio.Proofs.Query.Agree
import Biblio.Proofs.Run.Query

/-!
# Templates on equal values

A template that is filled in with a text or with a field shows parts of it: items,
properties, and whatever they are written as. Of fields it shows only what equal fields have
in common, and so it gives the same text for equal fields.
-/

namespace Biblio

open Biblio.Action

variable {s t u : Store}

namespace Field

variable {x y : Field}

/-- Fields that are equal differ in their index at most. -/
theorem exists_positions (h : x.same y = true) : ∃ p, x = { y with positions := p } := by
  obtain ⟨htag, hocc, hsub⟩ := (same_iff x y).mp h
  refine ⟨x.positions, ?_⟩
  rw [← htag, ← hocc, ← hsub]

theorem line_congr (h : x.same y = true) : x.line = y.line := by
  obtain ⟨p, rfl⟩ := exists_positions h
  rfl

theorem fieldProperty?_congr (h : x.same y = true) (name : String) :
    Value.fieldProperty? x name = Value.fieldProperty? y name := by
  obtain ⟨p, rfl⟩ := exists_positions h
  rfl

end Field

/-- Whether two values are equal, each in its store, and of the kinds that a template comes
across. -/
inductive Datum.Seen (t u : Store) : Datum → Datum → Prop
  | null : Seen t u .null .null
  | bool (b : Bool) : Seen t u (.bool b) (.bool b)
  | int (n : Int) : Seen t u (.int n) (.int n)
  | text (x : String) : Seen t u (.text x) (.text x)
  | operation (x : String) : Seen t u (.operation x) (.operation x)
  | field {f g : FieldRef} (h : t.Twins u f g) : Seen t u (.field f) (.field g)

namespace Datum.Seen

variable {x y : Datum}

theorem mono (h : Seen t u x y) {t' u' : Store} (ht : t.Leads False t') (hu : u.Leads False u') :
    Seen t' u' x y := by
  cases h with
  | null => exact .null
  | bool b => exact .bool b
  | int n => exact .int n
  | text x => exact .text x
  | operation x => exact .operation x
  | field h => exact .field (h.mono ht hu)

theorem typeName_eq (h : Seen t u x y) : x.typeName = y.typeName := by
  cases h <;> rfl

theorem shown_eq (h : Seen t u x y) : t.shown x = u.shown y := by
  cases h with
  | field h => rw [Store.shown, Store.shown, Field.shown, Field.shown, Field.line_congr h.same]
  | _ => rfl

theorem written_eq (h : Seen t u x y) : t.written x = u.written y := by
  cases h with
  | field h => exact Field.line_congr h.same
  | _ => rfl

theorem ofOption_text (x : Option String) : Seen t u (.ofOption .text x) (.ofOption .text x) := by
  cases x with
  | none => exact .null
  | some x => exact .text x

theorem member?_eq (h : Seen t u x y) (name : String) :
    Value.member? t x name = Value.member? u y name := by
  have hshown := h.shown_eq
  cases h with
  | field h =>
      rw [Value.member?, Value.member?, hshown, Field.fieldProperty?_congr h.same]
      rfl
  | _ => rfl

/-- What a name gives of a value is a label, a number or an operation. -/
theorem of_member? (h : Seen t u x y) {name : String} {z : Datum}
    (hz : Value.member? t x name = some z) : Seen t u z z := by
  cases h with
  | field h =>
      unfold Value.member? at hz
      rcases Option.or_eq_some_iff.mp hz with hz | ⟨-, hz⟩
      · rcases Value.fieldProperty?_cases hz with rfl | ⟨b, rfl⟩ | ⟨n, rfl⟩ | ⟨x, rfl⟩
        · exact .null
        · exact .bool b
        · exact .int n
        · exact .text x
      · obtain ⟨x, rfl⟩ := Value.exists_operation hz
        exact .operation x
  | _ => cases hz

end Datum.Seen

/-! ## Items -/

namespace Action

variable {α φ : Type}

theorem determined_itemAt (kind : SequenceKind) (xs : List α) (n : Int) :
    Determined s (itemAt kind xs n) := by
  rw [itemAt]
  cases atPosition? xs n with
  | none => exact determined_throw _
  | some x => exact determined_pure x

theorem determined_itemBy (kind : SequenceKind) (xs : List α) (key : Value φ) :
    Determined s (itemBy kind xs key) := by
  rw [itemBy]
  cases key.asInt? with
  | none => exact determined_throw _
  | some n => exact determined_itemAt kind xs n

end Action

namespace FieldRef

variable {φ : Type} {f g : FieldRef}

theorem determined_codeOf? (key : Value φ) : Determined s (codeOf? key) := by
  have hkey : Determined s (Action.checkKey key) := by
    rw [Action.checkKey]
    cases key.unhashable? with
    | none => exact determined_pure ()
    | some type => exact determined_throw _
  cases key with
  | text code => exact determined_pure (some code)
  | _ => exact hkey.bind fun _ => determined_pure none

theorem agrees_item (hs : s.KeepsBuilt) (ht : s.Leads False t) (hu : s.Leads False u)
    (hfg : t.Twins u f g) (key : Value φ) :
    Agrees t u (f.item key) (g.item key) fun _ _ x y => x = y := by
  obtain ⟨-, -, hsub⟩ := (Field.same_iff _ _).mp hfg.same
  rw [item, item]
  cases key.asInt? with
  | some n =>
      refine agrees_field_bind ?_
      have hvalues : (t.field f).values = (u.field g).values :=
        congrArg (List.map Subfield.value) hsub
      rw [hvalues]
      exact (determined_itemAt _ _ n t u ht hu).bind_same fun _ _ _ _ _ => agrees_pure rfl
  | none =>
      refine agrees_field_bind ?_
      refine (determined_codeOf? key t u ht hu).bind_same fun code _ _ _ _ => agrees_pure ?_
      have hbyCode : (t.field f).byCode? = (u.field g).byCode? := by
        funext code
        rw [(hs t ht f).byCode?_eq, (hs u hu g).byCode?_eq, (hs t ht f).valuesFor_eq,
          (hs u hu g).valuesFor_eq, hsub]
      rw [hbyCode]

end FieldRef

namespace Value

variable {x y : Datum}

theorem agrees_item (hs : s.KeepsBuilt) (ht : s.Leads False t) (hu : s.Leads False u)
    (h : Datum.Seen t u x y) (key : Datum) :
    Agrees t u (x.item key) (y.item key) Datum.Seen := by
  cases h with
  | text x =>
      exact (determined_itemBy _ _ key t u ht hu).bind_same fun _ _ _ _ _ => agrees_pure (.text _)
  | field h =>
      exact (FieldRef.agrees_item hs ht hu h key).bind_same fun x _ _ _ _ =>
        agrees_pure (Datum.Seen.ofOption_text x)
  | _ => exact agrees_throw _

theorem agrees_member (h : Datum.Seen t u x y) (name : String) :
    Agrees t u (x.member name) (y.member name) Datum.Seen := by
  rw [member, member]
  refine agrees_get_bind ?_
  rw [← h.member?_eq]
  cases hpart : member? t x name with
  | none =>
      rw [h.typeName_eq]
      exact agrees_throw _
  | some z => exact agrees_pure (h.of_member? hpart)

end Value

/-! ## Templates -/

namespace Template

variable {x y : Datum}

theorem member_cons_of_ne (fuel : Nat) (x : Datum) {c : Char} (hbracket : c ≠ '[')
    (hdot : c ≠ '.') (cs : List Char) :
    member (fuel + 1) x (c :: cs) = throw (.template .afterBracket) := by
  rw [member]
  · simp
  · simpa using hbracket
  · simpa using hdot

theorem agrees_member (hs : s.KeepsBuilt) (fuel : Nat) (ht : s.Leads False t)
    (hu : s.Leads False u) (h : Datum.Seen t u x y) (path : List Char) :
    Agrees t u (member fuel x path) (member fuel y path) Datum.Seen := by
  -- The path alone says how both sides go on, so that the cases are those of the path.
  induction fuel generalizing t u x y path with
  | zero =>
      rw [member, member]
      exact agrees_pure h
  | succ fuel ih =>
      cases path with
      | nil => exact agrees_pure h
      | cons c cs =>
          by_cases hbracket : c = '['
          · subst hbracket
            rw [member, member]
            refine (agrees_ofExcept fun _ _ => rfl).bind_same fun key t₁ u₁ ht₁ hu₁ => ?_
            have hitem := Value.agrees_item hs (ht.trans ht₁) (hu.trans hu₁) (h.mono ht₁ hu₁) key
            refine hitem.bind fun v w t₂ u₂ ht₂ hu₂ hvw => ?_
            exact ih (ht.trans (ht₁.trans ht₂)) (hu.trans (hu₁.trans hu₂)) hvw _
          · by_cases hdot : c = '.'
            · subst hdot
              rw [member, member]
              dsimp only
              split
              · exact agrees_throw _
              · refine (Value.agrees_member h _).bind fun v w t₁ u₁ ht₁ hu₁ hvw => ?_
                exact ih (ht.trans ht₁) (hu.trans hu₁) hvw _
            · rw [member_cons_of_ne fuel x hbracket hdot, member_cons_of_ne fuel y hbracket hdot]
              exact agrees_throw _

theorem agrees_convert (h : Datum.Seen t u x y) (c : Option Char) :
    Agrees t u (Action.ofExcept .template (convert t x c))
      (Action.ofExcept .template (convert u y c)) Datum.Seen := by
  have hshown := h.shown_eq
  have hwritten := h.written_eq
  unfold convert
  split
  · exact agrees_pure h
  · rw [hwritten]
    exact agrees_pure (.text _)
  · rw [hshown]
    exact agrees_pure (.text _)
  · rw [hshown]
    exact agrees_pure (.text _)
  · exact agrees_throw _

theorem layOut_eq (h : Datum.Seen t u x y) (layout : List Char) :
    layOut t x layout = layOut u y layout := by
  have hwritten := h.written_eq
  cases h with
  | field h =>
      unfold layOut
      rw [hwritten]
      rfl
  | _ => rfl

theorem agrees_layOut {α : Type} (h : Datum.Seen t u x y) (layout : List Char)
    (f : List Char → α) :
    Agrees t u (do return f (← Action.ofExcept .template (layOut (← get) x layout)))
      (do return f (← Action.ofExcept .template (layOut (← get) y layout))) fun _ _ v w =>
        v = w := by
  refine agrees_get_bind ?_
  rw [layOut_eq h]
  exact (agrees_ofExcept fun _ _ => rfl).bind_same fun _ _ _ _ _ => agrees_pure rfl

theorem agrees_select (hs : s.KeepsBuilt) (ht : s.Leads False t) (hu : s.Leads False u)
    (h : Datum.Seen t u x y) (numbering : Numbering) (p : Placeholder) :
    Agrees t u (select x numbering p) (select y numbering p) fun t u v w =>
      Datum.Seen t u v.1 w.1 ∧ v.2 = w.2 := by
  rw [select, select]
  refine (agrees_ofExcept fun _ _ => rfl).bind_same fun position t₁ u₁ ht₁ hu₁ => ?_
  dsimp only
  split
  · exact agrees_throw _
  · refine (agrees_member hs _ (ht.trans ht₁) (hu.trans hu₁) (h.mono ht₁ hu₁) _).bind
      fun v w t₂ u₂ _ _ hvw => agrees_get_bind ?_
    exact (agrees_convert hvw _).bind fun v w _ _ _ _ hvw => agrees_pure ⟨hvw, rfl⟩

theorem agrees_fillFrom (hs : s.KeepsBuilt) (depth : Nat) (ht : s.Leads False t)
    (hu : s.Leads False u) (h : Datum.Seen t u x y) (numbering : Numbering) (cs : List Char) :
    Agrees t u (fillFrom x depth numbering cs) (fillFrom y depth numbering cs) fun _ _ v w =>
      v = w := by
  induction depth generalizing t u numbering cs with
  | zero => exact agrees_throw _
  | succ depth ih =>
      rw [fillFrom, fillFrom]
      refine agrees_foldlM fun acc piece t₁ u₁ ht₁ hu₁ => ?_
      obtain ⟨out, numbering⟩ := acc
      cases piece with
      | char c => exact agrees_pure rfl
      | fault e => exact agrees_throw _
      | hole p =>
          refine (agrees_select hs (ht.trans ht₁) (hu.trans hu₁) (h.mono ht₁ hu₁) _ p).bind
            fun v w t₂ u₂ ht₂ hu₂ hvw => ?_
          obtain ⟨hvw, hnumbering⟩ := hvw
          dsimp only
          rw [hnumbering]
          split
          · refine (ih (ht.trans (ht₁.trans ht₂)) (hu.trans (hu₁.trans hu₂))
              (h.mono (ht₁.trans ht₂) (hu₁.trans hu₂)) _ _).bind_same fun layout _ _ ht₃ hu₃ => ?_
            exact agrees_layOut (hvw.mono ht₃ hu₃) layout.1 fun set => (out ++ set, layout.2)
          · exact agrees_layOut hvw p.layout fun set => (out ++ set, w.2)

theorem agrees_fill (hs : s.KeepsBuilt) (ht : s.Leads False t) (hu : s.Leads False u)
    (h : Datum.Seen t u x y) (template : String) :
    Agrees t u (fill template x) (fill template y) fun _ _ v w => v = w :=
  (agrees_fillFrom hs _ ht hu h _ _).bind_same fun _ _ _ _ _ => agrees_pure rfl

end Template

end Biblio
