import Biblio.Proofs.Built
import Biblio.Proofs.Line.Write

/-!
# Histories of a field

A field is created or read, grows by `append` and `extend`, and is copied, with any texts
as arguments and also by calls that fail. Whatever its history is, the field is built as
the two ways of building fields allow. It is therefore well-formed but for line feeds at
the end of its tag, its occurrence and its codes, and well-formed if no such text was given.
-/

namespace Biblio

open Biblio.Action

/-! ## What growth and copies do -/

namespace FieldRef

variable {f : FieldRef} {s : Store}

theorem exec_append_text (f : FieldRef) (code value : String) (s : Store) :
    ((f.append (.text code) (.text value)).exec s).2 =
      if Field.isCodeForm code = true then s.withField f fun x => x.push code value else s := by
  split
  · next h => rw [exec_append f h]
  · next h =>
    rw [append, if_pos (by simpa using h)]
    rfl

theorem exec_extend_text (f : FieldRef) (payload : String) (s : Store) :
    ((f.extend (.text payload)).exec s).2 =
      match Payload.decode? payload.toList with
      | some gs => s.withField f fun x => x.pushGroups gs
      | none => s := by
  rw [extend]
  cases Payload.decode? payload.toList <;> rfl

def pairs (ps : List (String × String)) : List Arg :=
  ps.map fun p => .tuple [.text p.1, .text p.2]

/-- What every append keeps is kept by appending pairs up to the first refused one. -/
theorem exec_extendItems_induct {P : Store → Prop} {ps : List (String × String)} (hs : P s)
    (happend : ∀ u, P u → ∀ p ∈ ps, P ((f.append (.text p.1) (.text p.2)).exec u).2) :
    P ((f.extendItems (pairs ps)).exec s).2 := by
  induction ps generalizing s with
  | nil => exact hs
  | cons p ps ih =>
      have hpair : (Arg.pair (.tuple [.text p.1, .text p.2])).exec s =
          (.ok (.text p.1, .text p.2), s) := rfl
      have hnext := happend s hs p (by simp)
      rw [pairs, List.map_cons, extendItems, exec_bind, hpair]
      dsimp only
      rw [exec_bind]
      rcases hrun : (f.append (.text p.1) (.text p.2)).exec s with ⟨e | x, t⟩
      · rw [hrun] at hnext
        exact hnext
      · rw [hrun] at hnext
        exact ih hnext fun u hu q hq => happend u hu q (by simp [hq])

theorem exec_toCodeClass (codes : Arg) (s : Store) :
    (∃ k, codes.toCodeClass.exec s = (.ok k, s)) ∨
      ∃ e, codes.toCodeClass.exec s = (.error e, s) := by
  cases codes with
  | null => exact .inl ⟨_, rfl⟩
  | text t =>
      rw [Arg.toCodeClass]
      cases CodeClass.parse? t with
      | none => exact .inr ⟨_, rfl⟩
      | some k => exact .inl ⟨_, rfl⟩
  | _ => exact .inr ⟨_, rfl⟩

/-- A copy is refused, or is a new field with some subfields of the old one. -/
theorem exec_copy_text (f : FieldRef) (fullTag codes : Option String) (s : Store) :
    (∃ e, (f.copy (.ofOption .text fullTag) (.ofOption .text codes)).exec s = (.error e, s)) ∨
      ∃ t k, (f.copy (.ofOption .text fullTag) (.ofOption .text codes)).exec s =
        (.ok s.nextField, s.withNewField ((s.field f).restrict t k)) := by
  obtain ⟨t, codes', hargs⟩ : ∃ t codes', copyArguments (s.field f).fullTag
      (.ofOption .text fullTag) (.ofOption .text codes) = (.text t, codes') := by
    cases fullTag with
    | none => exact ⟨_, _, rfl⟩
    | some t =>
        rw [Value.ofOption, copyArguments]
        split <;> exact ⟨_, _, rfl⟩
  rw [copy, exec_bind, exec_field]
  dsimp only
  rw [hargs]
  dsimp only
  rw [exec_bind]
  rcases exec_toCodeClass codes' s with ⟨k, hk⟩ | ⟨e, he⟩
  · rw [hk]
    exact .inr ⟨t, k, rfl⟩
  · rw [he]
    exact .inl ⟨e, rfl⟩

theorem exec_copy_all (f : FieldRef) (s : Store) :
    (f.copy .null .null).exec s =
      (.ok s.nextField, s.withNewField ((s.field f).restrict (s.field f).fullTag none)) := rfl

end FieldRef

namespace Field

variable {f : Field}

theorem restrict_eq_pushAll (f : Field) (fullTag : String) (k : Option CodeClass) :
    f.restrict fullTag k =
      (ofTag fullTag "").pushAll (f.subfields.filter fun sf => k.all (·.accepts sf.code)) := rfl

theorem subfields_ofTag (tag occurrence : String) : (ofTag tag occurrence).subfields = [] := rfl

/-- A copy has the subfields that the class accepts, in their order. -/
theorem subfields_restrict (h : ∀ sf ∈ f.subfields, sf.value ≠ "") (fullTag : String)
    (k : Option CodeClass) :
    (f.restrict fullTag k).subfields =
      f.subfields.filter fun sf => k.all (·.accepts sf.code) := by
  rw [restrict_eq_pushAll, subfields_pushAll, subfields_ofTag, List.nil_append]
  exact valued_eq_self fun sf hsf => h sf (List.mem_filter.mp hsf).1

namespace WellFormed

theorem same_restrict (h : f.WellFormed) : (f.restrict f.fullTag none).same f = true := by
  rw [same_iff, subfields_restrict h.values, restrict_eq_pushAll, tag_pushAll,
    occurrence_pushAll, h.ofTag_fullTag]
  simp

end WellFormed

end Field

namespace Store

variable {s t : Store} {f : FieldRef} {plain : Prop}

/-! ## Histories -/

/-- The fields that come of a history, with the stores at its end. If the history has to be
plain, no tag beside an occurrence, no such occurrence and no code that it gives ends in a
line feed. -/
inductive Grown (plain : Prop) : Store → FieldRef → Prop
  | create {s t : Store} {f : FieldRef} {tag occurrence : String}
    (hplain : plain → occurrence ≠ "" → Text.IsPlain tag ∧ Text.IsPlain occurrence)
    (h : (createField (.text tag) (.text occurrence)).exec s = (.ok f, t)) : Grown plain t f
  | read {s t : Store} {f : FieldRef} {line : String}
    (h : (readField (.text line)).exec s = (.ok f, t)) : Grown plain t f
  | append {s : Store} {f : FieldRef} (h : Grown plain s f) (code value : String)
    (hplain : plain → Text.IsPlain code) :
    Grown plain ((f.append (.text code) (.text value)).exec s).2 f
  | extend {s : Store} {f : FieldRef} (h : Grown plain s f) (payload : String) :
    Grown plain ((f.extend (.text payload)).exec s).2 f
  | extendPairs {s : Store} {f : FieldRef} (h : Grown plain s f) (ps : List (String × String))
    (hplain : plain → ∀ p ∈ ps, Text.IsPlain p.1) :
    Grown plain ((f.extend (.list (FieldRef.pairs ps))).exec s).2 f
  | copy {s t : Store} {f g : FieldRef} (h : Grown plain s f) {fullTag codes : Option String}
    (hcopy : (f.copy (.ofOption .text fullTag) (.ofOption .text codes)).exec s = (.ok g, t)) :
    Grown plain t g
  | copied {s : Store} {f : FieldRef} (h : Grown plain s f) (fullTag codes : Option String) :
    Grown plain ((f.copy (.ofOption .text fullTag) (.ofOption .text codes)).exec s).2 f

def HasBuilt (plain : Prop) (s : Store) (f : FieldRef) : Prop :=
  s.HasField f ∧ (s.field f).IsBuilt plain

theorem hasBuilt_withNewField {x : Field} (hx : x.IsBuilt plain) :
    (s.withNewField x).HasBuilt plain s.nextField := by
  refine ⟨s.hasField_nextField x, ?_⟩
  rw [field_withNewField]
  exact hx

theorem HasBuilt.withNewField (h : s.HasBuilt plain f) (x : Field) :
    (s.withNewField x).HasBuilt plain f := by
  refine ⟨h.1.withNewField x, ?_⟩
  rw [field_withNewField_of_hasField x h.1]
  exact h.2

theorem HasBuilt.withField (h : s.HasBuilt plain f) {g : Field → Field}
    (hg : (g (s.field f)).IsBuilt plain) : (s.withField f g).HasBuilt plain f := by
  refine ⟨h.1.withField f g, ?_⟩
  rw [field_withField, if_pos ⟨rfl, h.1⟩]
  exact hg

theorem HasBuilt.append (h : s.HasBuilt plain f) {code : String} (value : String)
    (hplain : plain → Text.IsPlain code) :
    HasBuilt plain ((f.append (.text code) (.text value)).exec s).2 f := by
  rw [FieldRef.exec_append_text]
  split
  · next hcode => exact h.withField (h.2.push hcode hplain value)
  · exact h

/-- At the end of every history the field is built. -/
theorem Grown.hasBuilt (h : s.Grown plain f) : s.HasBuilt plain f := by
  induction h with
  | create hplain h =>
      rw [exec_createField] at h
      obtain ⟨rfl, rfl⟩ : _ ∧ _ := by simpa using h
      exact hasBuilt_withNewField (.ofTag hplain)
  | read h =>
      rw [show readField (.text _) = parseField _ from rfl, exec_parseField] at h
      obtain ⟨rfl, rfl⟩ : _ ∧ _ := by simpa using h
      exact hasBuilt_withNewField (Field.isBuilt_parse _)
  | append _ code value hplain ih => exact ih.append value hplain
  | extend _ payload ih =>
      rw [FieldRef.exec_extend_text]
      split
      · next gs hgs => exact ih.withField (ih.2.pushGroups (Payload.isCode_of_decode? hgs))
      · exact ih
  | extendPairs _ ps hplain ih =>
      exact FieldRef.exec_extendItems_induct (P := fun u => u.HasBuilt plain _) ih
        fun u hu p hp => hu.append p.2 fun h => hplain h p hp
  | copy _ hcopy ih =>
      rcases FieldRef.exec_copy_text _ _ _ _ with ⟨e, he⟩ | ⟨t, k, hk⟩
      · rw [he] at hcopy
        cases hcopy
      · rw [hk] at hcopy
        obtain ⟨rfl, rfl⟩ : _ ∧ _ := by simpa using hcopy
        exact hasBuilt_withNewField (ih.2.restrict t k)
  | copied _ fullTag codes ih =>
      rcases FieldRef.exec_copy_text _ fullTag codes _ with ⟨e, he⟩ | ⟨t, k, hk⟩
      · rw [he]
        exact ih
      · rw [hk]
        exact ih.withNewField _

/-- Whatever its history is, a field has the documented form up to line feeds at the end of
its tag, its occurrence and its codes. If no text that is kept as it was given ends in a line
feed, it has that form, a field that is created with its full tag has its tag and its
occurrence, and its copy equals it. -/
theorem Grown.data_model (h : s.Grown plain f) :
    (s.field f).LooselyFormed ∧
      (plain → (s.field f).WellFormed ∧
        (∃ g t, (createField (.text (s.field f).fullTag) (.text "")).exec s = (.ok g, t) ∧
          (t.field g).tag = (s.field f).tag ∧ (t.field g).occurrence = (s.field f).occurrence) ∧
        ∃ g t, (f.copy .null .null).exec s = (.ok g, t) ∧
          (t.field g).same (t.field f) = true) := by
  obtain ⟨hf, hbuilt⟩ := h.hasBuilt
  refine ⟨hbuilt.looselyFormed, fun hp => ?_⟩
  have hform := hbuilt.wellFormed hp
  refine ⟨hform, ⟨_, _, exec_createField _ _ s, ?_⟩, _, _, f.exec_copy_all s, ?_⟩
  · rw [field_withNewField, hform.ofTag_fullTag]
    exact ⟨rfl, rfl⟩
  · rw [field_withNewField, field_withNewField_of_hasField _ hf]
    exact hform.same_restrict

def title : Store :=
  let s := ((createField (.text "021A") (.text "01")).exec {}).2
  ((FieldRef.append ⟨0⟩ (.text "a") (.text "Faust")).exec s).2

def titleAndCopy : Store :=
  ((FieldRef.copy ⟨0⟩ .null (.text "a-c")).exec title).2

theorem data_model_title :
    let s := ((FieldRef.extend ⟨1⟩ (.text "$hGoethe$d")).exec titleAndCopy).2
    s.Grown True ⟨1⟩ ∧ (s.field ⟨1⟩).WellFormed ∧
      (s.field ⟨1⟩).subfields = [⟨"a", "Faust"⟩, ⟨"h", "Goethe"⟩] ∧
      ∃ g t, (FieldRef.copy ⟨1⟩ .null .null).exec s = (.ok g, t) ∧
        (t.field g).same (t.field ⟨1⟩) = true := by
  have hcreated : Grown True _ _ :=
    .create (fun _ _ => by decide) (exec_createField "021A" "01" {})
  have htitle : title.Grown True ⟨0⟩ := hcreated.append "a" "Faust" fun _ => by decide
  have hcopy : (FieldRef.copy ⟨0⟩ (.ofOption .text none) (.ofOption .text (some "a-c"))).exec
      title = (.ok ⟨1⟩, titleAndCopy) := rfl
  have hgrown := (htitle.copy hcopy).extend "$hGoethe$d"
  obtain ⟨hform, -, hsame⟩ := hgrown.data_model.2 trivial
  exact ⟨hgrown, hform, by decide, hsame⟩

def brokenTitle : Store :=
  let s := ((createField (.text "021A\n") (.text "01")).exec {}).2
  ((FieldRef.append ⟨0⟩ (.text "a\n") (.text "Faust")).exec s).2

/-- The line feeds are kept, and with the tag the full tag and the copy are lost. -/
theorem not_wellFormed_brokenTitle :
    brokenTitle.Grown False ⟨0⟩ ∧ (brokenTitle.field ⟨0⟩).tag = "021A\n" ∧
      (brokenTitle.field ⟨0⟩).codes = ["a\n"] ∧ ¬ (brokenTitle.field ⟨0⟩).WellFormed ∧
      (Field.ofTag (brokenTitle.field ⟨0⟩).fullTag "").tag = "" ∧
      ∃ g t, (FieldRef.copy ⟨0⟩ .null .null).exec brokenTitle = (.ok g, t) ∧
        (t.field g).same (t.field ⟨0⟩) = false := by
  have hcreated : Grown False _ _ := .create False.elim (exec_createField "021A\n" "01" {})
  have hgrown : brokenTitle.Grown False ⟨0⟩ := hcreated.append "a\n" "Faust" False.elim
  have hbroken : ¬ (brokenTitle.field ⟨0⟩).WellFormed := by
    intro h
    exact absurd h.hasPlainTexts.tag (by decide)
  exact ⟨hgrown, by decide, by decide, hbroken, by decide, _, _,
    FieldRef.exec_copy_all ⟨0⟩ brokenTitle, by decide⟩

end Store

end Biblio
