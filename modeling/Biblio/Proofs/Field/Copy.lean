import Biblio.Proofs.Access
import Biblio.Proofs.DataModel
import Biblio.Proofs.Store.Always

/-!
# Copies by classes of codes

A class of codes is a text of letters, digits and hyphens that is read as characters and ranges
of code points, a hyphen between two characters being what makes a range. The copies by a class
and by its complement share the subfields of the field out between them. A copy with a tag of
its own and a copy by a class can be made at once or one after the other, in both orders, and
what is given in the place of the tag is taken for a class if it cannot be a tag.
-/

namespace Biblio

open Biblio.Action

namespace CodeClass

/-! ## The grammar of classes -/

/-- The text is a sequence of ranges. A hyphen between two characters joins them, and any other
character stands for itself. -/
inductive IsRanges : List Char → List (Char × Char) → Prop
  | nil : IsRanges [] []
  | range {lo hi : Char} {cs : List Char} {rs : List (Char × Char)} (hle : lo ≤ hi)
      (h : IsRanges cs rs) : IsRanges (lo :: '-' :: hi :: cs) ((lo, hi) :: rs)
  | single {c : Char} {cs : List Char} {rs : List (Char × Char)}
      (hjoin : ∀ hi ds, cs ≠ '-' :: hi :: ds) (h : IsRanges cs rs) :
      IsRanges (c :: cs) ((c, c) :: rs)

theorem readRanges?_eq_some_iff (cs : List Char) (rs : List (Char × Char)) :
    readRanges? cs = some rs ↔ IsRanges cs rs := by
  constructor
  · intro h
    fun_induction readRanges? cs generalizing rs with
    | case1 =>
        obtain rfl := Option.some.inj h
        exact .nil
    | case2 lo hi cs hlt => cases h
    | case3 lo hi cs hlt ih =>
        obtain ⟨rest, hrest, rfl⟩ := Option.map_eq_some_iff.mp h
        exact .range (Char.not_lt.mp hlt) (ih rest hrest)
    | case4 c cs hjoin ih =>
        obtain ⟨rest, hrest, rfl⟩ := Option.map_eq_some_iff.mp h
        exact .single (fun hi ds hcs => hjoin hi ds hcs) (ih rest hrest)
  · intro h
    induction h with
    | nil => rfl
    | range hle _ ih => rw [readRanges?, if_neg (Char.not_lt.mpr hle), ih]; rfl
    | single hjoin _ ih =>
        rw [readRanges?, ih]
        · rfl
        · exact hjoin

/-- The text is the body of a class with these ranges: letters, digits and hyphens, at least
one of them, and possibly a line feed behind them, which belongs to the class. -/
structure IsClass (cs : List Char) (rs : List (Char × Char)) : Prop where
  nonempty : Text.chomp cs ≠ []
  members : ∀ c ∈ Text.chomp cs, isMember c = true
  ranges : IsRanges cs rs

def bodyRanges? (cs : List Char) : Option (List (Char × Char)) :=
  if isBody cs then readRanges? cs else none

theorem bodyRanges?_eq_some_iff (cs : List Char) (rs : List (Char × Char)) :
    bodyRanges? cs = some rs ↔ IsClass cs rs := by
  have hbody : isBody cs = true ↔
      Text.chomp cs ≠ [] ∧ ∀ c ∈ Text.chomp cs, isMember c = true := by
    simp [isBody]
  rw [bodyRanges?, Option.ite_none_right_eq_some, hbody, readRanges?_eq_some_iff]
  exact ⟨fun h => ⟨h.1.1, h.1.2, h.2⟩, fun h => ⟨⟨h.nonempty, h.members⟩, h.ranges⟩⟩

theorem bodyRanges?_eq_none_iff (cs : List Char) :
    bodyRanges? cs = none ↔ ∀ rs, ¬IsClass cs rs := by
  rw [Option.eq_none_iff_forall_ne_some]
  simp only [ne_eq, bodyRanges?_eq_some_iff]

theorem parse?_of_head {c : String} (h : c.toList.head? ≠ some '^') :
    parse? c = (bodyRanges? c.toList).map fun rs => ⟨false, rs⟩ := by
  unfold parse? bodyRanges?
  split
  next complement body hmatch =>
    split at hmatch
    · next cs hc =>
      rw [hc] at h
      exact absurd rfl h
    · obtain ⟨rfl, rfl⟩ := Prod.mk.inj hmatch
      split <;> rfl

theorem parse?_caret (c : String) :
    parse? ("^" ++ c) = (bodyRanges? c.toList).map fun rs => ⟨true, rs⟩ := by
  have hlist : ("^" ++ c).toList = '^' :: c.toList := by simp
  unfold parse? bodyRanges?
  rw [hlist]
  split
  next complement body hmatch =>
    obtain ⟨rfl, rfl⟩ := Prod.mk.inj hmatch
    split <;> rfl

def covers (rs : List (Char × Char)) (code : String) : Bool :=
  code.toList.head?.any fun c => rs.any fun r => r.1 ≤ c && c ≤ r.2

theorem accepts_plain (rs : List (Char × Char)) (code : String) :
    accepts ⟨false, rs⟩ code = covers rs code := by
  rw [accepts, covers]
  cases code.toList <;> simp [contains]

theorem accepts_complement (rs : List (Char × Char)) {code : String} (h : code ≠ "") :
    accepts ⟨true, rs⟩ code = !covers rs code := by
  rw [accepts, covers]
  cases hcode : code.toList with
  | nil => exact absurd (String.toList_eq_nil_iff.mp hcode) h
  | cons c cs => exact (contains_not ⟨false, rs⟩ c).trans (by simp [contains])

end CodeClass

namespace Field

variable {f : Field} {label : String} {k : Option CodeClass}

/-! ## Fields of copies -/

/-- A copy depends on the subfields only. -/
theorem restrict_congr {g : Field} (h : f.subfields = g.subfields) (label : String)
    (k : Option CodeClass) : f.restrict label k = g.restrict label k := by
  rw [restrict, restrict, h]

/-- Copying all subfields first changes nothing. -/
theorem restrict_none_restrict (h : ∀ sf ∈ f.subfields, sf.value ≠ "") (label label' : String)
    (k : Option CodeClass) : (f.restrict label' none).restrict label k = f.restrict label k := by
  refine restrict_congr ?_ label k
  rw [subfields_restrict h]
  simp

/-- Copying all subfields of a copy only gives it another tag. -/
theorem restrict_restrict_none (h : ∀ sf ∈ f.subfields, sf.value ≠ "") (label label' : String)
    (k : Option CodeClass) : (f.restrict label' k).restrict label none = f.restrict label k := by
  rw [restrict_eq_pushAll (f.restrict label' k), subfields_restrict h, restrict_eq_pushAll]
  simp

/-- A copy with a label has the tag and the occurrence of the label, and it as full tag. -/
theorem restrict_of_isLabel {t o : String} (h : Tag.IsLabel label.toList t o) (f : Field)
    (k : Option CodeClass) :
    (f.restrict label k).tag = t ∧ (f.restrict label k).occurrence = o ∧
      (f.restrict label k).fullTag = label := by
  have hresolve := h.resolve
  rw [String.ofList_toList] at hresolve
  have htag : (f.restrict label k).tag = t := by
    rw [restrict_eq_pushAll, tag_pushAll, ofTag, hresolve]
  have hoccurrence : (f.restrict label k).occurrence = o := by
    rw [restrict_eq_pushAll, occurrence_pushAll, ofTag, hresolve]
  refine ⟨htag, hoccurrence, ?_⟩
  rw [fullTag_of_isLabel (by rwa [htag, hoccurrence]), String.ofList_toList]

end Field

/-! ## Arguments of copies -/

theorem Tag.IsLabel.eq_empty_or_isFull {label t o : String} (h : IsLabel label.toList t o) :
    label = "" ∨ isFull label = true := by
  have hchomp := Text.chomp_eq_self h.endsIn_isBlank
  rw [isFull, hchomp]
  generalize hcs : label.toList = cs at h
  cases h with
  | nil => exact .inl (String.toList_eq_nil_iff.mp hcs)
  | tag ht => exact .inr (by rw [splitFull?_tag ht]; rfl)
  | full ht ho => exact .inr (by rw [splitFull?_full ht ho]; rfl)

/-- A full tag is a label, possibly with a line feed behind it. -/
theorem Tag.exists_isLabel_of_isFull {c : String} (h : isFull c = true) :
    ∃ label t o, IsLabel label t o ∧ label ≠ [] ∧
      (c.toList = label ∨ c.toList = label ++ ['\n']) := by
  obtain ⟨⟨t, o⟩, hsplit⟩ := Option.isSome_iff_exists.mp h
  refine ⟨_, _, _, isLabel_of_splitFull? hsplit, ?_, Text.eq_chomp_or c.toList⟩
  intro hnil
  rw [hnil] at hsplit
  cases hsplit

namespace CodeClass

def refusal (c : String) : Fault :=
  .locator (.badClass (Text.quote c) (some c))

variable {c : String} {s : Store}

theorem exec_toCodeClass_of_some {k : CodeClass} (h : parse? c = some k) (s : Store) :
    (Arg.toCodeClass (.text c)).exec s = (.ok (some k), s) := by
  rw [Arg.toCodeClass, h]
  rfl

theorem exec_toCodeClass_of_none (h : parse? c = none) (s : Store) :
    (Arg.toCodeClass (.text c)).exec s = (.error (refusal c), s) := by
  rw [Arg.toCodeClass, h]
  rfl

end CodeClass

namespace Action

/-- Whether an action gives a reference to this field, and lets nothing grow. -/
def GivesField (s : Store) (a : Action FieldRef) (x : Field) : Prop :=
  a.Gives s fun g t => t.HasField g ∧ t.field g = x

def FailsWith {α : Type} (s : Store) (a : Action α) (e : Fault) : Prop :=
  ∃ t, a.exec s = (.error e, t) ∧ s.Leads False t

section FailsWith

variable {α β : Type} {s : Store} {a : Action α} {g : α → Action β} {P : α → Store → Prop}
  {e : Fault}

theorem FailsWith.bind (h : a.FailsWith s e) : (a >>= g).FailsWith s e := by
  obtain ⟨t, hrun, hst⟩ := h
  exact ⟨t, by rw [exec_bind, hrun], hst⟩

theorem Gives.bind_failsWith (ha : a.Gives s P)
    (hg : ∀ x t, P x t → (g x).FailsWith t e) : (a >>= g).FailsWith s e := by
  obtain ⟨x, t, hrun, hst, hx⟩ := ha
  obtain ⟨u, hrest, htu⟩ := hg x t hx
  exact ⟨u, by rw [exec_bind_of_eq hrun, hrest], hst.trans htu⟩

end FailsWith

end Action

namespace FieldRef

variable {f : FieldRef} {s : Store} {a b codes : Arg} {label c : String}

theorem copyArguments_of_label (own : String) (h : label = "" ∨ Tag.isFull label = true) :
    copyArguments own (.text label) .null = (.text label, .null) := by
  rcases h with rfl | h
  · rfl
  · rw [copyArguments, h]
    simp

theorem copyArguments_of_class (own : String) (hne : c ≠ "") (h : Tag.isFull c = false) :
    copyArguments own (.text c) .null = (.text own, .text c) := by
  rw [copyArguments, h]
  simp [hne, Value.isNull]

theorem givesField_copy {k : Option CodeClass}
    (hargs : copyArguments (s.field f).fullTag a b = (.text label, codes))
    (hk : codes.toCodeClass.exec s = (.ok k, s)) :
    (f.copy a b).GivesField s ((s.field f).restrict label k) := by
  have hrun : (f.copy a b).exec s =
      (.ok s.nextField, s.withNewField ((s.field f).restrict label k)) := by
    rw [copy, exec_bind, exec_field]
    dsimp only
    rw [hargs]
    dsimp only
    rw [exec_bind_of hk]
    rfl
  exact ⟨_, _, hrun, .single (.newField (.copy f label k)), s.hasField_nextField _,
    s.field_withNewField _⟩

theorem failsWith_copy {e : Fault}
    (hargs : copyArguments (s.field f).fullTag a b = (.text label, codes))
    (hk : codes.toCodeClass.exec s = (.error e, s)) : (f.copy a b).FailsWith s e := by
  have hrun : (f.copy a b).exec s = (.error e, s) := by
    rw [copy, exec_bind, exec_field]
    dsimp only
    rw [hargs]
    dsimp only
    rw [exec_bind, hk]
  exact ⟨s, hrun, .refl s⟩

/-! ## Classes and their complements -/

/-- The copies by a class and by its complement share the subfields out between them, and what
is no class is refused as one and as the complement of one. -/
theorem copy_complement (hcodes : ∀ sf ∈ (s.field f).subfields, sf.code ≠ "")
    (hvalues : ∀ sf ∈ (s.field f).subfields, sf.value ≠ "") (hc : c.toList.head? ≠ some '^') :
    (∃ rs x y, CodeClass.IsClass c.toList rs ∧
      (f.copy .null (.text c)).GivesField s x ∧
      (f.copy .null (.text ("^" ++ c))).GivesField s y ∧
      x.subfields = (s.field f).subfields.filter (fun sf => CodeClass.covers rs sf.code) ∧
      y.subfields = (s.field f).subfields.filter (fun sf => !CodeClass.covers rs sf.code)) ∨
    ((∀ rs, ¬CodeClass.IsClass c.toList rs) ∧
      (f.copy .null (.text c)).FailsWith s (CodeClass.refusal c) ∧
      (f.copy .null (.text ("^" ++ c))).FailsWith s (CodeClass.refusal ("^" ++ c))) := by
  have hplain := CodeClass.parse?_of_head hc
  have hcaret := CodeClass.parse?_caret c
  cases hread : CodeClass.bodyRanges? c.toList with
  | none =>
      rw [hread] at hplain hcaret
      exact .inr ⟨(CodeClass.bodyRanges?_eq_none_iff _).mp hread,
        failsWith_copy rfl (CodeClass.exec_toCodeClass_of_none hplain s),
        failsWith_copy rfl (CodeClass.exec_toCodeClass_of_none hcaret s)⟩
  | some rs =>
      rw [hread] at hplain hcaret
      refine .inl ⟨rs, _, _, (CodeClass.bodyRanges?_eq_some_iff _ _).mp hread,
        givesField_copy rfl (CodeClass.exec_toCodeClass_of_some hplain s),
        givesField_copy rfl (CodeClass.exec_toCodeClass_of_some hcaret s), ?_, ?_⟩
      · rw [Field.subfields_restrict hvalues]
        exact List.filter_congr fun sf _ => CodeClass.accepts_plain rs sf.code
      · rw [Field.subfields_restrict hvalues]
        exact List.filter_congr fun sf hsf => CodeClass.accepts_complement rs (hcodes sf hsf)

/-! ## Labels and classes -/

/-- The ways to copy with a label and a class: both at once, and either of them first. -/
def labelledCopies (f : FieldRef) (label c : String) : List (Action FieldRef) :=
  [f.copy (.text label) (.text c),
    f.copy (.text label) .null >>= fun g => g.copy .null (.text c),
    f.copy .null (.text c) >>= fun g => g.copy (.text label) .null]

/-- All ways to copy with a label and a class come to the same. -/
theorem copy_label_class (hvalues : ∀ sf ∈ (s.field f).subfields, sf.value ≠ "") (c : String)
    {t o : String} (hlabel : Tag.IsLabel label.toList t o) :
    (∃ x y, x.tag = t ∧ x.occurrence = o ∧ x.subfields = y.subfields ∧
      (f.copy .null (.text c)).GivesField s y ∧
      ∀ a ∈ f.labelledCopies label c, a.GivesField s x) ∨
    ∀ a ∈ f.labelledCopies label c, a.FailsWith s (CodeClass.refusal c) := by
  simp only [labelledCopies, List.forall_mem_cons, List.not_mem_nil, false_imp_iff, implies_true,
    and_true]
  have hfull := hlabel.eq_empty_or_isFull
  have hretag : (f.copy (.text label) .null).GivesField s ((s.field f).restrict label none) :=
    givesField_copy (copyArguments_of_label _ hfull) rfl
  cases hread : CodeClass.parse? c with
  | none =>
      have hrefused := CodeClass.exec_toCodeClass_of_none hread
      refine .inr ⟨failsWith_copy rfl (hrefused s), ?_, ?_⟩
      · exact Gives.bind_failsWith hretag fun g u _ => failsWith_copy rfl (hrefused u)
      · exact (failsWith_copy rfl (hrefused s)).bind
  | some k =>
      -- The second copy of each order is made in the store that the first one leaves.
      have hclass := CodeClass.exec_toCodeClass_of_some hread
      have hrestrict : (f.copy .null (.text c)).GivesField s
          ((s.field f).restrict (s.field f).fullTag (some k)) := givesField_copy rfl (hclass s)
      obtain ⟨htag, hoccurrence, -⟩ := Field.restrict_of_isLabel hlabel (s.field f) (some k)
      obtain ⟨-, -, hown⟩ := Field.restrict_of_isLabel hlabel (s.field f) none
      have hsub : ((s.field f).restrict label (some k)).subfields =
          ((s.field f).restrict (s.field f).fullTag (some k)).subfields := by
        rw [Field.subfields_restrict hvalues, Field.subfields_restrict hvalues]
      refine .inl ⟨_, _, htag, hoccurrence, hsub, hrestrict, givesField_copy rfl (hclass s), ?_, ?_⟩
      · refine Gives.bind hretag fun g u _ hg => ?_
        have hcopy : (g.copy .null (.text c)).GivesField u
            ((u.field g).restrict (u.field g).fullTag (some k)) := givesField_copy rfl (hclass u)
        rwa [hg.2, hown, Field.restrict_none_restrict hvalues] at hcopy
      · refine Gives.bind hrestrict fun g u _ hg => ?_
        have hcopy : (g.copy (.text label) .null).GivesField u ((u.field g).restrict label none) :=
          givesField_copy (copyArguments_of_label _ hfull) rfl
        rwa [hg.2, Field.restrict_restrict_none hvalues] at hcopy

/-- What cannot be a label is taken as a class. -/
theorem copy_of_not_label (f : FieldRef) (hne : c ≠ "")
    (h : ∀ label t o, Tag.IsLabel label t o → label ≠ [] →
      c.toList ≠ label ∧ c.toList ≠ label ++ ['\n']) :
    f.copy (.text c) .null = f.copy .null (.text c) := by
  have hfull : Tag.isFull c = false := by
    by_contra htrue
    obtain ⟨label, t, o, hlabel, hnil, heq⟩ :=
      Tag.exists_isLabel_of_isFull (by simpa using htrue)
    obtain ⟨hplain, hbreak⟩ := h label t o hlabel hnil
    exact heq.elim hplain hbreak
  have hargs : ∀ own, copyArguments own (.text c) .null = copyArguments own .null (.text c) :=
    fun own => copyArguments_of_class own hne hfull
  simp only [copy, hargs]

end FieldRef

namespace Store

variable {s : Store}

/-- A text that does not start with `^` either is the body of a class, and then the copies by the
class and by its complement have the subfields of the field whose codes the ranges cover and do
not cover, or both copies are refused. A label and a class can be given at once or to one copy
after the other: either all three ways give the same field, which is the copy by the class with
the tag and the occurrence of the label, or all are refused. A text that cannot be a label is
taken as a class. -/
theorem Reachable.copy_split (h : s.Reachable) (f : FieldRef) :
    (∀ c : String, c.toList.head? ≠ some '^' →
      (∃ rs x y, CodeClass.IsClass c.toList rs ∧
        (f.copy .null (.text c)).GivesField s x ∧
        (f.copy .null (.text ("^" ++ c))).GivesField s y ∧
        x.subfields = (s.field f).subfields.filter (fun sf => CodeClass.covers rs sf.code) ∧
        y.subfields = (s.field f).subfields.filter (fun sf => !CodeClass.covers rs sf.code)) ∨
      ((∀ rs, ¬CodeClass.IsClass c.toList rs) ∧
        (f.copy .null (.text c)).FailsWith s (CodeClass.refusal c) ∧
        (f.copy .null (.text ("^" ++ c))).FailsWith s (CodeClass.refusal ("^" ++ c)))) ∧
    (∀ c label t o : String, Tag.IsLabel label.toList t o →
      (∃ x y, x.tag = t ∧ x.occurrence = o ∧ x.subfields = y.subfields ∧
        (f.copy .null (.text c)).GivesField s y ∧
        ∀ a ∈ f.labelledCopies label c, a.GivesField s x) ∨
      ∀ a ∈ f.labelledCopies label c, a.FailsWith s (CodeClass.refusal c)) ∧
    ∀ c : String, c ≠ "" →
      (∀ label t o, Tag.IsLabel label t o → label ≠ [] →
        c.toList ≠ label ∧ c.toList ≠ label ++ ['\n']) →
      f.copy (.text c) .null = f.copy .null (.text c) := by
  have hloose := (h.leads.isBuilt f).looselyFormed
  have hcodes : ∀ sf ∈ (s.field f).subfields, sf.code ≠ "" := by
    intro sf hsf hempty
    have hform := hloose.codes sf hsf
    rw [hempty] at hform
    cases hform
  exact ⟨fun c hc => FieldRef.copy_complement hcodes hloose.values hc,
    fun c label t o hlabel => FieldRef.copy_label_class hloose.values c hlabel,
    fun c hne hnot => f.copy_of_not_label hne hnot⟩

/-- A hyphen at the end of a class stands for itself, a range must not run backwards, and a line
feed at the end belongs to the class. -/
theorem copy_split_uneven :
    uneven.Reachable ∧
      (∃ x y, ((⟨0⟩ : FieldRef).copy .null (.text "b-")).GivesField uneven x ∧
        ((⟨0⟩ : FieldRef).copy .null (.text "^b-")).GivesField uneven y ∧
        x.codes = ["b"] ∧ y.codes = ["a", "a", "a"]) ∧
      ((⟨0⟩ : FieldRef).copy .null (.text "z-a")).FailsWith uneven (CodeClass.refusal "z-a") ∧
      Tag.IsLabel "028C/01".toList "028C" "01" ∧
      (∃ x, x.tag = "028C" ∧ x.occurrence = "01" ∧
        ∀ a ∈ (⟨0⟩ : FieldRef).labelledCopies "028C/01" "b-", a.GivesField uneven x) ∧
      (⟨0⟩ : FieldRef).copy (.text "a-b\n") .null =
        (⟨0⟩ : FieldRef).copy .null (.text "a-b\n") := by
  obtain ⟨hclass, hlabel, hother⟩ := reachable_uneven.copy_split ⟨0⟩
  have hread : CodeClass.bodyRanges? "b-".toList = some [('b', 'b'), ('-', '-')] := rfl
  have hbackwards : CodeClass.bodyRanges? "z-a".toList = none := rfl
  have hsplit : Tag.splitFull? "028C/01".toList = some ("028C".toList, "01".toList) := rfl
  have hgiven : Tag.IsLabel "028C/01".toList "028C" "01" := Tag.isLabel_of_splitFull? hsplit
  refine ⟨reachable_uneven, ?_, ?_, hgiven, ?_, ?_⟩
  · rcases hclass "b-" (by decide) with ⟨rs, x, y, hrs, hx, hy, hsub, hsub'⟩ | ⟨hnone, -⟩
    · rw [← CodeClass.bodyRanges?_eq_some_iff, hread] at hrs
      obtain rfl := Option.some.inj hrs
      refine ⟨x, y, hx, hy, ?_, ?_⟩
      · rw [Field.codes, hsub]
        decide
      · rw [Field.codes, hsub']
        decide
    · exact absurd ((CodeClass.bodyRanges?_eq_some_iff _ _).mp hread) (hnone _)
  · rcases hclass "z-a" (by decide) with ⟨rs, -, -, hrs, -⟩ | ⟨-, hfails, -⟩
    · exact absurd hrs ((CodeClass.bodyRanges?_eq_none_iff _).mp hbackwards rs)
    · exact hfails
  · rcases hlabel "b-" "028C/01" "028C" "01" hgiven with ⟨x, -, htag, hocc, -, -, hx⟩ | hfails
    · exact ⟨x, htag, hocc, hx⟩
    · obtain ⟨t, hrun, -⟩ := hfails _ List.mem_cons_self
      cases hrun
  · refine hother "a-b\n" (by decide) fun label t o h hne => ?_
    have hresolve := h.resolve
    refine ⟨?_, fun heq => ?_⟩
    · rintro rfl
      exact hne (h.tag_eq_empty_iff.mp (congrArg Prod.fst hresolve).symm)
    · obtain rfl : label = ['a', '-', 'b'] := (List.append_cancel_right heq).symm
      exact hne (h.tag_eq_empty_iff.mp (congrArg Prod.fst hresolve).symm)

end Store

end Biblio
