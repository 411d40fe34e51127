import Biblio.Proofs.Built
import Biblio.Proofs.Line.Write
import Biblio.Proofs.Store.Agree

/-!
# Queries on equal fields

Two queries with the same plan and the same filters are run on two lookups that give equal
fields for the tags of the plan. The filters are deterministic: for equal fields and for
equal values they give equal answers whenever they are asked, though they may create
objects and may fail. Then the queries agree, since they see of the fields only what equal
fields have in common, and of the lookups only the tags of the plan.
-/

namespace Biblio

open Biblio.Action

/-! ## Deterministic parts -/

/-- Whether a condition has equal answers for equal fields. -/
def Query.Predicate.Deterministic (s : Store) (p : Query.Predicate) : Prop :=
  ∀ t u, s.Leads False t → s.Leads False u → ∀ f g, t.Twins u f g →
    Agrees t u (p f) (p g) fun _ _ b c => b = c

/-- Whether a condition has equal answers for equal fields that are related. -/
def Query.Predicate.DeterministicOn (E : FieldRef → FieldRef → Prop) (s : Store)
    (p : Query.Predicate) : Prop :=
  ∀ t u, s.Leads False t → s.Leads False u → ∀ f g, E f g → t.Twins u f g →
    Agrees t u (p f) (p g) fun _ _ b c => b = c

structure Query.Sieve.Deterministic (s : Store) (v : Query.Sieve) : Prop where
  all : ∀ vs, Determined s (v.all vs)
  first : ∀ vs, Determined s (v.first vs)

variable {s t u : Store} {E : FieldRef → FieldRef → Prop}

theorem Query.Predicate.Deterministic.on {p : Query.Predicate} (h : p.Deterministic s) :
    p.DeterministicOn E s :=
  fun t u ht hu f g _ hfg => h t u ht hu f g hfg

namespace Store

/-- Whether two fields are related and equal, each in its store. -/
def TwinsOn (t u : Store) (E : FieldRef → FieldRef → Prop) (f g : FieldRef) : Prop :=
  E f g ∧ t.Twins u f g

theorem forall₂_twinsOn_mono {fs gs : List FieldRef} (h : List.Forall₂ (t.TwinsOn u E) fs gs)
    {t' u' : Store} (ht : t.Leads False t') (hu : u.Leads False u') :
    List.Forall₂ (t'.TwinsOn u' E) fs gs :=
  h.imp fun _ _ hfg => ⟨hfg.1, hfg.2.mono ht hu⟩

/-- Whether all fields are built, now and as long as nothing grows. -/
def KeepsBuilt (s : Store) : Prop :=
  ∀ t, s.Leads False t → ∀ f, (t.field f).IsBuilt False

theorem keepsBuilt_of_leads (h : ({} : Store).Leads True s) : s.KeepsBuilt :=
  fun _ hst => (h.trans (hst.mono False.elim)).isBuilt

end Store

namespace Query

variable {ps : List Predicate} {v : Sieve} {f g : FieldRef} {fs gs : List FieldRef}

/-! ## Fields -/

theorem agrees_satisfies (hps : ∀ p ∈ ps, p.DeterministicOn E s) (ht : s.Leads False t)
    (hu : s.Leads False u) (hfg : t.TwinsOn u E f g) :
    Agrees t u (satisfies ps f) (satisfies ps g) fun _ _ b c => b = c := by
  induction ps generalizing t u with
  | nil => exact agrees_pure rfl
  | cons p ps ih =>
      have hp := hps p (by simp) t u ht hu f g hfg.1 hfg.2
      refine hp.bind_same fun b t' u' ht' hu' => ?_
      cases b with
      | false => exact agrees_pure rfl
      | true =>
          exact ih (fun q hq => hps q (by simp [hq])) (ht.trans ht') (hu.trans hu')
            ⟨hfg.1, hfg.2.mono ht' hu'⟩

theorem agrees_keepFields (hps : ∀ p ∈ ps, p.DeterministicOn E s) (ht : s.Leads False t)
    (hu : s.Leads False u) (hfgs : List.Forall₂ (t.TwinsOn u E) fs gs) :
    Agrees t u (keepFields ps fs) (keepFields ps gs) fun t u fs gs =>
      List.Forall₂ (t.Twins u) fs gs := by
  induction fs generalizing gs t u with
  | nil =>
      cases hfgs
      exact agrees_pure .nil
  | cons f fs ih =>
      obtain _ | ⟨hfg, hrest⟩ := hfgs
      refine (agrees_satisfies hps ht hu hfg).bind_same fun b t' u' ht' hu' => ?_
      have hkept := ih (ht.trans ht') (hu.trans hu') (Store.forall₂_twinsOn_mono hrest ht' hu')
      cases b with
      | false => exact hkept
      | true =>
          refine hkept.bind fun fs' gs' t'' u'' ht'' hu'' h => agrees_pure ?_
          exact .cons (hfg.2.mono (ht'.trans ht'') (hu'.trans hu'')) h

theorem agrees_firstField (hps : ∀ p ∈ ps, p.DeterministicOn E s) (ht : s.Leads False t)
    (hu : s.Leads False u) (hfgs : List.Forall₂ (t.TwinsOn u E) fs gs) :
    Agrees t u (firstField ps fs) (firstField ps gs) fun t u x y =>
      Option.Rel (t.Twins u) x y := by
  induction fs generalizing gs t u with
  | nil =>
      cases hfgs
      exact agrees_pure .none
  | cons f fs ih =>
      obtain _ | ⟨hfg, hrest⟩ := hfgs
      refine (agrees_satisfies hps ht hu hfg).bind_same fun b t' u' ht' hu' => ?_
      cases b with
      | false => exact ih (ht.trans ht') (hu.trans hu') (Store.forall₂_twinsOn_mono hrest ht' hu')
      | true => exact agrees_pure (.some (hfg.2.mono ht' hu'))

/-! ## Values of one field -/

/-- The values and the full tag of built fields that are equal are the same, and a query of
a field sees no more. -/
theorem queryField_congr {x y : Field} (hx : x.IsBuilt False) (hy : y.IsBuilt False)
    (h : x.same y = true) : queryField x = queryField y := by
  obtain ⟨htag, hocc, hsub⟩ := (Field.same_iff x y).mp h
  have hvalues : x.values = y.values := congrArg (List.map Subfield.value) hsub
  have hvaluesFor : x.valuesFor = y.valuesFor := by
    funext code
    rw [hx.valuesFor_eq, hy.valuesFor_eq, hsub]
  have hfullTag : x.fullTag = y.fullTag := by
    rw [Field.fullTag, Field.fullTag, htag, hocc]
  funext sel v
  rw [queryField, queryField, hvalues, hvaluesFor, hfullTag]

theorem determined_queryField (hv : v.Deterministic s) (x : Field) (sel : Selector) :
    Determined s (queryField x sel v) := by
  rw [queryField]
  cases sel.code with
  | none => exact (hv.all _).bind fun vs => determined_pure (vs, none)
  | some code =>
      dsimp only
      split
      · exact ((hv.first _).map _).bind fun vs => determined_pure _
      · exact (hv.all _).bind fun vs => determined_pure _

theorem agrees_queryField (hs : s.KeepsBuilt) (hv : v.Deterministic s) (ht : s.Leads False t)
    (hu : s.Leads False u) (hfg : t.Twins u f g) (sel : Selector) :
    Agrees t u (queryField (t.field f) sel v) (queryField (u.field g) sel v) fun _ _ x y =>
      x = y := by
  rw [queryField_congr (hs t ht f) (hs u hu g) hfg.same]
  exact determined_queryField hv _ sel t u ht hu

theorem determined_selectorOf (part : String) (a : Alternative) :
    Determined s (selectorOf part a) := by
  rw [selectorOf]
  cases a.subfield with
  | none => exact determined_throw _
  | some sel => exact determined_pure sel

/-! ## Matches -/

def Match.Twins (t u : Store) (m n : Match) : Prop :=
  m.1 = n.1 ∧ t.Twins u m.2 n.2

variable {lookup lookup' : Lookup} {as : List Alternative}

theorem forall₂_filter_accepts {R : FieldRef → FieldRef → Prop} (a : Alternative)
    (hR : ∀ f g, R f g → t.Twins u f g) (h : List.Forall₂ R fs gs) :
    List.Forall₂ R (fs.filter (accepts t a)) (gs.filter (accepts u a)) := by
  refine List.rel_filter (fun f g hfg => Bool.eq_iff_iff.mp ?_) h
  obtain ⟨-, hocc, -⟩ := (Field.same_iff _ _).mp (hR f g hfg).same
  rw [accepts, accepts, hocc]

theorem forall₂_matching
    (h : ∀ a ∈ as, List.Forall₂ (t.Twins u) (lookup a.tag) (lookup' a.tag)) :
    List.Forall₂ (Match.Twins t u) (matching t lookup as) (matching u lookup' as) := by
  induction as with
  | nil => exact .nil
  | cons a as ih =>
      have hhead := forall₂_filter_accepts a (fun _ _ h => h) (h a (by simp))
      have hrest := ih fun b hb => h b (by simp [hb])
      rw [matching, matching, List.flatMap_cons, List.flatMap_cons]
      refine List.rel_append (List.rel_map (fun f g hfg => ?_) hhead) hrest
      exact ⟨rfl, hfg⟩

theorem forall₂_fields_matching
    (h : ∀ a ∈ as, List.Forall₂ (t.TwinsOn u E) (lookup a.tag) (lookup' a.tag)) :
    List.Forall₂ (t.TwinsOn u E) ((matching t lookup as).map Prod.snd)
      ((matching u lookup' as).map Prod.snd) := by
  induction as with
  | nil => exact .nil
  | cons a as ih =>
      have hhead := forall₂_filter_accepts a (fun _ _ h => h.2) (h a (by simp))
      have hrest := ih fun b hb => h b (by simp [hb])
      simp only [matching, List.flatMap_cons, List.map_append, List.map_map]
      exact List.rel_append (List.rel_map (fun _ _ h => h) hhead) hrest

theorem agrees_collectValues (hs : s.KeepsBuilt) (hv : v.Deterministic s)
    (ht : s.Leads False t) (hu : s.Leads False u) {ms ns : List Match}
    (h : List.Forall₂ (Match.Twins t u) ms ns) :
    Agrees t u (collectValues v ms) (collectValues v ns) fun _ _ x y => x = y := by
  induction ms generalizing ns t u with
  | nil =>
      cases h
      exact agrees_pure rfl
  | cons m ms ih =>
      obtain ⟨a, f⟩ := m
      obtain _ | @⟨_, ⟨b, g⟩, _, ns, ⟨hab, hfg⟩, hrest⟩ := h
      obtain rfl : a = b := hab
      refine agrees_field_bind ?_
      refine (determined_selectorOf "code" a t u ht hu).bind_same fun sel t₁ u₁ ht₁ hu₁ => ?_
      rw [← hfg.left.field_eq ht₁, ← hfg.right.field_eq hu₁]
      have hquery := agrees_queryField hs hv (ht.trans ht₁) (hu.trans hu₁) (hfg.mono ht₁ hu₁) sel
      refine hquery.bind_same fun x t₂ u₂ ht₂ hu₂ => ?_
      have hfound := ih (ht.trans (ht₁.trans ht₂)) (hu.trans (hu₁.trans hu₂))
        (hrest.imp fun _ _ h => ⟨h.1, h.2.mono (ht₁.trans ht₂) (hu₁.trans hu₂)⟩)
      exact hfound.bind_same fun found _ _ _ _ => agrees_pure rfl

theorem rel_head? {α β : Type} {R : α → β → Prop} {xs : List α} {ys : List β}
    (h : List.Forall₂ R xs ys) : Option.Rel R xs.head? ys.head? := by
  cases h with
  | nil => exact .none
  | cons hxy _ => exact .some hxy

theorem rel_find?_accepts (a : Alternative) (h : List.Forall₂ (t.Twins u) fs gs) :
    Option.Rel (t.Twins u) (fs.find? (accepts t a)) (gs.find? (accepts u a)) := by
  rw [← List.head?_filter, ← List.head?_filter]
  exact rel_head? (forall₂_filter_accepts a (fun _ _ h => h) h)

/-- The stores `t` and `u` are those in which the alternatives were looked up. -/
theorem agrees_firstValue (hs : s.KeepsBuilt) (hv : v.Deterministic s) (ht : s.Leads False t)
    (hu : s.Leads False u)
    (h : ∀ a ∈ as, List.Forall₂ (t.Twins u) (lookup a.tag) (lookup' a.tag)) {t' u' : Store}
    (ht' : t.Leads False t') (hu' : u.Leads False u') :
    Agrees t' u' (firstValue t lookup v as) (firstValue u lookup' v as) fun _ _ x y => x = y := by
  induction as generalizing t' u' with
  | nil => exact agrees_pure rfl
  | cons a as ih =>
      have hsel :=
        determined_selectorOf (s := s) "with_default" a t' u' (ht.trans ht') (hu.trans hu')
      refine hsel.bind_same fun sel t₁ u₁ ht₁ hu₁ => ?_
      have hfind := rel_find?_accepts a (h a (by simp))
      generalize (lookup a.tag).find? (accepts t a) = x at hfind ⊢
      generalize (lookup' a.tag).find? (accepts u a) = y at hfind ⊢
      dsimp only
      cases hfind with
      | none => exact ih (fun b hb => h b (by simp [hb])) (ht'.trans ht₁) (hu'.trans hu₁)
      | some hfg =>
          have hfg' := hfg.mono (ht'.trans ht₁) (hu'.trans hu₁)
          refine agrees_field_bind ?_
          have hquery := agrees_queryField hs hv (ht.trans (ht'.trans ht₁))
            (hu.trans (hu'.trans hu₁)) hfg' (sel.withDefault "?")
          exact hquery.bind_same fun _ _ _ _ _ => agrees_pure rfl

/-! ## Cardinality -/

/-- Whether two outcomes are of one kind and hold related matches in the same order. -/
inductive Outcome.Rel {α β : Type} (R : α → β → Prop) : Outcome α → Outcome β → Prop
  | single {x : Option α} {y : Option β} (h : Option.Rel R x y) : Rel R (.single x) (.single y)
  | several {xs : List α} {ys : List β} (h : List.Forall₂ R xs ys) :
    Rel R (.several xs) (.several ys)

structure Answer.Rel {α β : Type} (R : α → β → Prop) (x : Answer α) (y : Answer β) : Prop where
  outcome : x.outcome.Rel R y.outcome
  error : x.error = y.error

theorem rel_only? {α β : Type} {R : α → β → Prop} {xs : List α} {ys : List β}
    (h : List.Forall₂ R xs ys) : Option.Rel R (only? xs) (only? ys) := by
  cases h with
  | nil => exact .none
  | cons hxy hrest =>
      cases hrest with
      | nil => exact .some hxy
      | cons _ _ => exact .none

/-- A flag is held against the number of matches, which related ones have in common. -/
theorem rel_settle {α β : Type} {R : α → β → Prop} {xs : List α} {ys : List β}
    (h : List.Forall₂ R xs ys) (flag : Flag) (source : String) (kind : MatchKind)
    (errors : List QueryError) :
    (settle flag source kind xs errors).Rel R (settle flag source kind ys errors) where
  outcome := by
    cases flag with
    | one | optional => exact .single (rel_only? h)
    | some | any => exact .several h
  error := by
    have hshort : shortfall flag source kind xs.length = shortfall flag source kind ys.length := by
      rw [h.length_eq]
    exact congrArg (Option.or · errors.head?) hshort

theorem agrees_evaluateFields (hps : ∀ p ∈ ps, p.DeterministicOn E s) (ht : s.Leads False t)
    (hu : s.Leads False u) (l : Locator)
    (h : ∀ a ∈ l.alternatives, List.Forall₂ (t.TwinsOn u E) (lookup a.tag) (lookup' a.tag)) :
    Agrees t u (evaluateFields t lookup l ps) (evaluateFields u lookup' l ps) fun t u x y =>
      x.Rel (t.Twins u) y := by
  have hfound := forall₂_fields_matching h
  rw [evaluateFields, evaluateFields]
  split
  · exact (agrees_firstField hps ht hu hfound).bind fun x y _ _ _ _ hxy =>
      agrees_pure ⟨.single hxy, rfl⟩
  · exact (agrees_keepFields hps ht hu hfound).bind fun fs gs _ _ _ _ hfgs =>
      agrees_pure (rel_settle hfgs _ _ _ _)

theorem agrees_evaluateValues (hs : s.KeepsBuilt) (hv : v.Deterministic s)
    (ht : s.Leads False t) (hu : s.Leads False u) (l : Locator)
    (h : ∀ a ∈ l.alternatives, List.Forall₂ (t.Twins u) (lookup a.tag) (lookup' a.tag)) :
    Agrees t u (evaluateValues t lookup l v) (evaluateValues u lookup' l v) fun _ _ x y =>
      x = y := by
  rw [evaluateValues, evaluateValues]
  split
  · exact (agrees_firstValue hs hv ht hu h (.refl t) (.refl u)).bind_same fun _ _ _ _ _ =>
      agrees_pure rfl
  · exact (agrees_collectValues hs hv ht hu (forall₂_matching h)).bind_same fun _ _ _ _ _ =>
      agrees_pure rfl

end Query

end Biblio
