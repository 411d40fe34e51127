import Biblio.Proofs.Filter.Leaves
import Biblio.Proofs.Query.Cardinality
import Biblio.Proofs.Query.Located

/-!
# Filtering and locating

Conditions can be put to the fields of a record before a locator is run, while it is run, or to
what it has found. If they always come to the same verdict on a field, it makes no difference:
the same fields are found in the same order. For a locator of values, what is left are the
contributions of those matches whose fields meet the conditions.
-/

namespace Biblio

open Biblio.Action

variable {s t : Store}

/-! ## Conditions that are given as arguments -/

namespace Arg

/-- Whether an argument can be called as a condition and always comes to the same verdict on each
of certain fields. -/
structure IsJudge (s : Store) (fs : List FieldRef) (v : Arg) : Prop where
  callable : (Chain.callable? v).isSome = true
  judges : v.attempt.Judges s fs

theorem predicate_of_callable {v : Arg} (h : (Chain.callable? v).isSome = true) :
    v.predicate = pure v.attempt := by
  obtain ⟨f, hf⟩ := Option.isSome_iff_exists.mp h
  rw [predicate, attempt, call, hf]

theorem exec_predicates_list {vs : List Arg} (h : ∀ v ∈ vs, (Chain.callable? v).isSome = true)
    (t : Store) : (predicates (.list vs)).exec t = (.ok (vs.map attempt), t) := by
  have hmap : vs.mapM predicate = pure (vs.map attempt) := by
    induction vs with
    | nil => rfl
    | cons v vs ih =>
        have hrest := ih fun w hw => h w (by simp [hw])
        rw [List.mapM_cons, predicate_of_callable (h v (by simp)), hrest]
        rfl
  change (vs.mapM predicate).exec t = _
  rw [hmap, exec_pure]

end Arg

/-! ## Contributions -/

/-- What a chain of one callback keeps is told by the answer of the callback. -/
theorem Chain.kept_each {f : Callback} {x : String} {d : Datum}
    (h : (f (.text x)).exec s = (.ok d, s)) :
    kept s [.each f] x = (Verdict.ofDatum d).apply x := by
  rw [kept, apply, Step.call, value?, exec_bind_of h]
  cases (Verdict.ofDatum d).apply x <;> rfl

/-- Filters that are accepted give the same chain in every store. -/
theorem Chain.exec_ofArg_of_exec {filters : Arg} {c : Chain}
    (h : (ofArg filters).exec s = (.ok c, s)) (t : Store) :
    (ofArg filters).exec t = (.ok c, t) := by
  rw [ofArg, exec_get_bind] at h ⊢
  cases hbuild : build s filters with
  | error e =>
      rw [hbuild] at h
      cases h
  | ok d =>
      rw [hbuild] at h
      obtain rfl := Except.ok.inj (congrArg Prod.fst h)
      have hleaves := ((isBuiltFromLeaves s filters).ok_iff d).mp hbuild
      rw [((isBuiltFromLeaves t filters).ok_iff d).mpr hleaves]
      rfl

/-- Actions that end alike in all stores are the same. -/
theorem Action.ext_exec {α : Type} {a b : Action α} (h : ∀ s, a.exec s = b.exec s) : a = b :=
  funext h

namespace Query

/-- What matches contribute to a query of values, one match after the other. The filters are read
once in front of that, as they are if there is no match. -/
def contributions (filters : Arg) (ms : List Match) : Action Datum := do
  let _ ← Chain.ofArg filters
  let found ← ms.mapM fun m => m.2.query (m.1.subfield.getD .all) filters
  return .texts (found.flatMap Prod.fst)

variable {filters : Arg} {c : Chain} {ms : List Match}

theorem query_eq (hc : ∀ t, (Chain.ofArg filters).exec t = (.ok c, t)) (f : FieldRef)
    (sel : Selector) :
    f.query sel filters = Action.field f >>= fun x => queryField x sel c.sieve := by
  refine Action.ext_exec fun t => ?_
  rw [f.exec_query_filters (hc t), exec_bind_of (exec_field f t)]

theorem collectValues_eq (hc : ∀ t, (Chain.ofArg filters).exec t = (.ok c, t))
    (hsel : ∀ m ∈ ms, m.1.subfield ≠ none) :
    collectValues c.sieve ms = do
      let found ← ms.mapM fun m => m.2.query (m.1.subfield.getD .all) filters
      return (found.flatMap Prod.fst, found.filterMap Prod.snd) := by
  induction ms with
  | nil => rfl
  | cons m ms ih =>
      have hm : selectorOf "code" m.1 = pure (m.1.subfield.getD .all) :=
        Action.ext_exec fun t => exec_selectorOf (hsel m (by simp)) "code"
      have herrors : ∀ (x : List String × Option QueryError) found,
          x.2.toList ++ found.filterMap Prod.snd = (x :: found).filterMap Prod.snd := by
        rintro ⟨-, e⟩ found
        cases e <;> rfl
      rw [collectValues, ih fun n hn => hsel n (by simp [hn]), List.mapM_cons, query_eq hc]
      simp [hm, herrors]

/-- A query of values collects what its matches contribute. -/
theorem exec_collectValues_eq_contributions (hsel : ∀ m ∈ ms, m.1.subfield ≠ none) (t : Store) :
    (Chain.ofArg filters >>= fun c => collectValues c.sieve ms >>= fun x =>
      pure (.texts x.1)).exec t = (contributions filters ms).exec t := by
  rw [contributions]
  rcases Chain.exec_ofArg filters t with ⟨c, hc⟩ | ⟨e, he⟩
  · rw [exec_bind_of hc, exec_bind_of hc, collectValues_eq (Chain.exec_ofArg_of_exec hc) hsel]
    simp only [bind_assoc, pure_bind]
  · rw [exec_bind, exec_bind, he]

/-- Whether filters are accepted and make certain matches always contribute the same values. -/
structure ContributeAlike (s : Store) (filters : Arg) (ms : List Match)
    (found : Match → List String) : Prop where
  accepted : ∃ c, (Chain.ofArg filters).exec s = (.ok c, s)
  alike : ∀ m ∈ ms, (m.2.query (m.1.subfield.getD .all) filters).AlwaysGives s
    fun x _ => x.1 = found m

theorem ContributeAlike.alwaysGives {ns : List Match} {found : Match → List String}
    (h : ContributeAlike s filters ms found) (hns : ns ⊆ ms) :
    (contributions filters ns).AlwaysGives s fun x _ => x = .texts (ns.flatMap found) := by
  obtain ⟨c, hc⟩ := h.accepted
  intro t hst
  refine gives_bind_of (Chain.exec_ofArg_of_exec hc t) ?_
  refine (alwaysGives_mapM (fun m hm => h.alike m (hns hm)) t hst).bind fun xss u _ hxss => ?_
  exact gives_pure (by rw [List.flatMap_def, List.flatMap_def, hxss])

end Query

namespace RecordRef

variable {r : RecordRef} {l : Locator} {filters : Arg}

/-- All matches of a locator of values contribute one after the other. -/
theorem exec_all_eq_contributions (hs : s.IsIndexed) (hl : l.wantField = false)
    (hsel : ∀ a ∈ l.alternatives, a.subfield ≠ none) :
    (r.all (.locator l) .null filters).exec s =
      (Query.contributions filters (s.scan r l.alternatives)).exec s := by
  have hscan : ∀ m ∈ s.scan r l.alternatives, m.1.subfield ≠ none := fun m hm =>
    hsel m.1 (Store.mem_scan.mp hm).1
  rw [← Query.exec_collectValues_eq_contributions hscan]
  change (r.allMatches l filters).exec s = _
  rw [allMatches, filtersFor, if_neg (by simp [hl])]
  rcases Chain.exec_ofArg filters s with ⟨c, hc⟩ | ⟨e, he⟩
  · rw [bind_assoc, exec_bind_of hc, exec_bind_of hc, pure_bind, exec_get_bind]
    dsimp only
    rw [if_neg (by simp [hl]), hs.matching_eq_scan]
  · rw [bind_assoc, exec_bind, exec_bind, he]

end RecordRef

/-! ## Matches that are left -/

namespace Store

/-- The matches in what is left of a record are those whose fields are left. -/
theorem IsIndexed.scan_of_filter (hs : s.IsIndexed) (hst : s.Leads False t) {r q : RecordRef}
    {b : FieldRef → Bool} (hq : (t.record q).fields = (s.record r).fields.filter b)
    (as : List Alternative) : t.scan q as = (s.scan r as).filter fun m => b m.2 := by
  rw [scan, scan, List.filter_flatMap]
  congr 1
  funext a
  rw [hq, List.filter_map, List.filter_filter, List.filter_filter]
  congr 1
  apply List.filter_congr
  intro f hf
  have hlabel : decide (a.Matches (t.field f)) = decide (a.Matches (s.field f)) :=
    decide_eq_decide.mpr ((hs.hasField r f hf).matches_iff hst a)
  rw [hlabel, Bool.and_comm]
  rfl

end Store

/-! ## The ways to filter and to locate -/

namespace RecordRef

variable {r : RecordRef} {vs : List Arg} {l : Locator} {filters : Arg}

section

variable (hs : s.IsIndexed) (hr : s.HasRecord r)
  (hvs : ∀ v ∈ vs, v.IsJudge s (s.record r).fields)
include hs hr hvs

theorem givesRecordOf_filter :
    (Request.filter vs (.record r)).GivesRecordOf s
      ((s.record r).fields.filter (Query.meets s (vs.map Arg.attempt))) := fun _ hst =>
  Request.gives_filter (hs.hasField r) hst (List.Subset.refl _) (isRecordOf hr hst) fun v hv =>
    (hvs v hv).judges

/-- Conditions are put to fields before, after or while all matches are looked for. -/
theorem giveSame_locate (hl : l.wantField = true) :
    GiveSame s
      (s.located l.alternatives ((s.record r).fields.filter (Query.meets s (vs.map Arg.attempt))))
      [Request.filter vs (.record r) >>= Request.all (.locator l) .null,
        Request.all (.locator l) .null (.record r) >>= Request.filter vs,
        Request.all (.locator l) (.list vs) (.record r)] := by
  have hfs := hs.hasField r
  have hself := List.Subset.refl (s.record r).fields
  have hbefore := (givesRecordOf_filter hs hr hvs).bind fun v t hst hv =>
    Request.gives_all_null hfs hst (fun _ => List.mem_of_mem_filter) hs hv hl
  have hafter : (Request.all (.locator l) .null (.record r) >>= Request.filter vs).GivesRecordOf s
      ((s.located l.alternatives (s.record r).fields).filter
        (Query.meets s (vs.map Arg.attempt))) := fun t hst =>
    (Request.gives_all_null hfs hst hself hs (isRecordOf hr hst) hl).bind fun v u htu hv =>
      Request.gives_filter hfs (hst.trans htu) (s.located_subset _ _) hv fun v hv =>
        (hvs v hv).judges
  have hwithin : (Request.all (.locator l) (.list vs) (.record r)).GivesRecordOf s
      (s.located l.alternatives
        ((s.record r).fields.filter (Query.meets s (vs.map Arg.attempt)))) := fun t hst =>
    Request.gives_all hfs hst hself hs (isRecordOf hr hst) hl
      (Arg.exec_predicates_list (fun v hv => (hvs v hv).callable) t)
      (by simpa using fun v hv => (hvs v hv).judges)
  rw [s.filter_located] at hafter
  exact giveSame_of_givesRecordOf (by simpa using ⟨hbefore, hafter, hwithin⟩)

/-- Conditions are put to fields before or while the first match is looked for. -/
theorem alwaysGives_first_locate (hl : l.wantField = true) :
    ∀ a ∈ [Request.filter vs (.record r) >>= Request.first (.locator l) .null,
        Request.first (.locator l) (.list vs) (.record r)],
      a.AlwaysGives s fun x _ => x = .ofOption .field
        (s.located l.alternatives
          ((s.record r).fields.filter (Query.meets s (vs.map Arg.attempt)))).head? := by
  have hfs := hs.hasField r
  have hbefore := (givesRecordOf_filter hs hr hvs).bind fun v t hst hv =>
    Request.gives_first_null hfs hst (fun _ => List.mem_of_mem_filter) hs hv hl
  have hwithin : (Request.first (.locator l) (.list vs) (.record r)).AlwaysGives s fun x _ =>
      x = .ofOption .field (s.located l.alternatives
        ((s.record r).fields.filter (Query.meets s (vs.map Arg.attempt)))).head? := fun t hst =>
    Request.gives_first hfs hst (List.Subset.refl _) hs (isRecordOf hr hst) hl
      (Arg.exec_predicates_list (fun v hv => (hvs v hv).callable) t)
      (by simpa using fun v hv => (hvs v hv).judges)
  simpa using ⟨hbefore, hwithin⟩

/-- The values of what is left are contributed by the matches whose fields are left. -/
theorem alwaysGives_filter_values (hl : l.wantField = false)
    (hsel : ∀ a ∈ l.alternatives, a.subfield ≠ none) (filters : Arg) :
    (Request.filter vs (.record r)).AlwaysGives s fun x u =>
      (Request.all (.locator l) filters x).exec u =
        (Query.contributions filters ((s.scan r l.alternatives).filter fun m =>
          Query.meets s (vs.map Arg.attempt) m.2)).exec u := by
  intro t hst
  refine (givesRecordOf_filter hs hr hvs t hst).imp fun x u htu hx => ?_
  obtain ⟨q, rfl, -, hfields⟩ := hx
  rw [Request.exec_all_record, exec_all_eq_contributions (hs.mono (hst.trans htu)) hl hsel,
    hs.scan_of_filter (hst.trans htu) hfields]

end

/-- The values of a record are contributed by the matches in it, now and at any later time. -/
theorem exec_all_later (hs : s.IsIndexed) (hr : s.HasRecord r) (hst : s.Leads False t)
    (hl : l.wantField = false) (hsel : ∀ a ∈ l.alternatives, a.subfield ≠ none) :
    (Request.all (.locator l) filters (.record r)).exec t =
      (Query.contributions filters (s.scan r l.alternatives)).exec t := by
  have hfields : (t.record r).fields = (s.record r).fields.filter fun _ => true := by
    rw [hr.record_eq hst, List.filter_true]
  rw [Request.exec_all_record, exec_all_eq_contributions (hs.mono hst) hl hsel,
    hs.scan_of_filter hst hfields, List.filter_true]

end RecordRef

namespace Store

/-- Filtering and locating commute. Conditions may be put to the fields of a record before all
matches of a locator are looked for, to the matches that were found, or meanwhile: the records
are equal and of the same fields, and the first match is the first of these fields. For a
locator of values what is left are the contributions of the matches whose fields meet the
conditions, in the same order, whatever the filters of the values are. -/
theorem Reachable.filter_locate_comm (h : s.Reachable) {r : RecordRef} (hr : s.HasRecord r)
    {vs : List Arg} (hvs : ∀ v ∈ vs, v.IsJudge s (s.record r).fields) {t : String}
    {subfield : Option String} {p : Locator} (hp : Locator.parse t subfield = .ok p) :
    let meets := Query.meets s (vs.map Arg.attempt)
    let filtered := Request.filter vs (.record r)
    (p.wantField = true →
      let fs := s.located p.alternatives ((s.record r).fields.filter meets)
      GiveSame s fs
        [filtered >>= Request.all (.locator p) .null,
          Request.all (.locator p) .null (.record r) >>= Request.filter vs,
          Request.all (.locator p) (.list vs) (.record r)] ∧
        ∀ a ∈ [filtered >>= Request.first (.locator p) .null,
            Request.first (.locator p) (.list vs) (.record r)],
          a.AlwaysGives s fun x _ => x = .ofOption .field fs.head?) ∧
    (p.wantField = false → ∀ filters : Arg,
      let ms := s.scan r p.alternatives
      let left := ms.filter fun m => meets m.2
      filtered.AlwaysGives s (fun x u => (Request.all (.locator p) filters x).exec u =
        (Query.contributions filters left).exec u) ∧
      ∀ found, Query.ContributeAlike s filters ms found →
        (Request.all (.locator p) filters (.record r)).AlwaysGives s
          (fun x _ => x = .texts (ms.flatMap found)) ∧
        (filtered >>= Request.all (.locator p) filters).AlwaysGives s
          fun x _ => x = .texts (left.flatMap found)) := by
  have hs := h.isIndexed
  refine ⟨fun hl => ?_, fun hl filters => ?_⟩
  · exact ⟨RecordRef.giveSame_locate hs hr hvs hl, RecordRef.alwaysGives_first_locate hs hr hvs hl⟩
  · have hsel := (Locator.wellFormed_of_parse hp).values hl
    have hleft := RecordRef.alwaysGives_filter_values hs hr hvs hl hsel filters
    refine ⟨hleft, fun found hfound => ⟨fun t hst => ?_, hleft.bind fun x u hsu hx => ?_⟩⟩
    · rw [Gives, RecordRef.exec_all_later hs hr hst hl hsel]
      exact hfound.alwaysGives (List.Subset.refl _) t hst
    · rw [Gives, hx]
      exact hfound.alwaysGives (fun _ => List.mem_of_mem_filter) u hsu

/-- A condition on tags always comes to the same verdict. -/
theorem isJudge_tagStarts {fs : List FieldRef} (hfs : ∀ f ∈ fs, s.HasField f) (x : String) :
    Arg.IsJudge s fs (.callback (Builtin.tagStarts x).call) where
  callable := rfl
  judges := by
    intro f hf
    refine ⟨x.toList.isPrefixOf (s.field f).tag.toList, fun t hst => ?_⟩
    rw [← ((hfs f hf).sameLabel hst).1]
    exact gives_of_exec rfl rfl

theorem contributeAlike_suffix (hs : s.IsIndexed) {r : RecordRef} (hr : s.HasRecord r)
    (as : List Alternative) (x : String) :
    Query.ContributeAlike s (.callback (Builtin.suffix x).call) (s.scan r as) fun m =>
      (Query.contribution s (Chain.kept s [.each (Builtin.suffix x).call]) m).1 where
  accepted := ⟨_, rfl⟩
  alike := by
    intro m hm t hst
    obtain ⟨-, hf, -⟩ := mem_scan.mp hm
    have hmem : m.2 ∈ (t.record r).fields := by rwa [hr.record_eq hst]
    refine gives_of_exec (FieldRef.exec_query (quietOnValues_suffix t r x) hmem _) ?_
    have hkept : Chain.kept t [.each (Builtin.suffix x).call] =
        Chain.kept s [.each (Builtin.suffix x).call] := by
      funext y
      rw [Chain.kept_each rfl, Chain.kept_each rfl]
    rw [(hs.hasField r m.2 hf).field_eq hst, hkept]
    rfl

/-- Of the authors those of one tag are left, however they are looked for, and of the names
theirs. -/
theorem filter_locate_comm_people :
    let others : Arg := .callback (Builtin.tagStarts "028C").call
    people.Reachable ∧ people.HasRecord ⟨0⟩ ∧
      GiveSame people [⟨0⟩]
        [Request.filter [others] (.record ⟨0⟩) >>= Request.all (.locator authors) .null,
          Request.all (.locator authors) .null (.record ⟨0⟩) >>= Request.filter [others],
          Request.all (.locator authors) (.list [others]) (.record ⟨0⟩)] ∧
      (Request.filter [others] (.record ⟨0⟩) >>= Request.all (.locator authorNames)
        (.callback (Builtin.suffix ".").call)).AlwaysGives people
          fun x _ => x = .texts ["John.", "Doe."] := by
  intro others
  have hr : people.HasRecord ⟨0⟩ := by decide
  have hs := reachable_people.isIndexed
  have hvs : ∀ v ∈ [others], v.IsJudge people (people.record ⟨0⟩).fields := by
    simpa using isJudge_tagStarts (hs.hasField ⟨0⟩) "028C"
  have hauthors : Locator.parse "028A|028C/xx" = .ok authors := rfl
  have hnames : Locator.parse "028A$a|028C/xx$a" = .ok authorNames := rfl
  have hfields := ((reachable_people.filter_locate_comm hr hvs hauthors).1 rfl).1
  have hvalues := ((reachable_people.filter_locate_comm hr hvs hnames).2 rfl _).2 _
    (contributeAlike_suffix hs hr authorNames.alternatives ".")
  exact ⟨reachable_people, hr, hfields, hvalues.2⟩

end Store

end Biblio
