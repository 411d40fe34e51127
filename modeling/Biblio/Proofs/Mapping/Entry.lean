import Biblio.Proofs.Query.Quiet
import Biblio.Proofs.Store.Run

/-!
# Entries of mappings

A mapping runs its entries one after the other, so that running two tables in turn and
joining what they find is running the joined table. An entry is a query, which is resolved,
or a callback, whose faults are caught; what it contributes is told by its answer alone.
-/

namespace Biblio

open Biblio.Action

namespace Mapping

/-! ## Joined tables -/

namespace Findings

theorem append_empty (x : Findings) : x.append {} = x := by
  rw [append, List.append_nil, List.append_nil]

theorem append_assoc (x y z : Findings) : (x.append y).append z = x.append (y.append z) := by
  simp only [append, List.append_assoc]

end Findings

variable {target : Datum} {resolve : Resolver}

/-- The entries of a joined table are run in turn. -/
theorem collect_append (target : Datum) (resolve : Resolver) (es ds : List (Arg × Arg)) :
    collect target resolve (es ++ ds) = do
      let x ← collect target resolve es
      let y ← collect target resolve ds
      return x.append y := by
  induction es with
  | nil =>
      rw [List.nil_append, collect, pure_bind]
      exact (bind_pure _).symm
  | cons e es ih =>
      obtain ⟨key, entry⟩ := e
      simp only [List.cons_append, collect, ih, bind_assoc, pure_bind, Findings.append_assoc]

theorem collect_singleton (target : Datum) (resolve : Resolver) (key entry : Arg) :
    collect target resolve [(key, entry)] = do
      let x ← answer target resolve key entry
      return finding (← get) key.forget x.1 x.2 := by
  simp only [collect, pure_bind, Findings.append_empty]

/-- An entry finds what its answer contributes. -/
theorem exec_collect_singleton (target : Datum) (resolve : Resolver) (key entry : Arg)
    (s : Store) :
    (collect target resolve [(key, entry)]).exec s =
      match (answer target resolve key entry).exec s with
      | (.ok x, t) => (.ok (finding t key.forget x.1 x.2), t)
      | (.error fault, t) => (.error fault, t) := by
  rw [collect_singleton, exec_bind]
  rcases (answer target resolve key entry).exec s with ⟨_ | x, t⟩ <;> rfl

/-! ## Queries -/

/-- The entries that are read as a query of a record: a text, and a list or a tuple of a text
and further arguments. -/
inductive Gives : Arg → RecordQuery → Prop
  | text (locator : String) : Gives (.text locator) { locator }
  | list {xs : List Arg} {q : RecordQuery} (h : recordQuery? xs = some q) : Gives (.list xs) q
  | tuple {xs : List Arg} {q : RecordQuery} (h : recordQuery? xs = some q) : Gives (.tuple xs) q

variable {entry : Arg} {q : RecordQuery}

theorem Gives.exec_recordQuery (h : Gives entry q) (s : Store) :
    (recordQuery entry).exec s = (.ok q, s) := by
  cases h with
  | text => rfl
  | @list xs _ h | @tuple xs _ h =>
      have hitems : ∀ v : Arg, s.items? v = some xs → (Arg.items v).exec s = (.ok xs, s) := by
        intro v hv
        rw [Arg.items, exec_get_bind, hv]
        rfl
      rw [recordQuery, exec_bind_of (hitems _ rfl), h]
      · rfl
      · exact fun _ => by simp

theorem Gives.answer_eq (h : Gives entry q) (target : Datum) (resolve : Resolver) (key : Arg) :
    answer target resolve key entry =
      resolve entry >>= fun x => pure (x.1, x.2.map Value.error) := by
  cases h <;> rfl

/-- What a query contributes to a mapping is its result, unless it is empty, and its
error. -/
theorem Gives.exec_map (h : Gives entry q) (r : RecordRef) (key : Arg) (s : Store) :
    (r.map (.table [(key, entry)])).exec s =
      match (r.query (.text q.locator) q.subfield q.filters).exec s with
      | (.ok x, t) => (.ok (finding t key.forget x.1 (x.2.map Value.error)), t)
      | (.error fault, t) => (.error fault, t) := by
  have hmap : r.map (.table [(key, entry)]) =
      collect (.record r) r.resolve [(key, entry)] := rfl
  rw [hmap, exec_collect_singleton, h.answer_eq, RecordRef.resolve, bind_assoc,
    exec_bind_of (h.exec_recordQuery s), exec_bind]
  rcases (r.query (.text q.locator) q.subfield q.filters).exec s with ⟨_ | x, t⟩ <;> rfl

/-- Whether a result is missing or has no items: the empty text, the empty list and the record
without fields. A field without subfields is a result. -/
inductive IsMissing (s : Store) : Datum → Prop
  | null : IsMissing s .null
  | text : IsMissing s (.text "")
  | list : IsMissing s (.list [])
  | record {r : RecordRef} (h : (s.record r).fields = []) : IsMissing s (.record r)

inductive IsResult : Datum → Prop
  | null : IsResult .null
  | text (x : String) : IsResult (.text x)
  | texts (xs : List String) : IsResult (.texts xs)
  | field (f : FieldRef) : IsResult (.field f)
  | record (r : RecordRef) : IsResult (.record r)

theorem isResult_ofOption {α : Type} {f : α → Datum} (hf : ∀ x, IsResult (f x)) (x : Option α) :
    IsResult (.ofOption f x) := by
  cases x with
  | none => exact .null
  | some x => exact hf x

theorem IsResult.isEmpty_iff {d : Datum} (h : IsResult d) (s : Store) :
    isEmpty s d = true ↔ IsMissing s d := by
  constructor
  · intro hd
    cases h with
    | null => exact .null
    | text x =>
        obtain rfl : x = "" := by simpa [isEmpty, Store.length?] using hd
        exact .text
    | texts xs =>
        obtain rfl : xs = [] := by simpa [isEmpty, Value.texts, Store.length?] using hd
        exact .list
    | field f => cases hd
    | record r => exact .record (by simpa [isEmpty, Store.length?] using hd)
  · intro hd
    cases hd with
    | null | text | list => rfl
    | record hfields => simp [isEmpty, Store.length?, hfields]

/-- Whether a result and an error are filed under a key: the error, if there is one, and the
result, unless it is missing. -/
structure Files (s : Store) (key result : Datum) (error : Option QueryError) (found : Findings) :
    Prop where
  errors : found.errors = error.toList.map fun e => (key, .error e)
  missing : IsMissing s result → found.values = []
  present : ¬ IsMissing s result → found.values = [(key, result)]

theorem IsResult.files_finding {d : Datum} (h : IsResult d) (s : Store) (key : Datum)
    (e : Option QueryError) : Files s key d e (finding s key d (e.map Value.error)) where
  errors := by cases e <;> rfl
  missing := fun hd => if_pos ((h.isEmpty_iff s).mpr hd)
  present := fun hd => if_neg fun hempty => hd ((h.isEmpty_iff s).mp hempty)

/-! ## Callbacks -/

/-- A callback and a step that are given as an entry are called with the object that is
mapped. -/
theorem answer_of_callable {f : Callback} (hf : Chain.callable? entry = some f) (key : Arg) :
    answer target resolve key entry = guarded key f target := by
  cases entry with
  | callback g =>
      obtain rfl := Option.some.inj hf
      rfl
  | step st =>
      obtain rfl := Option.some.inj hf
      rfl
  | _ => cases hf

/-- The answer of a callback, with a fault of its own turned into an error. -/
theorem exec_guarded (key : Arg) (f : Callback) (target : Datum) (s : Store) :
    (guarded key f target).exec s =
      match (f target).exec s with
      | (.ok v, t) => (.ok (v, none), t)
      | (.error fault, t) => (.ok (.null, some (.failure key.forget fault)),
          t.withNote (.failedCallback (t.shown key) fault.message)) := by
  rw [guarded, exec_tryCatch, exec_bind]
  rcases (f target).exec s with ⟨fault | v, t⟩ <;> rfl

/-- A callback that fails does not end the mapping. It leaves an error under its key, which
keeps the fault, and a note. -/
theorem exec_collect_fault {key : Arg} {f : Callback} (hf : Chain.callable? entry = some f)
    {s t : Store} {fault : Fault} (h : (f target).exec s = (.error fault, t)) :
    (collect target resolve [(key, entry)]).exec s =
      (.ok { errors := [(key.forget, .failure key.forget fault)] },
        t.withNote (.failedCallback (t.shown key) fault.message)) := by
  rw [exec_collect_singleton, answer_of_callable hf, exec_guarded, h]
  rfl

end Mapping

namespace RecordRef

variable {r : RecordRef} {s t : Store}

theorem isResult_valueResult (x : Query.Outcome String) : Mapping.IsResult (valueResult x) := by
  cases x with
  | single x => exact Mapping.isResult_ofOption .text x
  | several xs => exact .texts xs

theorem isResult_of_fieldResult {x : Query.Outcome FieldRef} {d : Datum}
    (h : (fieldResult x).exec s = (.ok d, t)) : Mapping.IsResult d := by
  cases x with
  | single x =>
      obtain ⟨rfl, -⟩ := exec_pure_eq_ok h
      exact Mapping.isResult_ofOption .field x
  | several fs =>
      obtain ⟨q, u, -, h⟩ := exec_bind_eq_ok h
      obtain ⟨rfl, -⟩ := exec_pure_eq_ok h
      exact .record q

theorem isResult_of_query {locator subfield filters : Arg} {d : Datum} {e : Option QueryError}
    (h : (r.query locator subfield filters).exec s = (.ok (d, e), t)) : Mapping.IsResult d := by
  obtain ⟨l, s₁, -, h⟩ := exec_bind_eq_ok h
  obtain ⟨⟨ps, sieve⟩, s₂, -, h⟩ := exec_bind_eq_ok h
  rw [exec_get_bind] at h
  dsimp only at h
  split at h
  · obtain ⟨answer, s₃, -, h⟩ := exec_bind_eq_ok h
    obtain ⟨y, s₄, hresult, h⟩ := exec_bind_eq_ok h
    obtain ⟨hpair, -⟩ := exec_pure_eq_ok h
    obtain ⟨rfl, -⟩ := Prod.mk.inj hpair
    exact isResult_of_fieldResult hresult
  · obtain ⟨answer, s₃, -, h⟩ := exec_bind_eq_ok h
    obtain ⟨hpair, -⟩ := exec_pure_eq_ok h
    obtain ⟨rfl, -⟩ := Prod.mk.inj hpair
    exact isResult_valueResult _

end RecordRef

end Biblio
