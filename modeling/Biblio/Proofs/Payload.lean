import Biblio.Field.Basic
import Biblio.Proofs.Ends

/-!
# The grammar of payloads

A payload is a sequence of groups, each a dollar sign, a code and a raw value, in
which dollar signs stand in pairs only. `IsRaw` and `IsDivision` are this grammar as
relations on texts, apart from any reader or writer. The reader `decode?` accepts the
texts of the grammar and a lone line feed, and nothing else; a payload has one
division into groups, and what is read from it are the groups of the division with
their pairs of dollar signs read as one. Behind it stands that the reader accepts
exactly what `encode` writes.
-/

namespace Biblio

namespace Payload

/-! ## Codes -/

theorem isBlank_of_isCode {c : Char} (h : isCode c = true) : Text.isBlank c = false := by
  have hc : (97 ≤ c.toNat ∧ c.toNat ≤ 122) ∨ (65 ≤ c.toNat ∧ c.toNat ≤ 90) ∨
      (48 ≤ c.toNat ∧ c.toNat ≤ 57) := by
    simpa [isCode, Char.le_def, UInt32.le_iff_toNat_le, or_assoc] using h
  exact Text.isBlank_of_ascii (by omega) (by omega)

theorem isBreak_of_isCode {c : Char} (h : isCode c = true) : Text.isBreak c = false := by
  by_contra hbreak
  have hblank := Text.isBlank_of_isBreak (by simpa using hbreak : Text.isBreak c = true)
  rw [isBlank_of_isCode h] at hblank
  exact absurd hblank (by simp)

/-! ## Raw values -/

/-- The values as they stand in a payload: characters other than the dollar sign and
pairs of dollar signs, in any order and number. -/
inductive IsRaw : List Char → Prop
  | nil : IsRaw []
  | plain {c : Char} {cs : List Char} (hc : c ≠ '$') (h : IsRaw cs) : IsRaw (c :: cs)
  | pair {cs : List Char} (h : IsRaw cs) : IsRaw ('$' :: '$' :: cs)

/-- The text with each pair of dollar signs, from left to right, read as one. -/
def unescape : List Char → List Char
  | [] => []
  | '$' :: '$' :: cs => '$' :: unescape cs
  | c :: cs => c :: unescape cs

@[simp] theorem unescape_nil : unescape [] = [] := rfl

@[simp] theorem unescape_pair (cs : List Char) :
    unescape ('$' :: '$' :: cs) = '$' :: unescape cs := rfl

theorem unescape_plain {c : Char} (h : c ≠ '$') (cs : List Char) :
    unescape (c :: cs) = c :: unescape cs := by
  rw [unescape]
  rintro ds rfl
  exact absurd rfl h

@[simp] theorem encodeValue_dollar (cs : List Char) :
    encodeValue ('$' :: cs) = '$' :: '$' :: encodeValue cs := rfl

theorem encodeValue_plain {c : Char} (h : c ≠ '$') (cs : List Char) :
    encodeValue (c :: cs) = c :: encodeValue cs := by
  simp [encodeValue, h]

theorem encodeValue_append (v w : List Char) :
    encodeValue (v ++ w) = encodeValue v ++ encodeValue w := by
  induction v with
  | nil => rfl
  | cons c v ih => by_cases hc : c = '$' <;> simp [encodeValue, hc, ih]

/-- What is written for a value is raw. -/
theorem isRaw_encodeValue (v : List Char) : IsRaw (encodeValue v) := by
  induction v with
  | nil => exact .nil
  | cons c v ih =>
      by_cases hc : c = '$'
      · subst hc
        exact .pair ih
      · rw [encodeValue_plain hc]
        exact .plain hc ih

theorem unescape_encodeValue (v : List Char) : unescape (encodeValue v) = v := by
  induction v with
  | nil => rfl
  | cons c v ih =>
      by_cases hc : c = '$'
      · subst hc
        rw [encodeValue_dollar, unescape_pair, ih]
      · rw [encodeValue_plain hc, unescape_plain hc, ih]

/-- A raw value is what is written for the value that it is read as. -/
theorem IsRaw.encodeValue_unescape {cs : List Char} (h : IsRaw cs) :
    encodeValue (unescape cs) = cs := by
  induction h with
  | nil => rfl
  | plain hc _ ih => rw [unescape_plain hc, encodeValue_plain hc, ih]
  | pair _ ih => rw [unescape_pair, encodeValue_dollar, ih]

theorem IsRaw.isEmpty_unescape {cs : List Char} (h : IsRaw cs) :
    (unescape cs).isEmpty = cs.isEmpty := by
  cases h with
  | nil => rfl
  | plain hc _ => rw [unescape_plain hc]; rfl
  | pair _ => rfl

theorem encode_payload (gs : List Group) : encode gs = [] ∨ (encode gs).head? = some '$' := by
  cases gs with
  | nil => exact .inl rfl
  | cons g gs => exact .inr rfl

/-! ## Divisions -/

/-- The payload `cs` is the concatenation of the groups `gs`, with raw values. -/
inductive IsDivision : List Char → List Group → Prop
  | nil : IsDivision [] []
  | cons {c : Char} {raw cs : List Char} {gs : List Group} (hc : isCode c = true)
      (hraw : IsRaw raw) (h : IsDivision cs gs) :
      IsDivision ('$' :: c :: (raw ++ cs)) ((c, raw) :: gs)

def unescapeAll (gs : List Group) : List Group :=
  gs.map fun g => (g.1, unescape g.2)

def escapeAll (gs : List Group) : List Group :=
  gs.map fun g => (g.1, encodeValue g.2)

@[simp] theorem unescapeAll_escapeAll (gs : List Group) : unescapeAll (escapeAll gs) = gs := by
  simp [unescapeAll, escapeAll, Function.comp_def, unescape_encodeValue]

theorem isDivision_encode {gs : List Group} (h : ∀ g ∈ gs, isCode g.1 = true) :
    IsDivision (encode gs) (escapeAll gs) := by
  induction gs with
  | nil => exact .nil
  | cons g gs ih =>
      have hg : isCode g.1 = true := h g (by simp)
      exact .cons hg (isRaw_encodeValue g.2) (ih fun x hx => h x (by simp [hx]))

namespace IsDivision

variable {cs : List Char} {gs : List Group}

theorem isCode_of_mem (h : IsDivision cs gs) : ∀ g ∈ gs, isCode g.1 = true := by
  induction h with
  | nil => simp
  | cons hc _ _ ih => simpa [hc] using ih

theorem isRaw_of_mem (h : IsDivision cs gs) : ∀ g ∈ gs, IsRaw g.2 := by
  induction h with
  | nil => simp
  | cons _ hraw _ ih => simpa [hraw] using ih

theorem eq_encode (h : IsDivision cs gs) : cs = encode (unescapeAll gs) := by
  induction h with
  | nil => rfl
  | cons _ hraw _ ih =>
      rw [unescapeAll, List.map_cons, encode_cons, encodeGroup, hraw.encodeValue_unescape,
        ← unescapeAll, ← ih]
      rfl

theorem escapeAll_unescapeAll (h : IsDivision cs gs) : escapeAll (unescapeAll gs) = gs := by
  induction h with
  | nil => rfl
  | cons _ hraw _ ih =>
      simp only [unescapeAll, escapeAll, List.map_cons] at ih ⊢
      rw [hraw.encodeValue_unescape, ih]

end IsDivision

/-! ## Reading accepts exactly what is written -/

theorem decodeValue?_pair (cs : List Char) :
    decodeValue? ('$' :: '$' :: cs) = (decodeValue? cs).map fun (v, gs) => ('$' :: v, gs) := rfl

theorem decodeValue?_code {c : Char} (h : isCode c = true) (cs : List Char) :
    decodeValue? ('$' :: c :: cs) =
      (decodeValue? cs).map fun (v, gs) => ([], (c, v) :: gs) := by
  rw [decodeValue?]
  · simp [h]
  · exact ne_dollar_of_isCode h

theorem decodeValue?_plain {c : Char} (h : c ≠ '$') (cs : List Char) :
    decodeValue? (c :: cs) = (decodeValue? cs).map fun (v, gs) => (c :: v, gs) := by
  rw [decodeValue?]
  all_goals
    intros
    simp_all

/-- A written value is read in front of whatever follows it. -/
theorem decodeValue?_encodeValue_append (v cs : List Char) :
    decodeValue? (encodeValue v ++ cs) =
      (decodeValue? cs).map fun (w, gs) => (v ++ w, gs) := by
  induction v with
  | nil => simp
  | cons c v ih =>
      by_cases hc : c = '$'
      · subst hc
        rw [encodeValue_dollar, List.cons_append, List.cons_append, decodeValue?_pair, ih,
          Option.map_map]
        rfl
      · rw [encodeValue_plain hc, List.cons_append, decodeValue?_plain hc, ih, Option.map_map]
        rfl

/-- Written groups are read back behind a value that ends in front of them. -/
theorem decodeValue?_encode {gs : List Group} (h : ∀ g ∈ gs, isCode g.1 = true) :
    decodeValue? (encode gs) = some ([], gs) := by
  induction gs with
  | nil => rfl
  | cons g gs ih =>
      have hg : isCode g.1 = true := h g (by simp)
      have hgs : decodeValue? (encode gs) = some ([], gs) := ih fun x hx => h x (by simp [hx])
      rw [encode_cons, encodeGroup, List.cons_append, List.cons_append, decodeValue?_code hg,
        decodeValue?_encodeValue_append, hgs]
      simp

/-- What is read was written. -/
theorem eq_encode_of_decodeValue? {cs v : List Char} {gs : List Group}
    (h : decodeValue? cs = some (v, gs)) :
    cs = encodeValue v ++ encode gs ∧ ∀ g ∈ gs, isCode g.1 = true := by
  fun_induction decodeValue? cs generalizing v gs with
  | case1 =>
      obtain ⟨rfl, rfl⟩ := by simpa using h
      simp
  | case2 cs ih =>
      rcases Option.map_eq_some_iff.mp h with ⟨⟨w, hs⟩, hw, hpair⟩
      obtain ⟨rfl, rfl⟩ := by simpa using hpair
      rcases ih hw with ⟨hcs, hcodes⟩
      exact ⟨by rw [hcs]; rfl, hcodes⟩
  | case3 c cs _ hc ih =>
      rcases Option.map_eq_some_iff.mp h with ⟨⟨w, hs⟩, hw, hpair⟩
      obtain ⟨rfl, rfl⟩ := by simpa using hpair
      rcases ih hw with ⟨hcs, hcodes⟩
      refine ⟨?_, by simpa [hc] using hcodes⟩
      rw [hcs]
      simp [encodeGroup]
  | case4 => simp at h
  | case5 => simp at h
  | case6 c cs hpair hcode hlone ih =>
      have hc : c ≠ '$' := by
        rintro rfl
        cases cs with
        | nil => exact hlone rfl rfl
        | cons d ds => exact hcode d ds rfl rfl
      rcases Option.map_eq_some_iff.mp h with ⟨⟨w, hs⟩, hw, hcons⟩
      obtain ⟨rfl, rfl⟩ := by simpa using hcons
      rcases ih hw with ⟨hcs, hcodes⟩
      refine ⟨?_, hcodes⟩
      rw [encodeValue_plain hc, List.cons_append, ← hcs]

/-- The reader accepts what is written for groups, and a lone line feed. -/
theorem decode?_eq_some_iff (cs : List Char) (gs : List Group) :
    decode? cs = some gs ↔
      (cs = encode gs ∧ ∀ g ∈ gs, isCode g.1 = true) ∨ (cs = ['\n'] ∧ gs = []) := by
  constructor
  · intro h
    unfold decode? at h
    split at h
    · obtain rfl := by simpa using h
      exact .inl ⟨rfl, by simp⟩
    · obtain rfl := by simpa using h
      exact .inr ⟨rfl, rfl⟩
    · next c cs =>
      split at h
      · next hc =>
        rcases Option.map_eq_some_iff.mp h with ⟨⟨v, hs⟩, hv, hpair⟩
        obtain rfl := by simpa using hpair
        rcases eq_encode_of_decodeValue? hv with ⟨hcs, hcodes⟩
        refine .inl ⟨?_, by simpa [hc] using hcodes⟩
        rw [hcs]
        simp [encodeGroup]
      · simp at h
    · simp at h
  · rintro (⟨rfl, hcodes⟩ | ⟨rfl, rfl⟩)
    · cases gs with
      | nil => rfl
      | cons g gs =>
          have hg : isCode g.1 = true := hcodes g (by simp)
          have hgs : decodeValue? (encode gs) = some ([], gs) :=
            decodeValue?_encode fun x hx => hcodes x (by simp [hx])
          have hv : decodeValue? (encodeValue g.2 ++ encode gs) = some (g.2, gs) := by
            rw [decodeValue?_encodeValue_append, hgs]
            simp
          simp [decode?, encodeGroup, hg, hv]
    · rfl

theorem isCode_of_decode? {cs : List Char} {gs : List Group} (h : decode? cs = some gs) :
    ∀ g ∈ gs, isCode g.1 = true := by
  rcases (decode?_eq_some_iff cs gs).mp h with ⟨-, hcodes⟩ | ⟨-, rfl⟩
  · exact hcodes
  · simp

/-- What is read from a payload of the grammar are the groups of its division. -/
theorem IsDivision.decode? {cs : List Char} {gs : List Group} (h : IsDivision cs gs) :
    decode? cs = some (unescapeAll gs) := by
  refine (decode?_eq_some_iff cs (unescapeAll gs)).mpr (.inl ⟨h.eq_encode, ?_⟩)
  intro g hg
  rcases List.mem_map.mp hg with ⟨x, hx, rfl⟩
  exact h.isCode_of_mem x hx

/-- A payload is divided in one way. -/
theorem IsDivision.unique {cs : List Char} {gs hs : List Group} (hg : IsDivision cs gs)
    (hh : IsDivision cs hs) : gs = hs := by
  have hread : unescapeAll gs = unescapeAll hs :=
    Option.some.inj (hg.decode?.symm.trans hh.decode?)
  rw [← hg.escapeAll_unescapeAll, hread, hh.escapeAll_unescapeAll]

/-- A text that the reader accepts is a payload of the grammar or a lone line feed. -/
theorem exists_isDivision_of_decode? {cs : List Char} {gs : List Group}
    (h : decode? cs = some gs) : (∃ ds, IsDivision cs ds) ∨ cs = ['\n'] := by
  rcases (decode?_eq_some_iff cs gs).mp h with ⟨rfl, hcodes⟩ | ⟨rfl, -⟩
  · exact .inl ⟨escapeAll gs, isDivision_encode hcodes⟩
  · exact .inr rfl

/-! ## Breaks at the end of what is written -/

theorem endsIn_encodeValue (v : List Char) :
    Text.endsIn Text.isBreak (encodeValue v) = Text.endsIn Text.isBreak v := by
  induction v using List.reverseRecOn with
  | nil => rfl
  | append_singleton v c _ =>
      rw [encodeValue_append, Text.endsIn_concat]
      by_cases hc : c = '$'
      · subst hc
        rw [Text.endsIn_append _ (by simp)]
        rfl
      · rw [encodeValue_plain hc, encodeValue_nil, Text.endsIn_concat]

theorem encodeValue_breaks {cs : List Char} (h : ∀ c ∈ cs, Text.isBreak c = true) :
    encodeValue cs = cs := by
  induction cs with
  | nil => rfl
  | cons c cs ih =>
      have hc : c ≠ '$' := by
        rintro rfl
        exact absurd (h '$' (by simp)) (by decide)
      rw [encodeValue_plain hc, ih fun x hx => h x (by simp [hx])]

/-- A value loses the breaks at its end before or after it is written. -/
theorem exists_encodeValue_eq_append (v : List Char) :
    ∃ breaks, encodeValue v = encodeValue (Text.chop v) ++ breaks ∧
      ∀ c ∈ breaks, Text.isBreak c = true := by
  obtain ⟨breaks, hv, hbreaks⟩ := Text.exists_eq_dropEndWhile_append Text.isBreak v
  refine ⟨breaks, ?_, hbreaks⟩
  calc encodeValue v = encodeValue (Text.chop v ++ breaks) := congrArg encodeValue hv
    _ = encodeValue (Text.chop v) ++ breaks := by
      rw [encodeValue_append, encodeValue_breaks hbreaks]

theorem chop_append_encodeGroup (cs : List Char) {g : Group} (h : isCode g.1 = true) :
    Text.chop (cs ++ encodeGroup g) = cs ++ encodeGroup (g.1, Text.chop g.2) := by
  obtain ⟨breaks, hv, hbreaks⟩ := exists_encodeValue_eq_append g.2
  have hclear : Text.endsIn Text.isBreak
      (cs ++ ['$', g.1] ++ encodeValue (Text.chop g.2)) = false := by
    by_cases hnil : encodeValue (Text.chop g.2) = []
    · rw [hnil, List.append_nil, Text.endsIn_append cs (by simp)]
      exact isBreak_of_isCode h
    · rw [Text.endsIn_append _ hnil, endsIn_encodeValue, Text.endsIn_chop]
  calc Text.chop (cs ++ encodeGroup g)
      = Text.chop ((cs ++ ['$', g.1] ++ encodeValue (Text.chop g.2)) ++ breaks) := by
        simp [encodeGroup, hv]
    _ = cs ++ ['$', g.1] ++ encodeValue (Text.chop g.2) :=
        Text.chop_append_breaks hclear hbreaks
    _ = cs ++ encodeGroup (g.1, Text.chop g.2) := by simp [encodeGroup]

def chopLast : List Group → List Group
  | [] => []
  | [g] => [(g.1, Text.chop g.2)]
  | g :: h :: gs => g :: chopLast (h :: gs)

theorem isCode_of_mem_chopLast {gs : List Group} (h : ∀ g ∈ gs, isCode g.1 = true) :
    ∀ g ∈ chopLast gs, isCode g.1 = true := by
  fun_induction chopLast gs with
  | case1 => simp
  | case2 g => simpa using h
  | case3 g g' gs ih =>
      rw [List.forall_mem_cons] at h ⊢
      exact ⟨h.1, ih h.2⟩

/-- Cutting the breaks at the end of what is written for groups cuts those of the last
value, and never reaches what stands in front of it. -/
theorem chop_append_encode (cs : List Char) {gs : List Group} (hne : gs ≠ [])
    (h : ∀ g ∈ gs, isCode g.1 = true) :
    Text.chop (cs ++ encode gs) = cs ++ encode (chopLast gs) := by
  induction gs generalizing cs with
  | nil => exact absurd rfl hne
  | cons g gs ih =>
      have hg : isCode g.1 = true := h g (by simp)
      cases gs with
      | nil =>
          rw [encode_cons, encode_nil, List.append_nil, chop_append_encodeGroup cs hg, chopLast,
            encode_cons, encode_nil, List.append_nil]
      | cons g' gs =>
          have hrest := ih (cs ++ encodeGroup g) (by simp) fun x hx => h x (by simp [hx])
          rw [encode_cons, ← List.append_assoc, hrest, chopLast, encode_cons, List.append_assoc]

/-- What is left of groups with values, less those whose value is gone, are the groups
themselves exactly if the last value does not end in a break. -/
theorem filter_chopLast_eq_iff {gs : List Group} (h : ∀ g ∈ gs, g.2 ≠ []) :
    ((chopLast gs).filter fun g => !g.2.isEmpty) = gs ↔
      ∀ g ∈ gs.getLast?, Text.endsIn Text.isBreak g.2 = false := by
  fun_induction chopLast gs with
  | case1 => simp
  | case2 g =>
      have hne : g.2 ≠ [] := h g (by simp)
      have hself := Text.dropEndWhile_eq_self_iff (p := Text.isBreak) g.2
      rw [← Text.chop] at hself
      by_cases hnil : Text.chop g.2 = []
      · have hbreak : ¬Text.endsIn Text.isBreak g.2 = false := by
          intro hclear
          exact hne ((hself.mpr hclear).symm.trans hnil)
        simp [hnil, hbreak]
      · have hpair : (g.1, Text.chop g.2) = g ↔ Text.chop g.2 = g.2 := by
          rw [Prod.ext_iff]
          simp
        simp [hnil, hpair, hself]
  | case3 g g' gs ih =>
      have hne : g.2 ≠ [] := h g (by simp)
      have hrest := ih fun x hx => h x (by simp [hx])
      rw [List.getLast?_cons_cons, ← hrest]
      simp [hne]

end Payload

end Biblio
