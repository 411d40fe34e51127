import Biblio.Proofs.Field.Extend
import Biblio.Proofs.Line.Write
import Biblio.Proofs.Query.Template

/-!
# Reading what was written

The text of subfields is the dollar sign, the code and the value of each, with the dollar signs
of the value doubled. A field that is extended by such a text gets the subfields it was made
from, whatever their values are: no dollar sign of a value can be taken for the start of a
subfield, and no break is lost. As a line is the full tag and such a text, well-formed fields
with the same line are equal.
-/

namespace Biblio

open Biblio.Action

theorem Payload.encodeValue_eq_flatMap (v : List Char) :
    encodeValue v = v.flatMap fun c => if c = '$' then ['$', '$'] else [c] := by
  induction v with
  | nil => rfl
  | cons c v ih => by_cases hc : c = '$' <;> simp [encodeValue, hc, ih]

theorem Payload.eq_of_encode_eq {gs hs : List Group} (hgs : ∀ g ∈ gs, isCode g.1 = true)
    (hhs : ∀ g ∈ hs, isCode g.1 = true) (h : encode gs = encode hs) : gs = hs := by
  have hread := (decode?_eq_some_iff (encode gs) gs).mpr (.inl ⟨rfl, hgs⟩)
  rw [h, (decode?_eq_some_iff (encode hs) hs).mpr (.inl ⟨rfl, hhs⟩)] at hread
  exact (Option.some.inj hread).symm

namespace Field

def doubled (value : String) : String :=
  String.ofList (value.toList.flatMap fun c => if c = '$' then ['$', '$'] else [c])

/-- The text of subfields: a dollar sign, the code and the value of each. -/
def written (sfs : List Subfield) : String :=
  String.join (sfs.map fun sf => "$" ++ sf.code ++ doubled sf.value)

theorem toList_written (sfs : List Subfield) :
    (written sfs).toList = sfs.flatMap writeSubfield := by
  have hone : ∀ sf : Subfield, ("$" ++ sf.code ++ doubled sf.value).toList = writeSubfield sf := by
    intro sf
    rw [writeSubfield, Payload.encodeValue_eq_flatMap]
    simp [doubled]
  rw [written]
  simp [String.toList_join, List.flatMap_def, hone, Function.comp_def]

/-- The payload of a field is the text of its subfields. -/
theorem payload_eq_written (f : Field) : f.payload = written f.subfields := by
  rw [← String.toList_inj, toList_written, payload, String.toList_ofList]

theorem toList_written_map (gs : List Payload.Group) :
    (written (gs.map ofGroup)).toList = Payload.encode gs := by
  have hpayload := toList_payload (f := { subfields := gs.map ofGroup }) rfl
  rwa [payload_eq_written] at hpayload

namespace WellFormed

variable {x y : Field}

/-- The line of a well-formed field is cut into its full tag and the text of its subfields. -/
theorem exists_splitLine_line (h : x.WellFormed) :
    ∃ front, splitLine x.line.toList = (front, (written x.subfields).toList) ∧
      Text.trim front = x.fullTag.toList := by
  obtain ⟨gs, hgs, -, -⟩ := exists_groups h.codes h.values
  obtain ⟨space, hline, hspace, -⟩ := exists_toList_line hgs
  rw [hgs, toList_written_map, hline]
  exact h.exists_splitLine hspace (Payload.encode_payload gs)

theorem subfields_eq_of_written_eq (hx : x.WellFormed) (hy : y.WellFormed)
    (h : written x.subfields = written y.subfields) : x.subfields = y.subfields := by
  obtain ⟨gs, hgs, hcodes, -⟩ := exists_groups hx.codes hx.values
  obtain ⟨hs, hhs, hcodes', -⟩ := exists_groups hy.codes hy.values
  rw [hgs, hhs, ← String.toList_inj, toList_written_map, toList_written_map] at h
  rw [hgs, hhs, Payload.eq_of_encode_eq hcodes hcodes' h]

/-- Well-formed fields are equal exactly if they are written alike. -/
theorem same_iff_line_eq (hx : x.WellFormed) (hy : y.WellFormed) :
    x.same y = true ↔ x.line = y.line := by
  refine ⟨line_congr, fun hline => ?_⟩
  obtain ⟨front, hsplit, htrim⟩ := hx.exists_splitLine_line
  obtain ⟨front', hsplit', htrim'⟩ := hy.exists_splitLine_line
  rw [hline, hsplit'] at hsplit
  obtain ⟨hfront, hwritten⟩ := Prod.mk.inj hsplit
  have htag : y.fullTag = x.fullTag := by
    rw [← String.toList_inj, ← htrim, ← htrim', hfront]
  -- The full tag stands for tag and occurrence.
  have hof := hy.ofTag_fullTag
  rw [htag, hx.ofTag_fullTag] at hof
  obtain ⟨htags, hoccurrences, -⟩ := Field.mk.inj hof
  exact (same_iff x y).mpr ⟨htags, hoccurrences,
    hx.subfields_eq_of_written_eq hy (String.toList_inj.mp hwritten.symm)⟩

end WellFormed

end Field

namespace FieldRef

variable {sfs : List Subfield}

/-- A field that is extended by the text of subfields gets these, one by one. -/
theorem exec_extend_written
    (hcodes : ∀ sf ∈ sfs, ∃ c, Payload.isCode c = true ∧ sf.code = String.singleton c)
    (hvalues : ∀ sf ∈ sfs, sf.value ≠ "") (f : FieldRef) (s : Store) :
    (f.extend (.text (Field.written sfs))).exec s =
      (.ok (), s.withField f fun x => x.pushAll sfs) := by
  obtain ⟨gs, rfl, hgs, -⟩ := Field.exists_groups hcodes hvalues
  refine exec_extend_payload ?_ f s
  rw [Field.toList_written_map]
  exact (Payload.decode?_eq_some_iff _ _).mpr (.inl ⟨rfl, hgs⟩)

end FieldRef

namespace Store

variable {s : Store}

/-- A field that is extended by the text of subfields with a code of one letter or digit and with
any values but empty ones gets exactly these subfields in order. Hence well-formed fields are
equal exactly if their lines are. -/
theorem Reachable.extend_written (h : s.Reachable) {f : FieldRef} (hf : s.HasField f) :
    (∀ sfs : List Subfield,
      (∀ sf ∈ sfs, ∃ c, Payload.isCode c = true ∧ sf.code = String.singleton c) →
      (∀ sf ∈ sfs, sf.value ≠ "") →
      ∃ t, (f.extend (.text (Field.written sfs))).exec s = (.ok (), t) ∧ s.GrowsBy f sfs t) ∧
    ∀ x y : Field, x.WellFormed → y.WellFormed → (x.same y = true ↔ x.line = y.line) := by
  refine ⟨fun sfs hcodes hvalues => ?_, fun x y hx hy => hx.same_iff_line_eq hy⟩
  have hforms : ∀ sf ∈ sfs, Field.isCodeForm sf.code = true := by
    intro sf hsf
    obtain ⟨c, hc, hcode⟩ := hcodes sf hsf
    rw [hcode]
    exact Field.isCodeForm_singleton hc
  have hgrows := growsBy_pushAll hf (h.leads.isBuilt f) hforms
  rw [Field.valued_eq_self hvalues] at hgrows
  exact ⟨_, FieldRef.exec_extend_written hcodes hvalues f s, hgrows⟩

def bordered : List Subfield :=
  [⟨"a", "$$"⟩, ⟨"b", "\n$c"⟩, ⟨"0", "\r\n"⟩, ⟨"Z", "x$\n"⟩]

theorem extend_written_uneven :
    uneven.Reachable ∧ uneven.HasField ⟨1⟩ ∧
      Field.written bordered = "$a$$$$$b\n$$c$0\r\n$Zx$$\n" ∧
      (∃ t, ((⟨1⟩ : FieldRef).extend (.text (Field.written bordered))).exec uneven =
        (.ok (), t) ∧ uneven.GrowsBy ⟨1⟩ bordered t) ∧
      { Field.dollars with subfields := bordered }.WellFormed ∧ Field.dollars.WellFormed ∧
      { Field.dollars with subfields := bordered }.line ≠ Field.dollars.line := by
  have hcodes : ∀ sf ∈ bordered, ∃ c, Payload.isCode c = true ∧ sf.code = String.singleton c := by
    intro sf hsf
    simp only [bordered, List.mem_cons, List.not_mem_nil, or_false] at hsf
    rcases hsf with rfl | rfl | rfl | rfl
    · exact ⟨'a', by decide, rfl⟩
    · exact ⟨'b', by decide, rfl⟩
    · exact ⟨'0', by decide, rfl⟩
    · exact ⟨'Z', by decide, rfl⟩
  have hvalues : ∀ sf ∈ bordered, sf.value ≠ "" := by decide
  have hfield : uneven.HasField ⟨1⟩ := by decide
  have hformed : { Field.dollars with subfields := bordered }.WellFormed :=
    { Field.wellFormed_dollars with codes := hcodes, values := hvalues }
  obtain ⟨hextend, hlines⟩ := reachable_uneven.extend_written hfield
  refine ⟨reachable_uneven, hfield, by decide, hextend bordered hcodes hvalues, hformed,
    Field.wellFormed_dollars, ?_⟩
  rw [Ne, ← hlines _ _ hformed Field.wellFormed_dollars]
  decide

end Store

end Biblio
