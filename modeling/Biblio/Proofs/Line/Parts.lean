import Biblio.Field.Line
import Biblio.Proofs.Ends

/-!
# The parts of a line

A line has a label in front of its first dollar sign, with blank characters around it,
and a payload from there; the breaks at its end belong to neither. `HasParts` says so
without a reader, and every line has exactly one pair of parts: those that `read` cuts
it into.
-/

namespace Biblio

namespace Field

/-! ## Label and payload -/

/-- The line has this label and this payload. -/
inductive HasParts : List Char → List Char → List Char → Prop
  | intro {before label after payload breaks : List Char}
      (hbefore : ∀ c ∈ before, Text.isBlank c = true)
      (hlabel : ∀ c ∈ label, c ≠ '$')
      (hstart : Text.startsIn Text.isBlank label = false)
      (hend : Text.endsIn Text.isBlank label = false)
      (hafter : ∀ c ∈ after, Text.isBlank c = true)
      (hpayload : payload = [] ∨ payload.head? = some '$')
      (hclear : Text.endsIn Text.isBreak (before ++ label ++ after ++ payload) = false)
      (hbreaks : ∀ c ∈ breaks, Text.isBreak c = true) :
      HasParts (before ++ label ++ after ++ payload ++ breaks) label payload

theorem ne_dollar_of_isBlank {c : Char} (h : Text.isBlank c = true) : c ≠ '$' := by
  rintro rfl
  exact absurd h (by decide)

/-- What starts with a dollar sign or is empty stops a run of other characters. -/
theorem startsIn_ne_dollar_iff (cs : List Char) :
    Text.startsIn (· != '$') cs = false ↔ cs = [] ∨ cs.head? = some '$' := by
  cases cs <;> simp

/-- A text without dollar signs and a payload behind it are told apart. -/
theorem splitLine_append {cs payload : List Char} (hcs : ∀ c ∈ cs, c ≠ '$')
    (hpayload : payload = [] ∨ payload.head? = some '$') :
    splitLine (cs ++ payload) = (cs, payload) := by
  have hrun : ∀ c ∈ cs, (c != '$') = true := by simpa using hcs
  have hstop := (startsIn_ne_dollar_iff payload).mpr hpayload
  rw [splitLine, Text.takeWhile_append_of_startsIn hrun hstop,
    Text.dropWhile_append_of_startsIn hrun hstop]

theorem splitLine_payload (cs : List Char) :
    (splitLine cs).2 = [] ∨ (splitLine cs).2.head? = some '$' :=
  (startsIn_ne_dollar_iff _).mp (Text.startsIn_dropWhile cs)

namespace HasParts

variable {line label payload : List Char}

/-- The parts of a line are those that `read` cuts it into. -/
theorem eq_split (h : HasParts line label payload) :
    label = Text.trim (splitLine (Text.chop line)).1 ∧
      payload = (splitLine (Text.chop line)).2 := by
  rcases h with ⟨hbefore, hlabel, hstart, hend, hafter, hpayload, hclear, hbreaks⟩
  rename_i before after breaks
  have hfront : ∀ c ∈ before ++ label ++ after, c ≠ '$' := by
    intro c hc
    simp only [List.mem_append] at hc
    rcases hc with (hc | hc) | hc
    · exact ne_dollar_of_isBlank (hbefore c hc)
    · exact hlabel c hc
    · exact ne_dollar_of_isBlank (hafter c hc)
  rw [Text.chop_append_breaks hclear hbreaks, splitLine_append hfront hpayload]
  exact ⟨(Text.trim_pad hbefore hafter hstart hend).symm, rfl⟩

/-- Every line has the parts that `read` cuts it into. -/
theorem of_split (line : List Char) :
    HasParts line (Text.trim (splitLine (Text.chop line)).1) (splitLine (Text.chop line)).2 := by
  obtain ⟨breaks, hline, hbreaks⟩ := Text.exists_eq_dropEndWhile_append Text.isBreak line
  obtain ⟨before, after, hfront, hbefore, hafter⟩ :=
    Text.exists_eq_pad_trim (splitLine (Text.chop line)).1
  have hjoin : before ++ Text.trim (splitLine (Text.chop line)).1 ++ after ++
      (splitLine (Text.chop line)).2 = Text.chop line := by
    rw [← hfront, splitLine, List.takeWhile_append_dropWhile]
  have hlabel : ∀ c ∈ Text.trim (splitLine (Text.chop line)).1, c ≠ '$' := by
    intro c hc
    have hmem : c ∈ (splitLine (Text.chop line)).1 := by
      rw [hfront]
      simp [hc]
    simpa using List.mem_takeWhile_imp hmem
  have hclear : Text.endsIn Text.isBreak (before ++ Text.trim (splitLine (Text.chop line)).1 ++
      after ++ (splitLine (Text.chop line)).2) = false := by
    rw [hjoin, Text.endsIn_chop]
  have hparts := intro hbefore hlabel (Text.startsIn_trim _) (Text.endsIn_trim _) hafter
    (splitLine_payload (Text.chop line)) hclear hbreaks
  rwa [hjoin, Text.chop, ← hline] at hparts

theorem endsIn_label (h : HasParts line label payload) :
    Text.endsIn Text.isBlank label = false := by
  rw [h.eq_split.1, Text.endsIn_trim]

theorem payload_ne_lineFeed (h : HasParts line label payload) : payload ≠ ['\n'] := by
  intro hpayload
  have hstart := splitLine_payload (Text.chop line)
  rw [← h.eq_split.2, hpayload] at hstart
  simp at hstart

end HasParts

/-- Every line has exactly one label and one payload. -/
theorem hasParts_iff (line label payload : List Char) :
    HasParts line label payload ↔
      label = Text.trim (splitLine (Text.chop line)).1 ∧
        payload = (splitLine (Text.chop line)).2 := by
  constructor
  · exact HasParts.eq_split
  · rintro ⟨rfl, rfl⟩
    exact .of_split line

end Field

end Biblio
