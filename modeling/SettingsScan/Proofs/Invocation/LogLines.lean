import SettingsScan.Proofs.Invocation.DirectoryMessage

/-! # The lines of a build log

The lines of a log are what stands between its line feeds. A line is blank, a message about
directories or a command, and it can be told from its characters which of these it is.
-/

namespace SettingsScan.BuildLog

open DirectoryStack (Change Message)

/-! ### Between the line feeds -/

/-- The bytes consist of the lines. Each line ends in a line feed, but the last one may lack it. -/
inductive IsLines : Bytes → List Bytes → Prop
  | nil : IsLines [] []
  | last {line : Bytes} : 0x0A ∉ line → line ≠ [] → IsLines line [line]
  | cons {line rest : Bytes} {lines : List Bytes} :
      0x0A ∉ line → IsLines rest lines → IsLines (line ++ 0x0A :: rest) (line :: lines)

theorem byteLines_append_cons {line : Bytes} (h : 0x0A ∉ line) (rest : Bytes) :
    byteLines (line ++ 0x0A :: rest) = line :: byteLines rest := by
  induction line with
  | nil => rfl
  | cons b line ih =>
    have hb : b ≠ 0x0A := (List.ne_of_not_mem_cons h).symm
    change addByte b (byteLines (line ++ 0x0A :: rest)) = _
    rw [ih (List.not_mem_of_not_mem_cons h), addByte, if_neg hb]

theorem byteLines_of_not_mem {line : Bytes} (h : 0x0A ∉ line) (hn : line ≠ []) :
    byteLines line = [line] := by
  induction line with
  | nil => exact absurd rfl hn
  | cons b line ih =>
    have hb : b ≠ 0x0A := (List.ne_of_not_mem_cons h).symm
    change addByte b (byteLines line) = _
    cases line with
    | nil => exact if_neg hb
    | cons d line =>
      rw [ih (List.not_mem_of_not_mem_cons h) (List.cons_ne_nil _ _), addByte, if_neg hb]

theorem isLines_byteLines (bytes : Bytes) : IsLines bytes (byteLines bytes) := by
  induction bytes with
  | nil => exact .nil
  | cons b bytes ih =>
    change IsLines (b :: bytes) (addByte b (byteLines bytes))
    by_cases hb : b = 0x0A
    · subst hb
      exact .cons List.not_mem_nil ih
    · -- the byte goes to the first line, if there is one
      have hmem {line : Bytes} (h : 0x0A ∉ line) : 0x0A ∉ b :: line := by
        simp [h, Ne.symm hb]
      generalize byteLines bytes = lines at ih
      unfold addByte
      rw [if_neg hb]
      cases ih with
      | nil => exact .last (hmem List.not_mem_nil) (List.cons_ne_nil b [])
      | last h hn => exact .last (hmem h) (List.cons_ne_nil b _)
      | cons h more => exact .cons (hmem h) more

theorem isLines_iff {bytes : Bytes} {lines : List Bytes} :
    IsLines bytes lines ↔ byteLines bytes = lines := by
  constructor
  · intro h
    induction h with
    | nil => rfl
    | last h hn => exact byteLines_of_not_mem h hn
    | cons h _ ih => rw [byteLines_append_cons h, ih]
  · rintro rfl
    exact isLines_byteLines bytes

/-! ### What a line is -/

/-- The line is a message about directories, with blank characters around it. -/
def Announces (line : Text) (change : Change) : Prop :=
  ∃ (front back : Text) (m : Message), front.all isBlank ∧ back.all isBlank ∧
    line = front ++ m.text ++ back ∧ m.change = change

def IsMessage (line : Text) : Prop := ∃ change, Announces line change

/-- What a line is, by its characters. A command is a line that is neither blank nor a message. -/
inductive IsKind (line : Text) : LineKind → Prop
  | blank : line.all isBlank → IsKind line .blank
  | directoryChange {change : Change} : Announces line change →
      IsKind line (.directoryChange change)
  | command : ¬ line.all isBlank → ¬ IsMessage line →
      IsKind line (.command (dropProgress line.trim))

variable {line : Text} {change : Change} {kind : LineKind}

theorem isEmpty_trim_iff (line : Text) : line.trim.isEmpty ↔ line.all isBlank := by
  constructor
  · intro h
    obtain ⟨front, back, hline, hf, hb⟩ := line.exists_trim
    rw [hline, List.isEmpty_iff.mp h, List.append_nil, List.all_append, hf, hb]
    rfl
  · intro h
    have htrim := Text.trim_gap h []
    rw [List.append_nil] at htrim
    rw [htrim]
    rfl

theorem classify_eq_blank_iff : classify line = .blank ↔ line.all isBlank := by
  rw [← isEmpty_trim_iff, classify]
  split
  · next h => exact iff_of_true rfl h
  · next h =>
    refine iff_of_false ?_ h
    cases DirectoryStack.change? line.trim <;> simp

theorem classify_eq_command (h : ¬ line.all isBlank) (hm : ¬ IsMessage line) :
    classify line = .command (dropProgress line.trim) := by
  cases hk : classify line with
  | blank => exact absurd (classify_eq_blank_iff.mp hk) h
  | directoryChange change => exact absurd ⟨change, classify_eq_directoryChange_iff.mp hk⟩ hm
  | command text =>
    rw [classify, if_neg (mt (isEmpty_trim_iff line).mp h)] at hk
    split at hk
    · cases hk
    · exact hk.symm

theorem isMessage_iff : IsMessage line ↔ ∃ change, classify line = .directoryChange change :=
  exists_congr fun _ => classify_eq_directoryChange_iff.symm

instance : DecidablePred IsMessage := fun line =>
  decidable_of_iff (∃ change ∈ DirectoryStack.change? line.trim, ¬ line.trim.isEmpty) <| by
    rw [isMessage_iff, classify]
    split
    · next h => simp [h]
    · next h => cases DirectoryStack.change? line.trim <;> simp [h]

theorem isKind_iff : IsKind line kind ↔ classify line = kind := by
  constructor
  · rintro (h | h | ⟨h, hm⟩)
    · exact classify_eq_blank_iff.mpr h
    · exact classify_eq_directoryChange_iff.mpr h
    · exact classify_eq_command h hm
  · rintro rfl
    by_cases h : line.all isBlank
    · rw [classify_eq_blank_iff.mpr h]
      exact .blank h
    by_cases hm : IsMessage line
    · obtain ⟨change, hc⟩ := hm
      rw [classify_eq_directoryChange_iff.mpr hc]
      exact .directoryChange hc
    · rw [classify_eq_command h hm]
      exact .command h hm

end SettingsScan.BuildLog
