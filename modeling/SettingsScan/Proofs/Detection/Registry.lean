import SettingsScan.Detection.Cascade
import SettingsScan.Proofs.Except

/-! # The detectors of a registry

What building a registry gives: one detector for each tool, in order, and Windows detectors only
when they are asked for. What one detector recognises, the scan does not miss.
-/

namespace SettingsScan

namespace Registry

variable {r : Registry} {options : DetectionOptions} {tools : List ToolSpec} {line : Text}

theorem mapM_of_ofTools (h : ofTools options tools = .ok r) :
    r.options = options ∧ (tools ++ builtinTools).mapM (build options .posix) = .ok r.posix ∧
    ((tools ++ builtinTools).filter fun tool => options.windowsPaths && tool.windowsPaths).mapM
      (build options .windows) = .ok r.windows := by
  obtain ⟨posix, hp, h⟩ := Except.exists_of_bind_eq_ok h
  obtain ⟨windows, hw, h⟩ := Except.exists_of_bind_eq_ok h
  cases h
  exact ⟨rfl, hp, hw⟩

/-- The patterns of the built-in tools can be compiled. -/
theorem exists_ofTools_builtin : ∃ r, ofTools {} [] = .ok r := by
  have h : (ofTools {} []).isOk = true := by decide +kernel
  cases hr : ofTools {} [] with
  | error err => rw [hr] at h; cases h
  | ok r => exact ⟨r, rfl⟩

theorem windows_eq_nil_of_ofTools (h : ofTools options tools = .ok r)
    (hw : r.options.windowsPaths = false) : r.windows = [] := by
  obtain ⟨ho, -, h⟩ := mapM_of_ofTools h
  rw [List.filter_eq_nil_iff.mpr (by simp [← ho, hw])] at h
  exact (Except.ok.inj h).symm

def tryPair (r : Registry) (line : Text) (pair : DetectorId × DetectionMethod) :
    Option Detection :=
  (r.get? pair.1).bind fun detector =>
    (detector.match? line pair.2).map fun found =>
      { id := pair.1, detector, method := pair.2,
        command := found.command, arguments := found.arguments }

theorem scan_isSome_of_tryPair {pair : DetectorId × DetectionMethod}
    (h : (r.tryPair line pair).isSome) : (r.scan pair.1.style line).isSome := by
  obtain ⟨⟨style, index⟩, method⟩ := pair
  obtain ⟨found, h⟩ := Option.isSome_iff_exists.mp h
  obtain ⟨detector, hd, hm⟩ := Option.bind_eq_some_iff.mp h
  obtain ⟨m, hm, -⟩ := Option.map_eq_some_iff.mp hm
  rw [scan, List.findSome?_isSome_iff]
  refine ⟨method, by cases method <;> simp [DetectionMethod.all], ?_⟩
  rw [List.findSome?_isSome_iff]
  exact ⟨(detector, index), List.mem_zipIdx_iff_getElem?.mpr hd, by simp [hm]⟩

theorem scanWritten_isSome_of_tryPair (h : ofTools options tools = .ok r)
    {pair : DetectorId × DetectionMethod} (hp : (r.tryPair line pair).isSome) :
    (r.scanWritten line).isSome := by
  have hs := scan_isSome_of_tryPair hp
  obtain ⟨⟨style, index⟩, method⟩ := pair
  cases style with
  | posix => simp [scanWritten, hs]
  | windows =>
    cases hw : r.options.windowsPaths with
    | true => simp [scanWritten, hw, hs]
    | false => simp [tryPair, get?, detectors, windows_eq_nil_of_ofTools h hw] at hp

theorem detect_of_scanWritten {e : Expander} {d : Detection} (h : r.scanWritten line = some d) :
    r.detect e line = some d := by
  simp [detect, h]

end Registry

end SettingsScan
