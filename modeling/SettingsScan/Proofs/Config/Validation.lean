import SettingsScan.Proofs.Config.Problems
import SettingsScan.Proofs.Detection.Composition

/-! # A registry for a validated configuration

Validation compiles the name, the extension and the version suffix of a tool one by one. The
registry can be built if and only if they also compose to patterns, for every tool.
-/

namespace SettingsScan

open Pattern

/-! ### Detectors -/

theorem ToolPatterns.isOk_ofName_iff {parts : List PatternPart} {p : PatternPart}
    (hb : ∀ q ∈ parts ++ [p], WellGrouped q.text) (hc : ∀ q ∈ parts, q.group?.isSome)
    (style : PathStyle) :
    (ofName style ((parts ++ [p]).flatMap PatternPart.written)).isOk ↔
      Composes true (parts ++ [p]) := by
  have hquoted := isOk_ofText_pathText_iff hb hc true style
  have hunquoted := isOk_ofText_pathText_iff hb hc false style
  have hname (name : Text) : (ofName style name).isOk ↔
      (Pattern.ofText (pathText true style name)).isOk ∧
        (Pattern.ofText (pathText false style name)).isOk :=
    Except.isOk_bind_iff fun quoted => Except.isOk_map_iff (ToolPatterns.mk quoted)
  rw [hname, hquoted, hunquoted]
  exact and_iff_left_of_imp Composes.unquoted

namespace Composes

variable {n v e : PatternPart}

theorem one_iff (style : PathStyle) (hn : WellGrouped n.text) :
    (ToolPatterns.ofName style n.written).isOk ↔ Composes true [n] := by
  have hb : ∀ q ∈ [] ++ [n], WellGrouped q.text := by simpa using hn
  simpa using ToolPatterns.isOk_ofName_iff hb nofun style

theorem two_iff (style : PathStyle) (hn : WellGrouped n.text) (hv : WellGrouped v.text) :
    (ToolPatterns.ofName style n.written).isOk ∧
        (ToolPatterns.ofName style (n.written ++ v.written)).isOk ↔ Composes true [n, v] := by
  have htwo (hc : n.group?.isSome) :
      (ToolPatterns.ofName style (n.written ++ v.written)).isOk ↔ Composes true [n, v] := by
    have hb : ∀ q ∈ [n] ++ [v], WellGrouped q.text := by simpa using ⟨hn, hv⟩
    simpa using ToolPatterns.isOk_ofName_iff hb (by simpa using hc) style
  rw [one_iff style hn]
  constructor
  · rintro ⟨h, hv⟩
    exact (htwo (h.closed n (by simp))).mp hv
  · intro h
    exact ⟨h.sublist (by simp), (htwo (h.closed n (by simp))).mpr h⟩

/-- With a third part, the first one is also tried with each of the others. -/
theorem three_iff (style : PathStyle) (hn : WellGrouped n.text) (hv : WellGrouped v.text)
    (he : WellGrouped e.text) :
    (ToolPatterns.ofName style n.written).isOk ∧
        (ToolPatterns.ofName style (n.written ++ v.written)).isOk ∧
        (ToolPatterns.ofName style (n.written ++ e.written)).isOk ∧
        (ToolPatterns.ofName style (n.written ++ (v.written ++ e.written))).isOk ↔
      Composes true [n, v, e] := by
  have hthree (hcn : n.group?.isSome) (hcv : v.group?.isSome) :
      (ToolPatterns.ofName style (n.written ++ (v.written ++ e.written))).isOk ↔
        Composes true [n, v, e] := by
    have hb : ∀ q ∈ [n, v] ++ [e], WellGrouped q.text := by simpa using ⟨hn, hv, he⟩
    simpa using ToolPatterns.isOk_ofName_iff hb (by simpa using ⟨hcn, hcv⟩) style
  constructor
  · rintro ⟨h, hnv, -, hall⟩
    have hpair := (two_iff style hn hv).mp ⟨h, hnv⟩
    exact (hthree (hpair.closed n (by simp)) (hpair.closed v (by simp))).mp hall
  · intro h
    have hnv := (two_iff style hn hv).mpr (h.sublist (by simp))
    have hne := (two_iff style hn he).mpr (h.sublist (by simp))
    exact ⟨hnv.1, hnv.2, hne.2, (hthree (h.closed n (by simp)) (h.closed v (by simp))).mpr h⟩

end Composes

def ToolSpec.parts (tool : ToolSpec) (version : Option Text) : List PatternPart :=
  ⟨tool.name, false⟩ ::
    (version.toList.map (⟨·, false⟩) ++ tool.extension.toList.map (⟨·, true⟩))

namespace Detector

variable {name v e : Text} {extension version : Option Text} {style : PathStyle}
  {reader : ArgumentReader}

theorem isOk_ofPatterns_iff :
    (ofPatterns name extension version style reader).isOk ↔
      (ToolPatterns.ofName style (baseText name)).isOk ∧
      (∀ v ∈ version, (ToolPatterns.ofName style (baseText name ++ versionText v)).isOk) ∧
      (∀ e ∈ extension, (ToolPatterns.ofName style (baseText name ++ extensionText e)).isOk) ∧
      ∀ v ∈ version, ∀ e ∈ extension,
        (ToolPatterns.ofName style (baseText name ++ (versionText v ++ extensionText e))).isOk := by
  unfold ofPatterns
  extract_lets base compile
  have hcompile (suffix : Option Text) : (compile suffix).isOk ↔
      ∀ t ∈ suffix, (ToolPatterns.ofName style (base ++ t)).isOk := by
    cases suffix with
    | none => exact iff_of_true rfl nofun
    | some t => simp [compile, Except.isOk_map_iff]
  refine Iff.trans (Except.isOk_bind_iff fun plain => Except.isOk_bind_iff fun versioned =>
    Except.isOk_bind_iff fun extended =>
      Except.isOk_map_iff (Detector.mk name style plain versioned extended · reader)) ?_
  simp only [hcompile]
  cases version <;> cases extension <;>
    simp only [Option.map_none, Option.map_some, Option.mem_some, forall_eq',
      false_implies, implies_true, Option.not_mem_none, base]

theorem extensionText_eq (e : Text) : extensionText e = PatternPart.written ⟨e, true⟩ := by
  have hdot : "\\.(?i:".toList = '\\' :: '.' :: "(?i:".toList := by decide
  exact congrArg (· ++ e ++ [')']) hdot

theorem isOk_ofPatterns_iff_composes (tool : ToolSpec)
    (hb : ∀ p ∈ tool.parts version, WellGrouped p.text) :
    (ofPatterns tool.name tool.extension version style reader).isOk ↔
      Composes true (tool.parts version) := by
  obtain ⟨name, family, language, extension, windowsPaths⟩ := tool
  have hname : baseText name = PatternPart.written ⟨name, false⟩ := rfl
  have hversion (v : Text) : versionText v = PatternPart.written ⟨v, false⟩ := rfl
  simp only [isOk_ofPatterns_iff, hname, hversion, extensionText_eq]
  simp only [ToolSpec.parts, List.forall_mem_cons, List.forall_mem_append] at hb
  obtain ⟨hn, hv, he⟩ := hb
  cases version with
  | none =>
    cases extension with
    | none => simpa [ToolSpec.parts] using Composes.one_iff style hn
    | some e =>
      have he : WellGrouped e := by simpa using he
      simpa [ToolSpec.parts] using Composes.two_iff (v := ⟨e, true⟩) style hn he
  | some v =>
    have hv : WellGrouped v := by simpa using hv
    cases extension with
    | none => simpa [ToolSpec.parts] using Composes.two_iff style hn hv
    | some e =>
      have he : WellGrouped e := by simpa using he
      simpa [ToolSpec.parts] using Composes.three_iff style hn hv he

end Detector

/-! ### Registries -/

namespace Registry

variable {options : DetectionOptions} {tools : List ToolSpec}

theorem isOk_ofTools_iff :
    (ofTools options tools).isOk ↔
      (∀ tool ∈ tools ++ builtinTools, (build options .posix tool).isOk) ∧
      ∀ tool ∈ (tools ++ builtinTools).filter fun tool => options.windowsPaths && tool.windowsPaths,
        (build options .windows tool).isOk := by
  rw [← Except.isOk_mapM_iff, ← Except.isOk_mapM_iff]
  exact Except.isOk_bind_iff fun posix => Except.isOk_map_iff (Registry.mk posix · options)

theorem isOk_ofTools_iff_composes
    (hb : ∀ tool ∈ tools ++ builtinTools, ∀ p ∈ tool.parts options.versionSuffix,
      WellGrouped p.text) :
    (ofTools options tools).isOk ↔
      ∀ tool ∈ tools ++ builtinTools, Composes true (tool.parts options.versionSuffix) := by
  have hbuild {tool : ToolSpec} (ht : tool ∈ tools ++ builtinTools) (style : PathStyle) :
      (build options style tool).isOk ↔ Composes true (tool.parts options.versionSuffix) :=
    (Except.isOk_mapError_iff _).trans (Detector.isOk_ofPatterns_iff_composes tool (hb tool ht))
  rw [isOk_ofTools_iff]
  constructor
  · rintro ⟨hposix, -⟩ tool ht
    exact (hbuild ht .posix).mp (hposix tool ht)
  · intro h
    refine ⟨fun tool ht => (hbuild ht .posix).mpr (h tool ht), fun tool ht => ?_⟩
    have ht := List.mem_of_mem_filter ht
    exact (hbuild ht .windows).mpr (h tool ht)

end Registry

/-! ### Validation -/

theorem Pattern.wellGrouped_of_compiles {t : Text} (h : compiles t) : WellGrouped t := by
  obtain ⟨s, hs, hdone⟩ := isOk_ofText_iff.mp h
  exact ⟨s, hs, hdone.outer⟩

namespace DetectionConfig

variable {d : DetectionConfig}

theorem compiles_of_problems (h : d.problems = []) :
    (∀ v ∈ d.options.versionSuffix, compiles v) ∧
      ∀ tool ∈ d.tools, compiles tool.name ∧ ∀ e ∈ tool.extension, compiles e := by
  obtain ⟨faults, -, hmem, hproblems⟩ := d.exists_faults
  obtain rfl : faults = [] := by simpa [h] using hproblems.symm
  have hnone (f : Fault) : ¬ f.In d := fun hf => List.not_mem_nil ((hmem f).mpr hf)
  constructor
  · intro v hv
    obtain ⟨henabled, rfl⟩ : d.versionSuffix.enabled ∧ d.versionSuffix.pattern = v := by
      simpa [options] using hv
    by_contra hc
    exact hnone .versionPattern ⟨henabled, hc⟩
  · intro tool ht
    obtain ⟨index, hi⟩ := List.mem_iff_getElem?.mp ht
    refine ⟨?_, fun e he => ?_⟩
    · by_contra hc
      by_cases hname : tool.name = []
      · exact hnone (.emptyName index) ⟨tool, hi, hname⟩
      · exact hnone (.namePattern index) ⟨tool, hi, hname, hc⟩
    · by_contra hc
      exact hnone (.extensionPattern index) ⟨tool, hi, e, he, hc⟩

end DetectionConfig

theorem Registry.compiles_builtinTools :
    ∀ tool ∈ builtinTools, compiles tool.name ∧ ∀ e ∈ tool.extension, compiles e := by
  decide +kernel

theorem Config.problems_of_validate {c : Config} (h : c.validate = .ok ()) :
    c.detection.problems = [] := by
  unfold validate at h
  split at h
  · assumption
  · cases h
  · cases h

namespace Config

/-- For a validated configuration the registry can be built if and only if the parts of each tool
compose. -/
theorem registry_isOk_iff {c : Config} (h : c.validate = .ok ()) :
    (Registry.ofTools c.detection.options c.detection.tools).isOk ↔
      ∀ tool ∈ c.detection.tools ++ Registry.builtinTools,
        Composes true (tool.parts c.detection.options.versionSuffix) := by
  obtain ⟨hversion, htools⟩ := DetectionConfig.compiles_of_problems (problems_of_validate h)
  refine Registry.isOk_ofTools_iff_composes fun tool ht p hp => wellGrouped_of_compiles ?_
  have htool : compiles tool.name ∧ ∀ e ∈ tool.extension, compiles e :=
    (List.mem_append.mp ht).elim (htools tool) (Registry.compiles_builtinTools tool)
  simp only [ToolSpec.parts, List.mem_cons, List.mem_append, List.mem_map, Option.mem_toList] at hp
  rcases hp with rfl | ⟨v, hv, rfl⟩ | ⟨e, he, rfl⟩
  · exact htool.1
  · exact hversion v hv
  · exact htool.2 e he

def ofNames (name extension : Text) : Config where
  detection :=
    { versionSuffix := { enabled := true }
      windowsPaths := .always
      tools := [{ name, family := .gcc, extension := some extension }] }

theorem registry_isOk_iff_different_names :
    let c := ofNames "(?<target>arm|avr)-gcc" "(?<kind>exe|bat)"
    c.validate = .ok () ∧
      (Registry.ofTools c.detection.options c.detection.tools).isOk ∧
      ∀ tool ∈ c.detection.tools ++ Registry.builtinTools,
        Composes true (tool.parts c.detection.options.versionSuffix) := by
  have hvalid : (ofNames "(?<target>arm|avr)-gcc" "(?<kind>exe|bat)").validate = .ok () := by
    decide +kernel
  have hcomposes : ∀ tool ∈ (ofNames "(?<target>arm|avr)-gcc" "(?<kind>exe|bat)").detection.tools ++
      Registry.builtinTools, Composes true (tool.parts (some defaultVersionSuffix)) := by
    decide +kernel
  exact ⟨hvalid, (registry_isOk_iff hvalid).mpr hcomposes, hcomposes⟩

/-- Two groups of one name, in the name and in the extension of a tool, are each fine alone. -/
theorem registry_not_isOk_of_same_name :
    let c := ofNames "(?<kind>arm|avr)-gcc" "(?<kind>exe|bat)"
    c.validate = .ok () ∧
      (Registry.ofTools c.detection.options c.detection.tools).isOk = false := by
  decide +kernel

-- A comment at the end of a name swallows the parenthesis behind it.
example : ¬ Composes true [⟨"(?x)my-gcc # the wrapper", false⟩] := by
  decide +kernel

-- The bounds of a range in an extension become sets of two letters.
example : ¬ Composes true [⟨"gcc", false⟩, ⟨"[\\x61-\\x7a]+", true⟩] := by
  decide +kernel

end Config

end SettingsScan
