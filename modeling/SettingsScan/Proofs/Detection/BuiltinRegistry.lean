import SettingsScan.Proofs.Detection.PlainGcc
import SettingsScan.Proofs.Detection.Mirror
import SettingsScan.Proofs.Detection.ToolPath

/-! # The registry of the built-in tools

Without a version suffix or with the default one, the registry can be built, and has one detector
for each built-in tool. What a detector recognises is told by the file names of its tool.
-/

namespace SettingsScan

def DetectionOptions.UsualVersions (options : DetectionOptions) : Prop :=
  options.versionSuffix = none ∨ options.versionSuffix = some defaultVersionSuffix

/-- The patterns of a tool for a style of paths: those for slashes, or their mirror images. -/
def BuiltinTool.patternsIn? (t : BuiltinTool) (style : PathStyle) (versions : Bool)
    (m : DetectionMethod) : Option ToolPatterns :=
  match style with
  | .posix => t.patterns? versions m
  | .windows => (t.patterns? versions m).map ToolPatterns.mirror

namespace Registry

variable {r : Registry} {options : DetectionOptions} {line : Text}

/-! ### The detectors that are built -/

def signature (d : Detector) : ArgumentReader × List (Option ToolPatterns) :=
  (d.reader, DetectionMethod.all.map d.patterns?)

theorem mapM_build (style : PathStyle) (versions : Bool) :
    (builtinTools.mapM
      (build { versionSuffix := if versions then some defaultVersionSuffix else none }
        style)).toOption.map (·.map signature) =
      some (BuiltinTool.all.map fun t =>
        (({ family := t.family, language := t.language } : ArgumentReader),
          DetectionMethod.all.map (t.patternsIn? style versions))) := by
  cases style <;> cases versions <;> decide +kernel

theorem exists_mapM_build (hv : options.UsualVersions) (style : PathStyle) :
    ∃ ds, builtinTools.mapM (build options style) = .ok ds ∧
      ds.map signature = BuiltinTool.all.map fun t =>
        (({ family := t.family, language := t.language } : ArgumentReader),
          DetectionMethod.all.map (t.patternsIn? style options.versionSuffix.isSome)) := by
  have hsuffix : options.versionSuffix =
      if options.versionSuffix.isSome then some defaultVersionSuffix else none := by
    rcases hv with h | h <;> rw [h] <;> rfl
  have hbuild : build options style =
      build { versionSuffix := if options.versionSuffix.isSome then some defaultVersionSuffix
        else none } style :=
    congrArg (fun suffix => build { versionSuffix := suffix } style) hsuffix
  have h := mapM_build style options.versionSuffix.isSome
  rw [← hbuild] at h
  obtain ⟨ds, hds, hsig⟩ := Option.map_eq_some_iff.mp h
  refine ⟨ds, ?_, hsig⟩
  cases hm : builtinTools.mapM (build options style) with
  | error e =>
    rw [hm] at hds
    cases hds
  | ok _ =>
    rw [hm] at hds
    exact congrArg Except.ok (Option.some.inj hds)

theorem filter_windowsPaths (options : DetectionOptions) :
    (builtinTools.filter fun tool => options.windowsPaths && tool.windowsPaths) =
      if options.windowsPaths then builtinTools else [] := by
  cases options.windowsPaths <;> decide

/-- The detectors are those of the built-in tools, in order. -/
structure IsBuiltin (r : Registry) (versions : Bool) : Prop where
  length : r.posix.length = BuiltinTool.all.length
  detector : ∀ (i : Nat) (d : Detector) (t : BuiltinTool),
    r.posix[i]? = some d → BuiltinTool.all[i]? = some t →
    d.reader = { family := t.family, language := t.language } ∧
      ∀ m, d.patterns? m = t.patterns? versions m

theorem isBuiltin_of_signature {versions : Bool}
    (h : r.posix.map signature = BuiltinTool.all.map fun t =>
      (({ family := t.family, language := t.language } : ArgumentReader),
        DetectionMethod.all.map (t.patterns? versions))) : r.IsBuiltin versions where
  length := by simpa using congrArg List.length h
  detector i d t hd ht := by
    have hi := congrArg (·[i]?) h
    simp only [List.getElem?_map, hd, ht, Option.map_some, Option.some.injEq, signature,
      Prod.mk.injEq, List.map_inj_left] at hi
    exact ⟨hi.1, fun m => hi.2 m (by cases m <;> decide)⟩

theorem exists_ofTools (hv : options.UsualVersions) :
    ∃ r, ofTools options [] = .ok r ∧ r.options = options ∧
      r.IsBuiltin options.versionSuffix.isSome := by
  obtain ⟨posix, hp, hsig⟩ := exists_mapM_build hv .posix
  obtain ⟨windows, hw⟩ : ∃ windows,
      (builtinTools.filter fun tool => options.windowsPaths && tool.windowsPaths).mapM
        (build options .windows) = .ok windows := by
    rw [filter_windowsPaths]
    split
    · exact (exists_mapM_build hv .windows).imp fun _ h => h.1
    · exact ⟨[], rfl⟩
  refine ⟨{ posix, windows, options }, ?_, rfl, isBuiltin_of_signature hsig⟩
  rw [ofTools, List.nil_append, hp]
  change Except.bind _ _ = _
  rw [hw]
  rfl

/-! ### What they recognise -/

namespace IsBuiltin

variable {versions : Bool} {i j : Nat} {d e : Detector} {t : BuiltinTool} {m n : DetectionMethod}
  {found : ToolMatch}

theorem exists_tool (h : r.IsBuiltin versions) (hd : r.posix[i]? = some d) :
    ∃ t, BuiltinTool.all[i]? = some t := by
  obtain ⟨hi, -⟩ := List.getElem?_eq_some_iff.mp hd
  exact ⟨_, List.getElem?_eq_getElem (h.length ▸ hi)⟩

theorem exists_detector (h : r.IsBuiltin versions) (ht : BuiltinTool.all[i]? = some t) :
    ∃ d, r.posix[i]? = some d := by
  obtain ⟨hi, -⟩ := List.getElem?_eq_some_iff.mp ht
  exact ⟨_, List.getElem?_eq_getElem (h.length ▸ hi)⟩

theorem match?_eq_some_iff (h : r.IsBuiltin versions) (hd : r.posix[i]? = some d)
    (ht : BuiltinTool.all[i]? = some t) :
    d.match? line m = some found ↔
      t.RecognizesQuoted versions m line found ∨
        (∀ f, ¬ t.RecognizesQuoted versions m line f) ∧ t.Recognizes versions m line found := by
  rw [Detector.match?, (h.detector i d t hd ht).2 m]
  exact BuiltinTool.match?_eq_some_iff (List.mem_of_getElem? ht)

theorem match?_eq_some_iff_of_head (h : r.IsBuiltin versions) (hd : r.posix[i]? = some d)
    (ht : BuiltinTool.all[i]? = some t) (hl : line.head? ≠ some '"') :
    d.match? line m = some found ↔ t.Recognizes versions m line found := by
  rw [h.match?_eq_some_iff hd ht]
  simp [BuiltinTool.not_recognizesQuoted hl]

end IsBuiltin

end Registry

end SettingsScan
