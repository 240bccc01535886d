import SettingsScan.Proofs.Detection.QuotedPath

/-! # The detectors of Windows paths

For each built-in tool the detector of Windows paths is the mirror image of the one of paths with
slashes, so that they find the same tools on mirrored lines.
-/

namespace SettingsScan

/-! ### Mirrored detectors -/

/-- The second detector has the patterns of the first one with the separators exchanged. -/
structure Detector.Mirrors (d e : Detector) : Prop where
  reader : e.reader = d.reader
  patterns (m : DetectionMethod) : e.patterns? m = (d.patterns? m).map ToolPatterns.mirror
  fair (m : DetectionMethod) : ∀ p ∈ d.patterns? m, p.isFair

theorem Detector.Mirrors.match?_mirror {d e : Detector} (h : d.Mirrors e) (line : Text)
    (m : DetectionMethod) : e.match? line.mirror m = (d.match? line m).map ToolMatch.mirror := by
  rw [Detector.match?, h.patterns, Detector.match?]
  cases hp : d.patterns? m with
  | none => rfl
  | some p => exact ToolPatterns.match?_mirror (h.fair m p hp) line

structure Detection.Mirrors (d e : Detection) : Prop where
  posix : d.id.style = .posix
  windows : e.id.style = .windows
  index : e.id.index = d.id.index
  reader : e.detector.reader = d.detector.reader
  method : e.method = d.method
  command : e.command = d.command.mirror
  arguments : e.arguments = d.arguments.mirror

namespace Registry

variable {r : Registry} {options : DetectionOptions}

theorem scan_mirrors (h : List.Forall₂ Detector.Mirrors r.posix r.windows) (line : Text) :
    Option.Rel Detection.Mirrors (r.scan .posix line) (r.scan .windows line.mirror) := by
  refine rel_findSome? fun m _ => rel_findSome?_of_forall₂ (forall₂_zipIdx h 0) ?_
  rintro ⟨d, i⟩ ⟨e, _⟩ ⟨hd, rfl⟩
  simp only [Detector.Mirrors.match?_mirror hd]
  cases d.match? line m with
  | none => exact .none
  | some found => exact .some ⟨rfl, rfl, rfl, hd.reader, rfl, rfl, rfl⟩

end Registry

namespace BuiltinTool

variable {t : BuiltinTool} {versions : Bool} {m : DetectionMethod}

/-- The tools are named by sets that have both separators or none. -/
theorem isFair_of_mem_patterns? (ht : t ∈ all) : ∀ p ∈ t.patterns? versions m, p.isFair := by
  have hfair : ∀ t ∈ all, ∀ m ∈ DetectionMethod.all, (t.patterns m).isFair := by decide
  intro p hp
  unfold patterns? at hp
  split at hp
  · cases hp
  · cases hp
    exact hfair t ht m (by cases m <;> decide)

end BuiltinTool

namespace Registry

variable {r : Registry} {options : DetectionOptions} {versions : Bool}

theorem IsBuiltin.isFair (h : r.IsBuiltin versions) {d : Detector} (hd : d ∈ r.posix)
    (m : DetectionMethod) : ∀ p ∈ d.patterns? m, p.isFair := by
  obtain ⟨i, hi⟩ := List.mem_iff_getElem?.mp hd
  obtain ⟨t, ht⟩ := h.exists_tool hi
  rw [(h.detector i d t hi ht).2 m]
  exact BuiltinTool.isFair_of_mem_patterns? (List.mem_of_getElem? ht)

def mirrorSignature : ArgumentReader × List (Option ToolPatterns) →
    ArgumentReader × List (Option ToolPatterns) :=
  Prod.map id (List.map (Option.map ToolPatterns.mirror))

theorem forall₂_mirrors (hv : options.UsualVersions) (hw : options.windowsPaths = true)
    (h : ofTools options [] = .ok r) : List.Forall₂ Detector.Mirrors r.posix r.windows := by
  obtain ⟨-, hposix, hwindows⟩ := mapM_of_ofTools h
  rw [List.nil_append, filter_windowsPaths, if_pos hw] at hwindows
  obtain ⟨ds, hds, hdsig⟩ := exists_mapM_build hv .posix
  obtain rfl : r.posix = ds := Except.ok.inj (hposix.symm.trans hds)
  obtain ⟨es, hes, hesig⟩ := exists_mapM_build hv .windows
  obtain rfl : r.windows = es := Except.ok.inj (hwindows.symm.trans hes)
  -- the tools that both lists are made of are left out
  have hsig : r.posix.map (mirrorSignature ∘ signature) = r.windows.map signature := by
    rw [← List.map_map, hdsig, hesig, List.map_map]
    exact List.map_congr_left fun t _ => congrArg (Prod.mk _) (List.map_map)
  have hrel : List.Forall₂ (fun d e => mirrorSignature (signature d) = signature e)
      r.posix r.windows := by
    rw [← List.forall₂_eq_eq_eq, List.forall₂_map_left_iff, List.forall₂_map_right_iff] at hsig
    exact hsig
  have hfair : r.IsBuiltin options.versionSuffix.isSome := isBuiltin_of_signature hdsig
  refine ((List.forall₂_and_left _ _).mpr ⟨fun d hd => hfair.isFair hd, hrel⟩).imp ?_
  rintro d e ⟨hf, he⟩
  obtain ⟨hreader, hpatterns⟩ := Prod.mk.inj he
  rw [List.map_map, List.map_inj_left] at hpatterns
  exact ⟨hreader.symm, fun m => (hpatterns m (by cases m <;> decide)).symm, hf⟩

/-- With Windows paths the registry finds, on the mirror image of a line, the mirror image of what
it finds on the line. -/
theorem scan_windows_mirror (hv : options.UsualVersions) (hw : options.windowsPaths = true) :
    ∃ r, ofTools options [] = .ok r ∧ ∀ line : Text,
      Option.Rel Detection.Mirrors (r.scan .posix line) (r.scan .windows line.mirror) := by
  obtain ⟨r, hr, -⟩ := exists_ofTools hv
  exact ⟨r, hr, scan_mirrors (forall₂_mirrors hv hw hr)⟩

theorem scan_windows_mirror_both_separators :
    ∃ r d e, ofTools { versionSuffix := some defaultVersionSuffix, windowsPaths := true } [] =
        .ok r ∧
      r.scan .posix "\"C:\\gcc 12/bin/gcc\" -Iinclude/a b\\c.c".toList = some d ∧
      r.scan .windows "\"C:/gcc 12\\bin\\gcc\" -Iinclude\\a b/c.c".toList = some e ∧
      d.Mirrors e := by
  have hv : DetectionOptions.UsualVersions
      { versionSuffix := some defaultVersionSuffix, windowsPaths := true } := .inr rfl
  obtain ⟨r, hr, h⟩ := scan_windows_mirror hv rfl
  obtain ⟨r', hr', -, hb⟩ := exists_ofTools hv
  obtain rfl : r = r' := Except.ok.inj (hr.symm.trans hr')
  obtain ⟨d, hd⟩ := hb.exists_detector (i := 0) rfl
  have hname : BuiltinTool.HasFileName ⟨"gcc", false, .gcc, none⟩ true .basename "gcc".toList :=
    ⟨nofun, "gcc".toList, [], [], rfl, rfl, rfl, rfl⟩
  have hm : d.match? "\"C:\\gcc 12/bin/gcc\" -Iinclude/a b\\c.c".toList .basename =
      some { command := "C:\\gcc 12/bin/gcc", arguments := "-Iinclude/a b\\c.c" } :=
    hb.match?_quoted hd rfl (show '"' ∉ "C:\\gcc 12/bin".toList by decide)
      (show BuiltinTool.IsPathName "gcc".toList by decide) hname
  have hs : (r.scan .posix "\"C:\\gcc 12/bin/gcc\" -Iinclude/a b\\c.c".toList).isSome := by
    have hpair := congrArg Option.isSome ((tryPair_posix hd).trans (congrArg (Option.map _) hm))
    exact scan_isSome_of_tryPair hpair
  obtain ⟨x, hx⟩ := Option.isSome_iff_exists.mp hs
  have hrel := h "\"C:\\gcc 12/bin/gcc\" -Iinclude/a b\\c.c".toList
  rw [hx] at hrel
  generalize hy : r.scan .windows _ = y at hrel
  cases hrel with
  | some hxy => exact ⟨r, x, _, hr, hx, hy, hxy⟩

end Registry

end SettingsScan
