import SettingsScan.Proofs.Detection.Memory
import SettingsScan.Proofs.Invocation.ArrayScan
import SettingsScan.Proofs.Path.Normal

/-! # What the project filter lets through

With a root, settings of a file are deposited only for files inside of it, whatever the invocations
look like. A command for a file outside leaves no trace but in the two counters of such commands.
-/

namespace SettingsScan

namespace Path

/-- An absolute path that is written with names only and leads into the directory. -/
structure IsInside (directory path : Text) : Prop where
  names : ∃ names, (∀ name ∈ names, IsName name) ∧ path = '/' :: Text.joinWith ['/'] names
  within : components directory <+: components path

variable {root path : Text}

/-- Among normalised paths the filter finds those inside of the directory. -/
theorem isWithin_normalize_iff (h : isRooted root) (path : Text) :
    isWithin (normalize root) (normalize path) ↔ IsInside (normalize root) (normalize path) := by
  refine ⟨fun hw => ?_, fun hi => List.isPrefixOf_iff_prefix.mpr hi.within⟩
  have hprefix := List.isPrefixOf_iff_prefix.mp hw
  refine ⟨?_, hprefix⟩
  rw [components_normalize, components_normalize] at hprefix
  obtain ⟨above, hroot, -⟩ := namesBehind_root_normalComponents h
  rcases isNormal_normalComponents path with ⟨names, hpath, hnames⟩ | ⟨n, names, hpath, -⟩
  · exact ⟨names, hnames, by rw [normalize, hpath, ofComponents_rooted]⟩
  · -- the first component of the path is the root, which is neither a step up nor a name
    rw [hroot, hpath] at hprefix
    have hmem := hprefix.subset (List.mem_append_left _ (List.mem_singleton_self Component.root))
    simp at hmem

end Path

namespace Processor

variable {p : Processor} {root : Text} {state : ProcessorState} {invocation : Invocation}
  {found : Detection} {source path : Text} {language : Option Language} {entries : List Setting}

/-! ### One invocation -/

theorem process_undetected
    (h : (state.memory.detect p.registry p.expander invocation.line).found = none) :
    p.process state invocation = (.noDetector, {},
      { memory := (state.memory.detect p.registry p.expander invocation.line).memory
        statistics := state.statistics.countOutcome .noDetector 0 }) := by
  simp only [process, h]
  rfl

theorem process_outside
    (h : (state.memory.detect p.registry p.expander invocation.line).found = some found)
    (ho : p.isOutside (source? invocation found.arguments) = true) :
    p.process state invocation = (.outsideOfProject, {},
      { memory := (state.memory.detect p.registry p.expander invocation.line).memory
        statistics := state.statistics.countOutcome .outsideOfProject 0 }) := by
  simp only [process, h, ho, if_true]
  rfl

theorem process_recognized
    (h : (state.memory.detect p.registry p.expander invocation.line).found = some found)
    (ho : p.isOutside (source? invocation found.arguments) = false) :
    p.process state invocation =
      (.recognized, (p.record invocation found (source? invocation found.arguments)).1,
        { memory := (state.memory.detect p.registry p.expander invocation.line).memory
          statistics := state.statistics.countOutcome .recognized
            (p.record invocation found (source? invocation found.arguments)).2 }) := by
  simp only [process, h, ho, Bool.false_eq_true, if_false]
  rfl

theorem exists_normalize_of_source? {arguments : Text}
    (h : source? invocation arguments = some source) : ∃ path, source = Path.normalize path := by
  obtain ⟨file, -, rfl⟩ := Option.map_eq_some_iff.mp h
  exact ⟨_, rfl⟩

theorem isOutside_iff (hroot : p.projectRoot = some root) (hrooted : Path.isRooted root)
    {arguments : Text} (hs : source? invocation arguments = some source) :
    p.isOutside (some source) ↔ ¬ Path.IsInside (Path.normalize root) source := by
  obtain ⟨path, rfl⟩ := exists_normalize_of_source? hs
  simp [isOutside, hroot, ← Path.isWithin_normalize_iff hrooted path]

theorem source_of_mem_record (hscope : p.scope = .file) {source : Option Text}
    (h : .settings (.file path) language entries ∈ (p.record invocation found source).1.deposits) :
    source = some path := by
  obtain ⟨requests, hr⟩ := exists_builtinDeposits found
    (found.detector.reader.language.or (source.bind Language.ofFileName?))
    (found.detector.reader.read invocation.directory found.arguments
      p.contents).findings.builtinArguments
  simp only [record, hr, hscope, List.mem_cons, List.mem_map, reduceCtorEq, and_false,
    exists_false, or_false, Deposit.settings.injEq] at h
  obtain ⟨hresource, -, -⟩ := h
  cases source with
  | none => cases hresource
  | some path' => exact congrArg some (Resource.file.inj hresource).symm

theorem isInside_of_mem_process (hscope : p.scope = .file) (hroot : p.projectRoot = some root)
    (hrooted : Path.isRooted root)
    (h : .settings (.file path) language entries ∈ (p.process state invocation).2.1.deposits) :
    Path.IsInside (Path.normalize root) path := by
  cases hf : (state.memory.detect p.registry p.expander invocation.line).found with
  | none => simp [process_undetected hf] at h
  | some found =>
    cases ho : p.isOutside (source? invocation found.arguments) with
    | true => simp [process_outside hf ho] at h
    | false =>
      rw [process_recognized hf ho] at h
      have hs := source_of_mem_record hscope h
      rw [hs] at ho
      by_contra hi
      rw [(isOutside_iff hroot hrooted hs).mpr hi] at ho
      cases ho

/-! ### Any number of invocations -/

theorem isInside_of_mem_processAll (hscope : p.scope = .file) (hroot : p.projectRoot = some root)
    (hrooted : Path.isRooted root) (invocations : List Invocation)
    (h : .settings (.file path) language entries ∈ (p.processAll state invocations).1.deposits) :
    Path.IsInside (Path.normalize root) path := by
  induction invocations using List.reverseRecOn with
  | nil => cases h
  | append_singleton invocations invocation ih =>
    rw [processAll_append_singleton, Yield.deposits_append, List.mem_append] at h
    rcases h with h | h
    · exact ih h
    · exact isInside_of_mem_process hscope hroot hrooted h

/-- Files that settings are deposited for are inside of the root. A command whose source is known
and not inside deposits nothing and asks for no file, and only the two counters of such commands
change; all other commands are recorded. -/
theorem project_filter (hscope : p.scope = .file) (hroot : p.projectRoot = some root)
    (hrooted : Path.isRooted root) :
    (∀ state invocations path language entries,
      .settings (.file path) language entries ∈ (p.processAll state invocations).1.deposits →
        Path.IsInside (Path.normalize root) path) ∧
    ∀ (state : ProcessorState) (invocation : Invocation) (found : Detection),
      let detected := state.memory.detect p.registry p.expander invocation.line
      detected.found = some found →
      let s := state.statistics
      ((∃ source, source? invocation found.arguments = some source ∧
          ¬ Path.IsInside (Path.normalize root) source) →
        p.process state invocation = (.outsideOfProject, {},
          { memory := detected.memory
            statistics := { s with
              commandsRecognized := s.commandsRecognized + 1
              outsideOfProject := s.outsideOfProject + 1 } })) ∧
      ((∀ source, source? invocation found.arguments = some source →
          Path.IsInside (Path.normalize root) source) →
        (p.process state invocation).1 = .recognized) := by
  refine ⟨fun state invocations path language entries h =>
    isInside_of_mem_processAll hscope hroot hrooted invocations h, ?_⟩
  intro state invocation found detected hf s
  constructor
  · rintro ⟨source, hs, hi⟩
    have ho : p.isOutside (source? invocation found.arguments) = true := by
      rw [hs]
      exact (isOutside_iff hroot hrooted hs).mpr hi
    exact process_outside hf ho
  · intro hi
    have ho : p.isOutside (source? invocation found.arguments) = false := by
      cases hs : source? invocation found.arguments with
      | none => simp [isOutside]
      | some source =>
        rw [← Bool.not_eq_true, isOutside_iff hroot hrooted hs, not_not]
        exact hi source hs
    rw [process_recognized hf ho]

theorem project_filter_parent_directory :
    ∃ r, Registry.ofTools {} [] = .ok r ∧
      let p : Processor :=
        { registry := r, expander := fun _ => none, contents := fun _ => none
          projectRoot := some "/opt/x/../project".toList }
      let invocation : Invocation :=
        { directory := "/opt/project//build".toList, line := "gcc -c a.c".toList
          file := some "../../project2/./a.c".toList }
      let detected := DetectionMemory.detect {} r (fun _ => none) invocation.line
      ∃ found, detected.found = some found ∧
        source? invocation found.arguments = some "/opt/project2/a.c".toList ∧
        p.process {} invocation = (.outsideOfProject, {},
          { memory := detected.memory
            statistics := { commandsRecognized := 1, outsideOfProject := 1 } }) := by
  obtain ⟨r, hr⟩ := Registry.exists_ofTools_builtin
  refine ⟨r, hr, ?_⟩
  intro p invocation detected
  obtain ⟨found, hd, -, -⟩ := Registry.detect_gcc hr (fun _ => none) "-c a.c".toList
  have hf : detected.found = some found :=
    (DetectionMemory.Faithful.detect (m := {}) (by simp [DetectionMemory.Faithful]) r _).1.trans hd
  have hs : source? invocation found.arguments = some "/opt/project2/a.c".toList := by
    change some (Path.normalize (Path.resolve _ _)) = _
    decide
  have hi : ¬ Path.IsInside (Path.normalize "/opt/x/../project".toList)
      "/opt/project2/a.c".toList := fun h => by
    have hw : Path.isWithin (Path.normalize "/opt/x/../project".toList)
        "/opt/project2/a.c".toList := List.isPrefixOf_iff_prefix.mpr h.within
    revert hw
    decide
  exact ⟨found, hf, hs, ((project_filter (p := p) rfl rfl (by decide)).2 {} invocation found hf).1
    ⟨_, hs, hi⟩⟩

end Processor

end SettingsScan
