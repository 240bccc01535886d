import SettingsScan.Proofs.Invocation.ProjectFilter
import SettingsScan.Proofs.Path.Directory

/-! # The folders that settings are recorded for

Commands are recorded for the same folder where slashes tell the same directory of their sources.
For a rooted source this keeps every other directory apart, and for no other source it does.
-/

namespace SettingsScan

/-- The resources that settings were deposited for, in order. -/
def Yield.resources (yield : Yield) : List Resource :=
  (yield.deposits.filterMap Deposit.call?).map (·.resource)

namespace Path

theorem ofSource_folder_normalize (path : Text) :
    Resource.ofSource .folder (some (normalize path)) =
      (slashDirectory? path).elim .project fun cs => .folder (ofComponents cs) := by
  rw [Resource.ofSource, parent?_normalize]
  cases slashDirectory? path <;> rfl

theorem same_ofSource_folder_iff (path path' : Text) :
    (Resource.ofSource .folder (some (normalize path))).Same
        (.ofSource .folder (some (normalize path'))) ↔
      slashDirectory? path = slashDirectory? path' := by
  rw [ofSource_folder_normalize, ofSource_folder_normalize]
  cases h : slashDirectory? path with
  | none => cases slashDirectory? path' <;> simp [Resource.Same]
  | some cs =>
    cases h' : slashDirectory? path' with
    | none => simp [Resource.Same]
    | some cs' =>
      simp [Resource.Same, components_ofComponents (isNormal_slashDirectory h),
        components_ofComponents (isNormal_slashDirectory h')]

end Path

/-- The invocation is recognised and its settings go to a folder. Its source resolves to an
absolute path, which is in the directory. -/
structure RecordsIn (p : Processor) (state : ProcessorState) (invocation : Invocation)
    (path : Text) (d : Path.Location) : Prop where
  scope : p.scope = .folder
  recognized : (p.process state invocation).1 = .recognized
  source : ∃ found file,
    (state.memory.detect p.registry p.expander invocation.line).found = some found ∧
      invocation.file.or (SourceFile.find? found.arguments) = some file ∧
      path = Path.resolve invocation.directory file
  absolute : Path.isAbsolute path
  directory : Path.directory? path = some d

variable {p p' : Processor} {state state' : ProcessorState} {invocation invocation' : Invocation}
  {path path' : Text} {d d' : Path.Location}

/-- Without a filter every detected command is recognised. -/
theorem Processor.recognized_of_found {found : Detection}
    (h : (state.memory.detect p.registry p.expander invocation.line).found = some found)
    (hp : p.projectRoot = none) : (p.process state invocation).1 = .recognized := by
  rw [process_recognized h (by simp [isOutside, hp])]

theorem Processor.resources_record (p : Processor) (invocation : Invocation) (found : Detection)
    (source : Option Text) :
    (p.record invocation found source).1.resources = [.ofSource p.scope source] := by
  obtain ⟨requests, hr⟩ := exists_builtinDeposits found
    (found.detector.reader.language.or (source.bind Language.ofFileName?))
    (found.detector.reader.read invocation.directory found.arguments
      p.contents).findings.builtinArguments
  have hnone : (requests.map Deposit.builtin).filterMap Deposit.call? = [] := by
    simp [Deposit.call?]
  simp only [Yield.resources, record, hr, List.filterMap_cons, Deposit.call?, List.map_cons, hnone,
    List.map_nil]

namespace RecordsIn

theorem resources_eq (h : RecordsIn p state invocation path d) :
    (p.process state invocation).2.1.resources =
      [.ofSource .folder (some (Path.normalize path))] := by
  obtain ⟨found, file, hf, hfile, rfl⟩ := h.source
  have hsource : Processor.source? invocation found.arguments =
      some (Path.normalize (Path.resolve invocation.directory file)) := by
    rw [Processor.source?, hfile, Option.map_some]
  cases ho : p.isOutside (Processor.source? invocation found.arguments) with
  | true =>
    have hr := h.recognized
    rw [Processor.process_outside hf ho] at hr
    cases hr
  | false =>
    rw [Processor.process_recognized hf ho, hsource, Processor.resources_record, h.scope]

theorem of_file (h : RecordsIn p state invocation path d) (ha : Path.isAbsolute path')
    (hd : Path.directory? path' = some d') :
    RecordsIn { p with projectRoot := none } state { invocation with file := some path' }
      path' d' := by
  obtain ⟨found, file, hf, -, -⟩ := h.source
  exact ⟨h.scope, Processor.recognized_of_found hf rfl,
    ⟨found, path', hf, rfl, (Path.resolve_of_isAbsolute _ ha).symm⟩, ha, hd⟩

def folderProcessor (r : Registry) : Processor where
  registry := r
  expander := fun _ => none
  contents := fun _ => none
  scope := .folder

theorem of_gcc {r : Registry} (hr : Registry.ofTools {} [] = .ok r) (directory file rest : Text)
    (ha : Path.isAbsolute (Path.resolve directory file))
    (hd : Path.directory? (Path.resolve directory file) = some d) :
    RecordsIn (folderProcessor r) {} { directory, line := "gcc ".toList ++ rest, file := some file }
      (Path.resolve directory file) d := by
  obtain ⟨found, hdetect, -, -⟩ := Registry.detect_gcc hr (fun _ => none) rest
  have hf : (DetectionMemory.detect {} r (fun _ => none) ("gcc ".toList ++ rest)).found =
      some found :=
    (DetectionMemory.Faithful.detect (m := {}) (by simp [DetectionMemory.Faithful]) r _).1.trans
      hdetect
  exact ⟨rfl, Processor.recognized_of_found hf rfl, ⟨found, file, hf, rfl, rfl⟩, ha, hd⟩

/-- Two commands are recorded for one resource each, and for the same one where slashes tell the
same directory of their sources. The source is kept in a folder apart from all others in other
directories and together with those in its own, if and only if it is rooted. -/
theorem folders_iff (h : RecordsIn p state invocation path d) :
    (∀ p' state' invocation' path' d', RecordsIn p' state' invocation' path' d' →
      ∃ a b, (p.process state invocation).2.1.resources = [a] ∧
        (p'.process state' invocation').2.1.resources = [b] ∧
        (a.Same b ↔ Path.slashDirectory? path = Path.slashDirectory? path')) ∧
    (Path.isRooted path ↔
      ∀ p' state' invocation' path' d', RecordsIn p' state' invocation' path' d' →
        ∃ folder b, (p.process state invocation).2.1.resources = [.folder folder] ∧
          (p'.process state' invocation').2.1.resources = [b] ∧
          ((Resource.folder folder).Same b ↔ d = d')) := by
  constructor
  · intro p' state' invocation' path' d' h'
    exact ⟨_, _, h.resources_eq, h'.resources_eq, Path.same_ofSource_folder_iff path path'⟩
  constructor
  · intro hr p' state' invocation' path' d' h'
    obtain ⟨above, hs, -⟩ : ∃ above, Path.slashDirectory? path = some above ∧ _ :=
      Option.map_eq_some_iff.mp ((Path.directory?_of_isRooted hr).symm.trans h.directory)
    have hfolder : Resource.ofSource .folder (some (Path.normalize path)) =
        .folder (Path.ofComponents above) := by
      rw [Path.ofSource_folder_normalize, hs]
      rfl
    refine ⟨_, _, h.resources_eq.trans (by rw [hfolder]), h'.resources_eq, ?_⟩
    rw [← hfolder, Path.same_ofSource_folder_iff]
    exact Path.slashDirectory?_eq_iff hr h'.absolute h.directory h'.directory
  · intro hall
    by_contra hr
    -- a source that slashes put into the same folder, in another directory
    obtain ⟨folder, -, hfolder, -, -⟩ := hall _ _ _ _ _ h
    obtain ⟨above, hs⟩ : ∃ above, Path.slashDirectory? path = some above := by
      rw [h.resources_eq, Path.ofSource_folder_normalize] at hfolder
      cases hs : Path.slashDirectory? path with
      | none => rw [hs] at hfolder; cases hfolder
      | some above => exact ⟨above, rfl⟩
    obtain ⟨path', d', ha, hs', hd', hne⟩ :=
      Path.exists_slashDirectory?_eq (by simpa using hr) hs d
    have h' := h.of_file ha hd'
    obtain ⟨folder, b, hfolder, hb, hsame⟩ := hall _ _ _ _ _ h'
    rw [h.resources_eq, List.singleton_inj] at hfolder
    rw [h'.resources_eq, List.singleton_inj] at hb
    rw [← hfolder, ← hb, Path.same_ofSource_folder_iff, hs, hs'] at hsame
    exact hne (hsame.mp rfl).symm

theorem folders_iff_sources :
    ∃ r, Registry.ofTools {} [] = .ok r ∧
      let p := folderProcessor r
      let a : Invocation :=
        { directory := "/p/src".toList, line := "gcc -c a.c".toList, file := some "a.c".toList }
      let b : Invocation :=
        { directory := "/p/lib".toList, line := "gcc -c b.c".toList
          file := some "../src/./b.c".toList }
      let d : Path.Location :=
        { root := ['/'], components := [.root, .normal "p".toList, .normal "src".toList] }
      RecordsIn p {} a "/p/src/a.c".toList d ∧ RecordsIn p {} b "/p/src/b.c".toList d ∧
        ∃ folder resource, (p.process {} a).2.1.resources = [.folder folder] ∧
          (p.process {} b).2.1.resources = [resource] ∧ (Resource.folder folder).Same resource := by
  obtain ⟨r, hr⟩ := Registry.exists_ofTools_builtin
  refine ⟨r, hr, ?_⟩
  intro p a b d
  have ha : RecordsIn p {} a "/p/src/a.c".toList d :=
    of_gcc hr "/p/src".toList "a.c".toList "-c a.c".toList (by decide) (by decide)
  have hb : RecordsIn p {} b "/p/src/b.c".toList d :=
    of_gcc hr "/p/lib".toList "../src/./b.c".toList "-c b.c".toList (by decide) (by decide)
  obtain ⟨folder, resource, hfolder, hresource, hsame⟩ :=
    (folders_iff ha).2.mp rfl _ _ _ _ _ hb
  exact ⟨ha, hb, folder, resource, hfolder, hresource, hsame.mpr rfl⟩

/-- Sources on a drive, in different directories. -/
theorem same_folder_of_different_directories :
    ∃ r, Registry.ofTools {} [] = .ok r ∧
      let p := folderProcessor r
      let a : Invocation :=
        { directory := "C:\\build".toList, line := "gcc -DX -c a.c".toList
          file := some "C:\\a\\a.c".toList }
      let b : Invocation :=
        { directory := "C:\\build".toList, line := "gcc -DY -c b.c".toList
          file := some "C:\\b\\b.c".toList }
      RecordsIn p {} a "C:\\a\\a.c".toList
          { root := "C:".toList, components := [.root, .normal "a".toList] } ∧
        RecordsIn p {} b "C:\\b\\b.c".toList
          { root := "C:".toList, components := [.root, .normal "b".toList] } ∧
        (p.process {} a).2.1.resources = [.folder []] ∧
        (p.process {} b).2.1.resources = [.folder []] := by
  obtain ⟨r, hr⟩ := Registry.exists_ofTools_builtin
  refine ⟨r, hr, ?_⟩
  intro p a b
  have ha : RecordsIn p {} a "C:\\a\\a.c".toList
      { root := "C:".toList, components := [.root, .normal "a".toList] } :=
    of_gcc hr "C:\\build".toList "C:\\a\\a.c".toList "-DX -c a.c".toList (by decide) (by decide)
  have hb : RecordsIn p {} b "C:\\b\\b.c".toList
      { root := "C:".toList, components := [.root, .normal "b".toList] } :=
    of_gcc hr "C:\\build".toList "C:\\b\\b.c".toList "-DY -c b.c".toList (by decide) (by decide)
  exact ⟨ha, hb, ha.resources_eq, hb.resources_eq⟩

end RecordsIn

end SettingsScan
