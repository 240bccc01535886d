import SettingsScan.Detection.Memory
import SettingsScan.Invocation.Basic
import SettingsScan.Report.Statistics
import SettingsScan.Report.Store
import SettingsScan.SourceFile

/-! # Processing invocations

An invocation goes through detection, the project filter and the reading of its arguments, and
what is found is deposited. The processor remembers the detection cache and the counters, and
which files were asked for.
-/

namespace SettingsScan

/-- What happened to an invocation. -/
inductive Outcome where
  | recognized
  | noDetector
  | outsideOfProject
  deriving DecidableEq, Repr

/-- What a processor works with. -/
structure Processor where
  registry : Registry
  expander : Expander
  contents : Contents
  scope : Scope := .file
  /-- Sources that are not within this directory are left out. -/
  projectRoot : Option Text := none

structure ProcessorState where
  memory : DetectionMemory := {}
  statistics : Statistics := {}
  deriving DecidableEq, Repr

/-- What came of one invocation or of several. -/
structure Yield where
  deposits : List Deposit := []
  requested : List Text := []
  deriving DecidableEq, Repr

namespace Yield

def append (a b : Yield) : Yield where
  deposits := a.deposits ++ b.deposits
  requested := a.requested ++ b.requested

instance : Append Yield := ⟨append⟩

@[simp] theorem deposits_append (a b : Yield) :
    (a ++ b).deposits = a.deposits ++ b.deposits := rfl

@[simp] theorem requested_append (a b : Yield) :
    (a ++ b).requested = a.requested ++ b.requested := rfl

end Yield

namespace Processor

/-- The source file of an invocation: the one it names, or the first one in the arguments. -/
def source? (invocation : Invocation) (arguments : Text) : Option Text :=
  (invocation.file.or (SourceFile.find? arguments)).map fun file =>
    Path.normalize (Path.resolve invocation.directory file)

/-- Whether a source is kept out by the project filter. -/
def isOutside (p : Processor) (source : Option Text) : Bool :=
  match p.projectRoot, source with
  | some root, some file => !Path.isWithin (Path.normalize root) file
  | _, _ => false

/-- The request for the built-in settings of a command, unless there is no method to get them. -/
def builtinDeposits (found : Detection) (language : Option Language) (arguments : List Text) :
    List Deposit :=
  let method := found.detector.reader.family.builtinMethod.resolve arguments
  if method = .none then []
  else [.builtin { command := found.command, language, method, arguments }]

/-- What a detected invocation deposits. -/
def record (p : Processor) (invocation : Invocation) (found : Detection)
    (source : Option Text) : Yield × Nat :=
  let reader := found.detector.reader
  let parsed := reader.read invocation.directory found.arguments p.contents
  let entries := parsed.findings.settings
  let language := reader.language.or (source.bind Language.ofFileName?)
  ({ deposits := .settings (.ofSource p.scope source) language entries ::
       builtinDeposits found language parsed.findings.builtinArguments
     requested := parsed.requested }, entries.length)

/-- Examines one invocation. -/
def process (p : Processor) (state : ProcessorState) (invocation : Invocation) :
    Outcome × Yield × ProcessorState :=
  let detected := state.memory.detect p.registry p.expander invocation.line
  let memory := detected.memory
  let s := state.statistics
  match detected.found with
  | none =>
    (.noDetector, {},
      { memory, statistics := { s with linesWithoutDetector := s.linesWithoutDetector + 1 } })
  | some found =>
    let s := { s with commandsRecognized := s.commandsRecognized + 1 }
    let source := source? invocation found.arguments
    if p.isOutside source then
      (.outsideOfProject, {},
        { memory, statistics := { s with outsideOfProject := s.outsideOfProject + 1 } })
    else
      let (yield, count) := p.record invocation found source
      (.recognized, yield,
        { memory, statistics := { s with settingsEntries := s.settingsEntries + count } })

end Processor

end SettingsScan
