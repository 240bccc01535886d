import SettingsScan.Config.Load
import SettingsScan.Invocation.BuildLog
import SettingsScan.Invocation.Database
import SettingsScan.Program.Usage
import SettingsScan.Report.Basic

/-! # A run of the program

The input is scanned as the configuration asks for, and the report is written when all of it is
known. What the scan learns from its surroundings are contents of files and canonical paths; it
tells what it asked for.
-/

namespace SettingsScan.Program

/-- What a run can learn from its surroundings. -/
structure Surroundings where
  /-- The current directory. -/
  directory : Text
  /-- The configuration directory of the user. -/
  configHome : Option Text := none
  read : Text → Except FileError Bytes
  /-- The path of an existing file without links. -/
  canonical? : Text → Option Text
  standardInput : Bytes := []

inductive Question where
  | content (path : Text)
  | canonicalPath (path : Text)
  deriving DecidableEq, Repr

/-- Why a run does not come to an end. -/
inductive Failure where
  | config (reason : ConfigError)
  | registry (reason : RegistryError)
  | openLog (file : Text)
  | scanLog (file : Text)
  | scanDatabase (file : Text)
  | createReport (file : Text)
  | writeReport (file : Text)
  deriving DecidableEq, Repr

def Failure.message : Failure → Text
  | config reason => reason.message
  | registry _ => "Failed to build the compiler detectors"
  | openLog file => "Failed to open build output ".toList ++ file
  | scanLog file => "Failed to scan build output ".toList ++ file
  | scanDatabase file => "Failed to scan compilation database ".toList ++ file
  | createReport file => "Failed to create report ".toList ++ file
  | writeReport file => "Failed to write report ".toList ++ file

/-- What a run gives, with everything it asked for. -/
structure Answer (α : Type) where
  asked : List Question := []
  result : Except Failure α

namespace Answer

variable {α β : Type}

/-- Goes on with what was given; the questions add up. -/
def andThen (a : Answer α) (next : α → Answer β) : Answer β :=
  match a.result with
  | .ok given =>
    let b := next given
    { asked := a.asked ++ b.asked, result := b.result }
  | .error reason => { asked := a.asked, result := .error reason }

end Answer

/-- The start of a verbatim path, which is dropped. -/
def verbatimStart : Text := "\\\\?\\"

/-- The expansion of a tool token: its canonical path, if that is a different text. -/
def Surroundings.expander (s : Surroundings) : Expander := fun token =>
  (s.canonical? token).bind fun path =>
    let long := (Text.strip? verbatimStart path).getD path
    if long = token then none else some long

/-- The files that response files are read from. -/
def Surroundings.contents (s : Surroundings) : Contents := fun path =>
  (s.read path).toOption

def configuration (s : Surroundings) (file : Option Text) : Answer Config :=
  let (tried, found) := Config.load s.read s.directory s.configHome file
  { asked := tried.map .content, result := found.mapError .config }

/-- The processor that a configuration asks for. -/
def processor (s : Surroundings) (c : Config) : Except Failure Processor := do
  let registry ← (Registry.ofTools c.detection.options c.detection.tools).mapError .registry
  return { registry, expander := s.expander, contents := s.contents, scope := c.output.scope
           projectRoot := c.output.projectRoot.map (Path.join s.directory) }

/-- What a scan asked for: response files, and expansions of tokens. -/
def questions (yield : Yield) (state : ProcessorState) : List Question :=
  yield.requested.map .content ++ state.memory.shortNames.map fun (token, _) =>
    .canonicalPath token

def reportOf (yield : Yield) (state : ProcessorState) : Report :=
  Report.ofStore (({} : Store).addAll yield.deposits) state.statistics

def scanDatabase (s : Surroundings) (p : Processor) (file : Text) : Answer Report :=
  match s.read file with
  | .error _ => { asked := [.content file], result := .error (.scanDatabase file) }
  | .ok bytes =>
    let (progress, failure) := Database.scan p {} bytes
    { asked := .content file :: questions progress.yield progress.state
      result := match failure with
        | none => .ok (reportOf progress.yield progress.state)
        | some _ => .error (.scanDatabase file) }

def scanLogBytes (s : Surroundings) (p : Processor) (directory : Option Text) (bytes : Bytes) :
    Answer Report :=
  let directory := match directory with
    | some path => Path.join s.directory path
    | none => s.directory
  let progress := BuildLog.scan p {} directory bytes
  { asked := questions progress.yield progress.state
    result := .ok (reportOf progress.yield progress.state) }

/-- The bytes of a build log. A directory can be opened, but not read. -/
def logBytes (s : Surroundings) (file : Text) : Answer Bytes :=
  if file = standardStream then { result := .ok s.standardInput }
  else
    { asked := [.content file]
      result := match s.read file with
        | .ok bytes => .ok bytes
        | .error .isADirectory => .error (.scanLog file)
        | .error _ => .error (.openLog file) }

def scanInput (s : Surroundings) (p : Processor) : Input → Answer Report
  | .database file => scanDatabase s p file
  | .buildLog file directory => (logBytes s file).andThen (scanLogBytes s p directory)

/-- The report that the arguments ask for. -/
def report (s : Surroundings) (a : Arguments) : Answer Report :=
  (configuration s a.config).andThen fun c =>
    match processor s c with
    | .error reason => { result := .error reason }
    | .ok p => scanInput s p a.input

/-- A report as it is written: its text and a line feed. -/
def written (r : Report) : Text :=
  r.text ++ ['\n']

/-- How a run ends. -/
inductive Ending where
  | refused (reason : Refusal)
  | failed (reason : Failure)
  | done (standardOutput : Text)
  deriving DecidableEq, Repr

def Ending.exitCode : Ending → Nat
  | refused reason => reason.exitCode
  | failed _ => 1
  | done _ => 0

def Ending.standardOutput : Ending → Text
  | refused reason => reason.standardOutput
  | failed _ => []
  | done text => text

/-- The text about a failure for the standard error. -/
def Ending.failureText? : Ending → Option Text
  | failed reason => some ("Error: ".toList ++ reason.message)
  | _ => none

/-- A file system with what a run needs besides. -/
structure Machine where
  files : FileSystem
  configHome : Option Text := none
  standardInput : Bytes := []
  deriving DecidableEq, Repr

namespace Machine

def surroundings (m : Machine) : Surroundings where
  directory := FileSystem.pathOf m.files.current
  configHome := m.configHome
  read := m.files.read
  canonical? := m.files.canonical?
  standardInput := m.standardInput

/-- Writes a report to its file or to the standard output. -/
def deliver (m : Machine) (output : Text) (r : Report) : Ending × FileSystem :=
  if output = standardStream then (.done (written r), m.files)
  else
    match m.files.write output (Encoding.utf8 (written r)) with
    | .done files => (.done [], files)
    | .notCreated _ => (.failed (.createReport output), m.files)
    | .noRoom => (.failed (.writeReport output), m.files)

/-- Runs the program with the given words behind its name. The file system is the one after it. -/
def run (m : Machine) (words : List Text) : Ending × FileSystem :=
  match Arguments.read words with
  | .error reason => (.refused reason, m.files)
  | .ok a =>
    match (report m.surroundings a).result with
    | .error reason => (.failed reason, m.files)
    | .ok r => m.deliver a.output r

end Machine

end SettingsScan.Program
