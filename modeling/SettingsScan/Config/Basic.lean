import SettingsScan.Detection.Registry
import SettingsScan.Report.Basic
import SettingsScan.Yaml.Writer

/-! # The configuration

What the detectors recognise and how settings are recorded. Everything has a default.
-/

namespace SettingsScan

open Json (Value)

/-- Versioned tool names, like `gcc-11`. -/
structure VersionSuffix where
  enabled : Bool := false
  pattern : Text := defaultVersionSuffix
  deriving DecidableEq, Repr

/-- When tool paths with backslashes are recognised. -/
inductive WindowsPaths where
  /-- Only where they are the paths of the system, which is a POSIX one here. -/
  | auto
  | always
  | never
  deriving DecidableEq, Repr

namespace WindowsPaths

def all : List WindowsPaths := [auto, always, never]

def word : WindowsPaths → Text
  | auto => "auto"
  | always => "always"
  | never => "never"

def ofWord? (w : Text) : Option WindowsPaths :=
  all.find? (·.word = w)

def enabled : WindowsPaths → Bool
  | auto => false
  | always => true
  | never => false

end WindowsPaths

structure DetectionConfig where
  versionSuffix : VersionSuffix := {}
  windowsPaths : WindowsPaths := .auto
  shortFileNames : Bool := true
  /-- Tools that are tried before the built-in ones. -/
  tools : List ToolSpec := []
  deriving DecidableEq, Repr

def DetectionConfig.options (d : DetectionConfig) : DetectionOptions where
  versionSuffix := if d.versionSuffix.enabled then some d.versionSuffix.pattern else none
  windowsPaths := d.windowsPaths.enabled
  shortFileNames := d.shortFileNames

structure OutputConfig where
  scope : Scope := .file
  /-- Sources outside of this directory are ignored. -/
  projectRoot : Option Text := none
  deriving DecidableEq, Repr

structure Config where
  detection : DetectionConfig := {}
  output : OutputConfig := {}
  deriving DecidableEq, Repr

namespace Config

/-- The version of the format, which every configuration file has to name. -/
def schemaVersion : Text := "1.0"

def versionSuffixValue (v : VersionSuffix) : Value :=
  .object [("enabled", .bool v.enabled), ("pattern", .string v.pattern)]

def toolValue (t : ToolSpec) : Value :=
  .object <|
    [("name".toList, .string t.name), ("dialect".toList, .string t.family.word)] ++
    Report.optional "language" (t.language.map Language.word) ++
    Report.optional "extension" t.extension ++
    [("windows_paths".toList, .bool t.windowsPaths)]

def detectionValue (d : DetectionConfig) : Value :=
  .object
    [("version_suffix", versionSuffixValue d.versionSuffix),
     ("windows_paths", .string d.windowsPaths.word),
     ("short_file_names", .bool d.shortFileNames),
     ("tools", .array (d.tools.map toolValue))]

def outputValue (o : OutputConfig) : Value :=
  .object <|
    ("scope".toList, .string o.scope.word) :: Report.optional "project_root" o.projectRoot

/-- The configuration as data, with everything written out that has a value. -/
def value (c : Config) : Value :=
  .object
    [("schema", .string schemaVersion), ("detection", detectionValue c.detection),
     ("output", outputValue c.output)]

def describe (c : Config) : Text :=
  "Configuration:\n".toList ++ Yaml.Writer.text c.value

end Config

end SettingsScan
