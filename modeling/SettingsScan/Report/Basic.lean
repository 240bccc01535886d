import SettingsScan.Json.Printer
import SettingsScan.Report.Statistics
import SettingsScan.Report.Store

/-! # The report

The outcome of a scan as a JSON value. What is absent is left out: a macro without a value, a
resource or request without a language.
-/

namespace SettingsScan

open Json (Value)

structure Report where
  resources : List (Resource × ResourceSettings)
  requests : List BuiltinRequest
  diagnostics : List Diagnostic
  statistics : Statistics
  deriving DecidableEq, Repr

namespace Report

def ofStore (store : Store) (statistics : Statistics) : Report where
  resources := store.resources
  requests := store.requests
  diagnostics := store.diagnostics
  statistics := statistics

/-- A field that is left out when there is no value. -/
def optional (name : Text) (v : Option Text) : List (Text × Value) :=
  match v with
  | some t => [(name, .string t)]
  | none => []

def settingValue (s : Setting) : Value :=
  .object <|
    [("kind".toList, .string s.kind.word), ("name".toList, .string s.name)] ++
    optional "value" s.value ++
    [("read_only".toList, .bool s.readOnly), ("built_in".toList, .bool s.builtIn)]

def resourceValue : Resource → Value
  | .file path => .object [("file", .string path)]
  | .folder path => .object [("folder", .string path)]
  | .project => .string "project"

def requestValue (r : BuiltinRequest) : Value :=
  .object <|
    ("command".toList, .string r.command) :: optional "language" (r.language.map Language.word) ++
    [("detection".toList, .string r.method.word),
     ("arguments".toList, .array (r.arguments.map Value.string))]

def diagnosticValue (d : Diagnostic) : Value :=
  .object [("location", .string d.location), ("message", .string d.message)]

def settingsFields (s : ResourceSettings) : List (Text × Value) :=
  optional "language" (s.language.map Language.word) ++
    [("entries".toList, .array (s.entries.map settingValue))]

def statisticsValue (s : Statistics) : Value :=
  .object (s.counters.map fun (_, key, n) => (key, Value.nat n))

def value (r : Report) : Value :=
  .object
    [("resources", .array (r.resources.map fun (resource, settings) =>
        .object (("resource".toList, resourceValue resource) :: settingsFields settings))),
     ("builtin_detection", .array (r.requests.map requestValue)),
     ("diagnostics", .array (r.diagnostics.map diagnosticValue)),
     ("statistics", statisticsValue r.statistics)]

/-- The report as it is written. -/
def text (r : Report) : Text :=
  r.value.pretty

end Report

end SettingsScan
