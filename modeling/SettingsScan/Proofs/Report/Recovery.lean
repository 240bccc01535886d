import SettingsScan.Proofs.Json.Pretty
import SettingsScan.Report.Basic

/-! # Reports are read back

A written report is JSON, and everything in it can be recovered from its text, in order: which
fields were left out, and what kind of resource each one is.
-/

namespace SettingsScan

open Encoding (utf8)
open Json (Value)

/-! ### Readers -/

namespace Json.Value

def string? : Value → Option Text
  | string t => some t
  | _ => none

def text? (v : Value) (name : Text) : Option Text :=
  (v.field? name).bind string?

def optionalText? (v : Value) (name : Text) : Option (Option Text) :=
  match v.field? name with
  | none => some none
  | some w => w.string?.map some

def bool? (v : Value) (name : Text) : Option Bool :=
  match v.field? name with
  | some (bool b) => some b
  | _ => none

def nat? (v : Value) (name : Text) : Option Nat :=
  match v.field? name with
  | some (number (.natural n)) => some n
  | _ => none

def list? {α : Type} (v : Value) (name : Text) (read? : Value → Option α) : Option (List α) :=
  match v.field? name with
  | some (array items) => items.mapM read?
  | _ => none

def language? (v : Value) : Option (Option Language) :=
  (v.optionalText? "language").bind fun
    | none => some none
    | some w => (Language.ofWord? w).map some

end Json.Value

namespace SettingKind

def ofWord? (w : Text) : Option SettingKind :=
  all.find? (·.word = w)

theorem ofWord?_word (kind : SettingKind) : ofWord? kind.word = some kind := by
  cases kind <;> decide

end SettingKind

namespace BuiltinMethod

def ofWord? (w : Text) : Option BuiltinMethod :=
  all.find? (·.word = w)

theorem ofWord?_word (method : BuiltinMethod) : ofWord? method.word = some method := by
  cases method <;> decide

end BuiltinMethod

def Setting.ofValue? (v : Value) : Option Setting := do
  let kind ← (v.text? "kind").bind SettingKind.ofWord?
  let name ← v.text? "name"
  let value ← v.optionalText? "value"
  let readOnly ← v.bool? "read_only"
  let builtIn ← v.bool? "built_in"
  return { kind, name, value, readOnly, builtIn }

def Resource.ofValue? : Value → Option Resource
  | .object [(name, .string path)] =>
    if name = "file".toList then some (.file path)
    else if name = "folder".toList then some (.folder path)
    else none
  | .string name => if name = "project".toList then some .project else none
  | _ => none

def ResourceSettings.ofValue? (v : Value) : Option ResourceSettings := do
  let language ← v.language?
  let entries ← v.list? "entries" Setting.ofValue?
  return { language, entries }

def BuiltinRequest.ofValue? (v : Value) : Option BuiltinRequest := do
  let command ← v.text? "command"
  let language ← v.language?
  let method ← (v.text? "detection").bind BuiltinMethod.ofWord?
  let arguments ← v.list? "arguments" Value.string?
  return { command, language, method, arguments }

def Diagnostic.ofValue? (v : Value) : Option Diagnostic := do
  let location ← v.text? "location"
  let message ← v.text? "message"
  return { location, message }

def Statistics.ofValue? (v : Value) : Option Statistics := do
  let linesRead ← v.nat? "lines_read"
  let commandsRecognized ← v.nat? "commands_recognized"
  let linesWithoutDetector ← v.nat? "lines_without_detector"
  let malformedEntries ← v.nat? "malformed_entries"
  let outsideOfProject ← v.nat? "outside_of_project"
  let settingsEntries ← v.nat? "settings_entries"
  return { linesRead, commandsRecognized, linesWithoutDetector, malformedEntries,
           outsideOfProject, settingsEntries }

namespace Report

def resourceOfValue? (v : Value) : Option (Resource × ResourceSettings) := do
  let resource ← (v.field? "resource").bind Resource.ofValue?
  let settings ← ResourceSettings.ofValue? v
  return (resource, settings)

def ofValue? (v : Value) : Option Report := do
  let resources ← v.list? "resources" resourceOfValue?
  let requests ← v.list? "builtin_detection" BuiltinRequest.ofValue?
  let diagnostics ← v.list? "diagnostics" Diagnostic.ofValue?
  let statistics ← (v.field? "statistics").bind Statistics.ofValue?
  return { resources, requests, diagnostics, statistics }

def ofBytes? (bytes : Bytes) : Option Report :=
  (Value.ofWhole? bytes).toOption.bind ofValue?

/-! ### Recovery from values -/

theorem list?_of_field? {α : Type} {read? : Value → Option α} {write : α → Value} {v : Value}
    {name : Text} {as : List α} (hfield : v.field? name = some (.array (as.map write)))
    (h : ∀ a, read? (write a) = some a) : v.list? name read? = some as := by
  have hmap (as : List α) : (as.map write).mapM read? = some as := by
    induction as with
    | nil => rfl
    | cons a as ih => simp [h, ih]
  rw [Value.list?, hfield]
  exact hmap as

theorem language?_of_field? {v : Value} {language : Option Language}
    (hfield : v.field? "language" = language.map (Value.string ·.word)) :
    v.language? = some language := by
  rw [Value.language?, Value.optionalText?, hfield]
  cases language with
  | none => rfl
  | some l => exact congrArg (·.map some) l.ofWord?_word

theorem ofValue?_settingValue (s : Setting) : Setting.ofValue? (settingValue s) = some s := by
  obtain ⟨kind, name, value, readOnly, builtIn⟩ := s
  let v := settingValue { kind, name, value, readOnly, builtIn }
  have hkind : (v.text? "kind").bind SettingKind.ofWord? = some kind := kind.ofWord?_word
  have hname : v.text? "name" = some name := rfl
  have hvalue : v.optionalText? "value" = some value := by cases value <;> rfl
  have hreadOnly : v.bool? "read_only" = some readOnly := by cases value <;> rfl
  have hbuiltIn : v.bool? "built_in" = some builtIn := by cases value <;> rfl
  change Setting.ofValue? v = _
  rw [Setting.ofValue?, hkind, hname, hvalue, hreadOnly, hbuiltIn]
  rfl

theorem ofValue?_resourceValue (resource : Resource) :
    Resource.ofValue? (resourceValue resource) = some resource := by
  cases resource <;> rfl

def resourceReport : Resource × ResourceSettings → Value
  | (resource, settings) =>
    .object (("resource".toList, resourceValue resource) :: settingsFields settings)

theorem resourceOfValue?_resourceReport (r : Resource × ResourceSettings) :
    resourceOfValue? (resourceReport r) = some r := by
  obtain ⟨resource, language, entries⟩ := r
  let v := resourceReport (resource, { language, entries })
  have hresource : (v.field? "resource").bind Resource.ofValue? = some resource :=
    ofValue?_resourceValue resource
  have hlanguage : v.language? = some language :=
    language?_of_field? (by cases language <;> rfl)
  have hentries : v.list? "entries" Setting.ofValue? = some entries :=
    list?_of_field? (by cases language <;> rfl) ofValue?_settingValue
  have hsettings : ResourceSettings.ofValue? v = some { language, entries } := by
    rw [ResourceSettings.ofValue?, hlanguage, hentries]
    rfl
  change resourceOfValue? v = _
  rw [resourceOfValue?, hresource, hsettings]
  rfl

theorem ofValue?_requestValue (r : BuiltinRequest) :
    BuiltinRequest.ofValue? (requestValue r) = some r := by
  obtain ⟨command, language, method, arguments⟩ := r
  let v := requestValue { command, language, method, arguments }
  have hcommand : v.text? "command" = some command := rfl
  have hlanguage : v.language? = some language :=
    language?_of_field? (by cases language <;> rfl)
  have hmethod : (v.text? "detection").bind BuiltinMethod.ofWord? = some method := by
    cases language <;> exact method.ofWord?_word
  have harguments : v.list? "arguments" Value.string? = some arguments :=
    list?_of_field? (by cases language <;> rfl) fun _ => rfl
  change BuiltinRequest.ofValue? v = _
  rw [BuiltinRequest.ofValue?, hcommand, hlanguage, hmethod, harguments]
  rfl

theorem ofValue?_diagnosticValue (d : Diagnostic) :
    Diagnostic.ofValue? (diagnosticValue d) = some d := rfl

theorem ofValue?_statisticsValue (s : Statistics) :
    Statistics.ofValue? (statisticsValue s) = some s := rfl

/-- A report can be recovered from its value. -/
theorem ofValue?_value (r : Report) : ofValue? r.value = some r := by
  have hresources : r.value.list? "resources" resourceOfValue? = some r.resources :=
    list?_of_field? rfl resourceOfValue?_resourceReport
  have hrequests : r.value.list? "builtin_detection" BuiltinRequest.ofValue? = some r.requests :=
    list?_of_field? rfl ofValue?_requestValue
  have hdiagnostics : r.value.list? "diagnostics" Diagnostic.ofValue? = some r.diagnostics :=
    list?_of_field? rfl ofValue?_diagnosticValue
  have hstatistics : r.value.field? "statistics" = some (statisticsValue r.statistics) := rfl
  rw [ofValue?, hresources, hrequests, hdiagnostics, hstatistics, Option.bind_some,
    ofValue?_statisticsValue]
  rfl

/-! ### Recovery from texts -/

theorem isPrintable_array {α : Type} {n : Nat} {write : α → Value} (as : List α)
    (h : ∀ a, (write a).IsPrintable n) : (Value.array (as.map write)).IsPrintable (n + 1) := by
  refine .array fun v hv => ?_
  obtain ⟨a, -, rfl⟩ := List.mem_map.mp hv
  exact h a

theorem isFlat_optional (name : Text) (v : Option Text) : ∀ f ∈ optional name v, f.2.IsFlat := by
  cases v with
  | none => exact List.forall_mem_nil _
  | some t => exact List.forall_mem_singleton.mpr (.string t)

theorem isPrintable_settingValue (s : Setting) : (settingValue s).IsPrintable 1 := by
  refine .object ?_ ?_
  · cases s.value <;> simp [optional]
  · simp only [List.forall_mem_append, List.forall_mem_cons]
    exact ⟨⟨⟨.string _, .string _, List.forall_mem_nil _⟩, isFlat_optional _ _⟩,
      .bool _, .bool _, List.forall_mem_nil _⟩

theorem isPrintable_resourceValue (resource : Resource) :
    (resourceValue resource).IsPrintable 1 := by
  cases resource with
  | file path => exact .object (by simp) (List.forall_mem_singleton.mpr (.string _))
  | folder path => exact .object (by simp) (List.forall_mem_singleton.mpr (.string _))
  | project => exact .flat (.string _)

theorem isPrintable_resourceReport (r : Resource × ResourceSettings) :
    (resourceReport r).IsPrintable 3 := by
  obtain ⟨resource, language, entries⟩ := r
  have hentries : (Value.array (entries.map settingValue)).IsPrintable 2 :=
    isPrintable_array entries isPrintable_settingValue
  refine .object ?_ ?_
  · cases language <;> simp [settingsFields, optional]
  · simp only [settingsFields, List.forall_mem_cons, List.forall_mem_append]
    exact ⟨(isPrintable_resourceValue resource).succ,
      fun f hf => .flat (isFlat_optional _ _ f hf), hentries, List.forall_mem_nil _⟩

theorem isPrintable_requestValue (r : BuiltinRequest) : (requestValue r).IsPrintable 2 := by
  have harguments : (Value.array (r.arguments.map Value.string)).IsPrintable 1 :=
    isPrintable_array r.arguments .string
  refine .object ?_ ?_
  · cases r.language <;> simp [optional]
  · simp only [List.forall_mem_cons, List.forall_mem_append]
    exact ⟨⟨.flat (.string _), fun f hf => .flat (isFlat_optional _ _ f hf)⟩, .flat (.string _),
      harguments, List.forall_mem_nil _⟩

theorem isPrintable_diagnosticValue (d : Diagnostic) : (diagnosticValue d).IsPrintable 1 := by
  refine .object (by simp) ?_
  simp only [List.forall_mem_cons]
  exact ⟨.string _, .string _, List.forall_mem_nil _⟩

end Report

/-- The counters are machine words: naturals of 64 bits. -/
def Statistics.IsCounted (s : Statistics) : Prop :=
  ∀ c ∈ s.counters, c.2.2 ≤ Json.naturalLimit

instance (s : Statistics) : Decidable s.IsCounted :=
  inferInstanceAs (Decidable (∀ c ∈ s.counters, _))

namespace Report

theorem isPrintable_statisticsValue {s : Statistics} (h : s.IsCounted) :
    (statisticsValue s).IsPrintable 1 := by
  refine .object (by simp [Statistics.counters]) fun f hf => ?_
  obtain ⟨c, hc, rfl⟩ := List.mem_map.mp hf
  exact .natural (h c hc)

theorem isPrintable_value {r : Report} (h : r.statistics.IsCounted) : r.value.IsPrintable 5 := by
  have hresources := isPrintable_array r.resources isPrintable_resourceReport
  have hrequests := isPrintable_array r.requests isPrintable_requestValue
  have hdiagnostics := isPrintable_array r.diagnostics isPrintable_diagnosticValue
  have hstatistics := isPrintable_statisticsValue h
  refine .object (by simp) ?_
  simp only [List.forall_mem_cons]
  exact ⟨hresources, hrequests.succ, hdiagnostics.succ.succ, hstatistics.succ.succ.succ,
    List.forall_mem_nil _⟩

/-- A written report is JSON, whatever characters are in its texts, and the report can be
recovered from it, with blanks behind it. -/
theorem ofBytes?_text (r : Report) (h : r.statistics.IsCounted) :
    Json.Writes 5 r.value (utf8 r.text) ∧
      ∀ gap, Json.Blank gap → ofBytes? (utf8 r.text ++ gap) = some r := by
  have hvalue := isPrintable_value h
  refine ⟨hvalue.writes 0, fun gap hg => ?_⟩
  have hread := hvalue.ofWhole?_pretty (by decide) hg
  change ofBytes? (utf8 r.value.pretty ++ gap) = _
  rw [ofBytes?, hread]
  exact ofValue?_value r

/-- A file, a folder and the project, macros without a value and with an empty one, and texts with
quotes, backslashes and other characters that are escaped. -/
theorem ofBytes?_text_left_out :
    let noValue : Setting := { kind := .macroDefine, name := "A\"\\".toList }
    let report : Report :=
      { resources :=
          [(.file "/p/\u00E9.c".toList, { language := some .c, entries := [noValue] }),
            (.folder "/p".toList, { entries := [{ noValue with value := some [] }] }),
            (.project, {})]
        requests :=
          [{ command := "gcc".toList, language := none, method := .gcc, arguments := ["\x01\n".toList] }]
        diagnostics := [{ location := "entry 1".toList, message := "\uFFFD \t".toList }]
        statistics := { linesRead := Json.naturalLimit } }
    report.statistics.IsCounted ∧ Json.Writes 5 report.value (utf8 report.text) ∧
      ofBytes? (utf8 report.text ++ [0x0A]) = some report := by
  intro noValue report
  have hcounted : report.statistics.IsCounted := by decide
  obtain ⟨hwrites, hread⟩ := ofBytes?_text report hcounted
  exact ⟨hcounted, hwrites, hread [0x0A] (by simp [Json.Blank, Json.isBlankByte])⟩

end Report

end SettingsScan
