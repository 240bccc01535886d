import SettingsScan.Config.Basic
import SettingsScan.Yaml.Document

/-! # Reading a configuration

The values are read in the order of the file, and the first error counts. Unknown fields are
passed over; a field must not be given twice. A value of the wrong kind is an error, but all
scalars are texts.
-/

namespace SettingsScan.Config

open Yaml (Node Document)

inductive ReadError where
  | malformed
  | unsupportedSchema (version : Text)
  deriving DecidableEq, Repr

def ReadError.message? : ReadError → Option Text
  | malformed => none
  | unsupportedSchema version =>
    some ("Unsupported schema version: ".toList ++ version ++ ". Expected: ".toList ++
      schemaVersion)

abbrev Read := Except ReadError

def malformed {α : Type} : Read α := .error .malformed

/-- A value that must be there. -/
def expect {α : Type} : Option α → Read α
  | some a => .ok a
  | none => malformed

def isNullWord (t : Text) : Bool :=
  ["null".toList, "Null".toList, "NULL".toList, "~".toList].contains t

def boolOfWord? (t : Text) : Option Bool :=
  if ["true".toList, "True".toList, "TRUE".toList].contains t then some true
  else if ["false".toList, "False".toList, "FALSE".toList].contains t then some false
  else none

def standardTag (name : Text) : Text :=
  "tag:yaml.org,2002:".toList ++ name

def readText : Node → Read Text
  | .scalar _ _ text => .ok text
  | _ => malformed

/-- Reads a truth value, which is not quoted. -/
def readBool : Node → Read Bool
  | .scalar tag style text =>
    if style = .plain ∨ (style = .literal ∧ tag = some (standardTag "bool")) then
      expect (boolOfWord? text)
    else malformed
  | _ => malformed

/-- Reads a word of a fixed list. A local tag may stand for the word, with nothing behind it. -/
def readWord {α : Type} (ofWord? : Text → Option α) : Node → Read α
  | .scalar (some ('!' :: word)) style text =>
    if text.isEmpty ∨ (style = .plain ∧ isNullWord text) then expect (ofWord? word) else malformed
  | .scalar _ _ text => expect (ofWord? text)
  | _ => malformed

/-- Reads a value that may be absent: an empty scalar or the word for it is no value. -/
def readOption {α : Type} (read : Node → Read α) : Node → Read (Option α)
  | .scalar none .plain text =>
    if text.isEmpty || isNullWord text then .ok none
    else (read (.scalar none .plain text)).map some
  | .scalar (some tag) .plain text =>
    if tag = standardTag "null" then if isNullWord text then .ok none else malformed
    else (read (.scalar (some tag) .plain text)).map some
  | node => (read node).map some

/-- Reads a list, which may be left empty. -/
def readList {α : Type} (read : Node → Read α) : Node → Read (List α)
  | .sequence _ items => items.mapM read
  | .scalar _ .plain [] => .ok []
  | _ => malformed

/-- How the value of a field, given by its name, changes what is read. -/
abbrev Fields (σ : Type) := Text → Option (Node → σ → Read σ)

/-- Reads the fields of a mapping in order, and returns the names read as well. -/
def readPairs {σ : Type} (fields : Fields σ) :
    List (Node × Node) → List Text → σ → Read (List Text × σ)
  | [], seen, s => .ok (seen, s)
  | (key, value) :: more, seen, s => do
    let name ← readText key
    match fields name with
    | none => if value.isWhole then readPairs fields more seen s else malformed
    | some set =>
      if seen.contains name then malformed
      else readPairs fields more (name :: seen) (← set value s)

/-- Reads a mapping, which may be left empty, with the fields that it must have. -/
def readMapping {σ : Type} (fields : Fields σ) (required : List Text) (start : σ) (node : Node) :
    Read σ := do
  let pairs ← match node with
    | .mapping _ pairs => pure pairs
    | .scalar _ .plain [] => pure []
    | _ => malformed
  let (seen, s) ← readPairs fields pairs [] start
  if required.all seen.contains then return s else malformed

/-- A field whose value replaces a part of what is read. -/
def field {σ α : Type} (read : Node → Read α) (set : α → σ → σ) : Option (Node → σ → Read σ) :=
  some fun node s => (read node).map (set · s)

def versionSuffixFields : Fields VersionSuffix := fun name =>
  if name = "enabled".toList then field readBool fun b v => { v with enabled := b }
  else if name = "pattern".toList then field readText fun t v => { v with pattern := t }
  else none

def toolFields : Fields ToolSpec := fun name =>
  if name = "name".toList then field readText fun t s => { s with name := t }
  else if name = "dialect".toList then
    field (readWord ToolFamily.ofWord?) fun f s => { s with family := f }
  else if name = "language".toList then
    field (readOption (readWord Language.ofWord?)) fun l s => { s with language := l }
  else if name = "extension".toList then
    field (readOption readText) fun t s => { s with extension := t }
  else if name = "windows_paths".toList then
    field readBool fun b s => { s with windowsPaths := b }
  else none

/-- Reads a tool. Its name and dialect have no default. -/
def readTool : Node → Read ToolSpec :=
  readMapping toolFields ["name", "dialect"] { name := [], family := .gcc }

def detectionFields : Fields DetectionConfig := fun name =>
  if name = "version_suffix".toList then
    field (readMapping versionSuffixFields [] {}) fun v d => { d with versionSuffix := v }
  else if name = "windows_paths".toList then
    field (readWord WindowsPaths.ofWord?) fun w d => { d with windowsPaths := w }
  else if name = "short_file_names".toList then
    field readBool fun b d => { d with shortFileNames := b }
  else if name = "tools".toList then field (readList readTool) fun t d => { d with tools := t }
  else none

def outputFields : Fields OutputConfig := fun name =>
  if name = "scope".toList then field (readWord Scope.ofWord?) fun s o => { o with scope := s }
  else if name = "project_root".toList then
    field (readOption readText) fun t o => { o with projectRoot := t }
  else none

/-- Reads the version of the format, of which there is only one. -/
def readSchema (node : Node) (c : Config) : Read Config := do
  let version ← readText node
  if version = schemaVersion then return c else .error (.unsupportedSchema version)

def fields : Fields Config := fun name =>
  if name = "schema".toList then some readSchema
  else if name = "detection".toList then
    field (readMapping detectionFields [] {}) fun d c => { c with detection := d }
  else if name = "output".toList then
    field (readMapping outputFields [] {}) fun o c => { c with output := o }
  else none

/-- Reads a configuration from the root of a document. -/
def ofNode : Node → Read Config :=
  readMapping fields ["schema"] {}

/-- Reads a configuration file, which holds a single document. -/
def ofBytes (bytes : Bytes) : Read Config := do
  let document := Document.ofBytes bytes
  let c ← ofNode document.root
  if document.isLast then return c else malformed

end SettingsScan.Config
