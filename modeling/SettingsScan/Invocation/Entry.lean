import SettingsScan.Invocation.Basic
import SettingsScan.Json.Printer
import SettingsScan.Text.Quoted

/-! # Entries of a compilation database

An entry is an object with a directory, a file, and a command or a list of arguments; a command is
preferred. A field that is null counts as absent. Of several wrong fields the first in the order of
their names is reported.
-/

namespace SettingsScan

open Json (Value)

/-- What a field should have been. -/
inductive FieldType where
  | text
  | path
  | list
  deriving DecidableEq, Repr

/-- Why an entry gives no invocation. -/
inductive EntryError where
  | notAnObject
  | missingFile
  | missingDirectory
  | missingCommand
  | emptyCommand
  | invalidField (expected : FieldType) (found : Value)
  deriving Repr

namespace EntryError

def expectedText : FieldType → Text
  | .text => "a string"
  | .path => "path string"
  | .list => "a sequence"

/-- A value as it is named in a message. -/
def foundText : Value → Text
  | .null => "null"
  | .bool b => "boolean \x60".toList ++ (if b then "true" else "false").toList ++ ['\x60']
  | .number (.float bits) => "floating point \x60".toList ++ Json.floatText bits ++ ['\x60']
  | .number n => "integer \x60".toList ++ n.text ++ ['\x60']
  | .string t => "string ".toList ++ Quoted.quote t
  | .array _ => "sequence"
  | .object _ => "map"

def message : EntryError → Text
  | notAnObject => "Entry is not a JSON object"
  | missingFile => "Entry has no file field"
  | missingDirectory => "Entry has no directory field"
  | missingCommand => "Entry has neither command nor arguments field"
  | emptyCommand => "Entry has an empty command"
  | invalidField expected found =>
    "Entry has a field of wrong type: invalid type: ".toList ++ foundText found ++
      ", expected ".toList ++ expectedText expected

end EntryError

namespace Entry

/-- An optional text; null is none. -/
def textField (expected : FieldType) (v : Option Value) : Except EntryError (Option Text) :=
  match v with
  | none => .ok none
  | some .null => .ok none
  | some (.string t) => .ok (some t)
  | some v => .error (.invalidField expected v)

def argument (v : Value) : Except EntryError Text :=
  match v with
  | .string t => .ok t
  | v => .error (.invalidField .text v)

/-- An optional list of texts; null is none. -/
def listField (v : Option Value) : Except EntryError (Option (List Text)) :=
  match v with
  | none => .ok none
  | some .null => .ok none
  | some (.array items) => (items.mapM argument).map some
  | some v => .error (.invalidField .list v)

def escapeQuotes (argument : Text) : Text :=
  argument.flatMap fun c => if c = '"' ∨ c = '\'' then ['\\', c] else [c]

/-- An argument as a build tool writes it. One with blank characters is quoted: the value behind
the first equals sign, or what follows the letter of an option, or all of it. -/
def writeArgument (argument : Text) : Text :=
  let escaped := escapeQuotes argument
  if !argument.any isBlank then escaped
  else
    match Text.cut? (· = '=') escaped with
    | some (option, value) => option ++ '=' :: '"' :: value ++ ['"']
    | none =>
      match escaped with
      | '-' :: letter :: c :: rest =>
        if letter.utf8Size = 1 then '-' :: letter :: '"' :: c :: rest ++ ['"']
        else '"' :: escaped ++ ['"']
      | escaped => '"' :: escaped ++ ['"']

def joinArguments (arguments : List Text) : Text :=
  Text.joinWith [' '] (arguments.map writeArgument)

/-- The invocation of an entry. -/
def toInvocation (entry : Value) : Except EntryError Invocation :=
  match entry with
  | .object fields => do
    let field (name : String) : Option Value := fields.lookup name.toList
    let arguments ← listField (field "arguments")
    let command ← textField .text (field "command")
    let directory ← textField .path (field "directory")
    let file ← textField .path (field "file")
    let some directory := directory | .error .missingDirectory
    let some file := file | .error .missingFile
    let line ← match command, arguments with
      | some command, _ => pure command.trimStart
      | none, some arguments => pure (joinArguments arguments)
      | none, none => .error .missingCommand
    if line.all isBlank then .error .emptyCommand
    else .ok { directory, line, file := some file }
  | _ => .error .notAnObject

end Entry

end SettingsScan
