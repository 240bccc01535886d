import SettingsScan.Config.Reader
import SettingsScan.Config.Validation
import SettingsScan.FileSystem

/-! # Finding the configuration file

A file that is asked for must be there. Otherwise the first one counts that exists in the current
directory, in the configuration directory of the user and in that of the program; without any of
them the defaults hold.
-/

namespace SettingsScan

/-- Why there is no configuration. -/
inductive ConfigError where
  | access (path : Text) (reason : FileError)
  | malformed (path : Text) (reason : Config.ReadError)
  | invalid (path : Text) (reason : ValidationError)
  deriving DecidableEq, Repr

def ConfigError.message : ConfigError → Text
  | access path reason =>
    "Failed to access configuration file '".toList ++ path ++ "': ".toList ++ reason.message
  | malformed path _ =>
    "Failed to parse configuration from file '".toList ++ path ++ "'".toList
  | invalid path _ =>
    "Configuration validation failed for file '".toList ++ path ++ "'".toList

namespace Config

def fileName : Text := "ccscan.yml"

/-- The directory of the program below the configuration directory of the user. -/
def programDirectory : Text := "ccscan"

/-- The places where the file is looked for, in this order. -/
def locations (directory : Text) (configHome : Option Text) : List Text :=
  let homes := match configHome with
    | some home => [home, Path.join home programDirectory]
    | none => []
  (directory :: homes).map (Path.join · fileName)

/-- Whether a path with this error leads to nothing at all. -/
def isAbsence : FileError → Bool
  | .notFound => true
  | .notADirectory => true
  | .tooManyLinks => true
  | .nameTooLong => true
  | _ => false

/-- Makes a configuration of the content of a file, or of the failure to read it. A directory can
be opened, but there is nothing to parse in it. -/
def ofFile (path : Text) : Except FileError Bytes → Except ConfigError Config
  | .error .isADirectory => .error (.malformed path .malformed)
  | .error reason => .error (.access path reason)
  | .ok bytes =>
    match ofBytes bytes with
    | .error reason => .error (.malformed path reason)
    | .ok c =>
      match c.validate with
      | .error reason => .error (.invalid path reason)
      | .ok () => .ok c

/-- The paths that are tried, up to the one that counts, and what they give. -/
def search (read : Text → Except FileError Bytes) :
    List Text → List Text × Except ConfigError Config
  | [] => ([], .ok {})
  | path :: more =>
    match read path with
    | .error reason =>
      if isAbsence reason then
        let (tried, found) := search read more
        (path :: tried, found)
      else ([path], ofFile path (.error reason))
    | .ok bytes => ([path], ofFile path (.ok bytes))

/-- Loads the file that is asked for, or searches for one. -/
def load (read : Text → Except FileError Bytes) (directory : Text) (configHome : Option Text)
    (file : Option Text) : List Text × Except ConfigError Config :=
  match file with
  | some path => ([path], ofFile path (read path))
  | none => search read (locations directory configHome)

end Config

end SettingsScan
