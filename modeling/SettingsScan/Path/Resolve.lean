import SettingsScan.Path.Basic

/-! # Resolving names against a working directory

Normalisation is lexical: `.` segments go away, and `..` takes back the segment before it but
never climbs above the root. A working directory with a drive letter belongs to a build recorded
under Windows and keeps its conventions.
-/

namespace SettingsScan.Path

/-- The components so far, the latest first, after one more. -/
def stepInto (above : List Component) : Component → List Component
  | .current => above
  | .parent =>
    match above with
    | .normal _ :: above => above
    | .root :: above => .root :: above
    | above => .parent :: above
  | component => component :: above

def normalComponents (path : Text) : List Component :=
  ((components path).foldl stepInto []).reverse

/-- The path without `.` and `..`, as far as the text alone tells. -/
def normalize (path : Text) : Text :=
  ofComponents (normalComponents path)

/-- A drive letter, a colon and a separator of either kind. -/
def hasDrive : Text → Bool
  | letter :: ':' :: separator :: _ => letter.isAlpha && (separator = '\\' || separator = '/')
  | _ => false

/-- Absolute paths of any host: rooted, with a drive, or starting with a backslash. -/
def isAbsolute (name : Text) : Bool :=
  name.head? = some '/' || name.head? = some '\\' || hasDrive name

/-- The text without its separators of either kind at the end. -/
def dropEndSeparators (path : Text) : Text :=
  (path.reverse.dropWhile fun c => c = '\\' || c = '/').reverse

/-- The path that a name stands for in a working directory. -/
def resolve (directory name : Text) : Text :=
  if isAbsolute name then name
  else if hasDrive directory then dropEndSeparators directory ++ '\\' :: name
  else normalize (join directory name)

theorem resolve_of_isAbsolute (directory : Text) {name : Text} (h : isAbsolute name = true) :
    resolve directory name = name := by
  simp [resolve, h]

end SettingsScan.Path
