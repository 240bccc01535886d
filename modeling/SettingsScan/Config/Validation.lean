import SettingsScan.Config.Basic
import SettingsScan.Pattern.Reader

/-! # Validation of the configuration

All patterns must compile, and the tools must have names, all different. Every problem is found:
first those of the patterns and names in the order of the file, then the repeated names.
-/

namespace SettingsScan

inductive Problem where
  | emptyText (field : Text)
  | invalidPattern (field : Text)
  /-- The name of the tool with this index is that of an earlier one. -/
  | repeatedTool (index : Nat)
  deriving DecidableEq, Repr

/-- Why a configuration is refused: for one problem, or for more than one. -/
inductive ValidationError where
  | single (problem : Problem)
  | multiple (problems : List Problem)
  deriving DecidableEq, Repr

namespace Problem

/-- The field that holds the tools. -/
def toolsField : Text := "detection.tools"

/-- The field of a problem. -/
def field : Problem → Text
  | emptyText field => field
  | invalidPattern field => field
  | repeatedTool _ => toolsField

/-- The message of a problem, where it does not come from a pattern. -/
def message? : Problem → Option Text
  | emptyText field => some ("Empty string value for field '".toList ++ field ++ "'".toList)
  | invalidPattern _ => none
  | repeatedTool index =>
    some ("Duplicate ".toList ++ toolsField ++ " entry at: ".toList ++ Decimal.digits index)

end Problem

/-- The problems that an error tells of. -/
def ValidationError.problems : ValidationError → List Problem
  | single problem => [problem]
  | multiple problems => problems

namespace DetectionConfig

def checkPattern (field pattern : Text) : Except ValidationError Unit :=
  if Pattern.compiles pattern then .ok () else .error (.single (.invalidPattern field))

/-- The problems found so far, with those of one more check. -/
def collect (found : List Problem) (result : Except ValidationError Unit) : List Problem :=
  match result with
  | .ok () => found
  | .error e => found ++ e.problems

/-- The name of a field of the tool with the given index. -/
def toolField (index : Nat) (name : Text) : Text :=
  Problem.toolsField ++ '[' :: Decimal.digits index ++ "].".toList ++ name

def checkVersion (d : DetectionConfig) (found : List Problem) : List Problem :=
  if d.versionSuffix.enabled then
    collect found (checkPattern "detection.version_suffix.pattern" d.versionSuffix.pattern)
  else found

def checkName (index : Nat) (t : ToolSpec) (found : List Problem) : List Problem :=
  if t.name.isEmpty then found ++ [.emptyText (toolField index "name")]
  else collect found (checkPattern (toolField index "name") t.name)

def checkExtension (index : Nat) (t : ToolSpec) (found : List Problem) : List Problem :=
  match t.extension with
  | some extension => collect found (checkPattern (toolField index "extension") extension)
  | none => found

def checkTool (found : List Problem) (tool : ToolSpec × Nat) : List Problem :=
  checkExtension tool.2 tool.1 (checkName tool.2 tool.1 found)

/-- The search for repeated names: the names of the tools so far, and all problems. -/
structure NameSearch where
  seen : List Text := []
  found : List Problem
  deriving DecidableEq, Repr

def NameSearch.next (s : NameSearch) (tool : ToolSpec × Nat) : NameSearch :=
  if s.seen.any (· = tool.1.name) then { s with found := s.found ++ [.repeatedTool tool.2] }
  else { s with seen := tool.1.name :: s.seen }

/-- All problems, in order. -/
def problems (d : DetectionConfig) : List Problem :=
  let found := d.tools.zipIdx.foldl checkTool (d.checkVersion [])
  (d.tools.zipIdx.foldl NameSearch.next { found }).found

end DetectionConfig

/-- Refuses a configuration that has problems. -/
def Config.validate (c : Config) : Except ValidationError Unit :=
  match c.detection.problems with
  | [] => .ok ()
  | [problem] => .error (.single problem)
  | problems => .error (.multiple problems)

end SettingsScan
