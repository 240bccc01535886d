import SettingsScan.Pattern.Reader
import SettingsScan.CommandLine

/-! # Recognising one tool

A detector knows the ways one tool can stand at the front of a line: with or without a directory,
in double quotes or not, with a version suffix and with a file name extension.
-/

namespace SettingsScan

/-- The ways a tool name is tried, in the order of preference. -/
inductive DetectionMethod where
  | basename
  | withVersion
  | withExtension
  | withVersionAndExtension
  deriving DecidableEq, Repr

namespace DetectionMethod

def all : List DetectionMethod :=
  [basename, withVersion, withExtension, withVersionAndExtension]

def title : DetectionMethod → Text
  | basename => "basename"
  | withVersion => "basename with version"
  | withExtension => "basename with extension"
  | withVersionAndExtension => "basename with version and extension"

end DetectionMethod

/-- The separator between the directories of a tool path. -/
inductive PathStyle where
  | posix
  | windows
  deriving DecidableEq, Repr

namespace PathStyle

def word : PathStyle → Text
  | posix => "posix"
  | windows => "windows"

/-- The separator as a pattern. -/
def separator : PathStyle → Text
  | posix => "/"
  | windows => "\\\\"

end PathStyle

/-- The tool as it is written, without quotes, and the arguments behind it. -/
structure ToolMatch where
  command : Text
  arguments : Text
  deriving DecidableEq, Repr

/-- The patterns of a line that starts with the tool in double quotes, or without. -/
structure ToolPatterns where
  quoted : Pattern.Node
  unquoted : Pattern.Node
  deriving DecidableEq, Repr

namespace ToolPatterns

def quotedText (style : PathStyle) (name : Text) : Text :=
  "^\"((?:[^\"]*".toList ++ style.separator ++ ")?".toList ++ name ++ ")\"\\s".toList

def unquotedText (style : PathStyle) (name : Text) : Text :=
  "^((?:\\S*".toList ++ style.separator ++ ")?".toList ++ name ++ ")\\s".toList

def ofName (style : PathStyle) (name : Text) : Except Pattern.PatternError ToolPatterns := do
  let quoted ← Pattern.ofText (quotedText style name)
  let unquoted ← Pattern.ofText (unquotedText style name)
  pure { quoted, unquoted }

/-- The command is the first group, and the arguments follow the whole match. -/
def matchWith? (node : Pattern.Node) (line : Text) : Option ToolMatch :=
  (node.match? line).bind fun place =>
    (place.group? line 1).map fun command => { command, arguments := place.rest }

def match? (patterns : ToolPatterns) (line : Text) : Option ToolMatch :=
  (matchWith? patterns.quoted line).or (matchWith? patterns.unquoted line)

end ToolPatterns

/-- Recognises one tool, for one style of paths. -/
structure Detector where
  name : Text
  style : PathStyle
  plain : ToolPatterns
  versioned : Option ToolPatterns
  extended : Option ToolPatterns
  versionedExtended : Option ToolPatterns
  reader : ArgumentReader
  deriving DecidableEq, Repr

namespace Detector

/-- The name kept together, as it may be an alternative. -/
def baseText (name : Text) : Text :=
  "(?:".toList ++ name ++ [')']

def versionText (version : Text) : Text :=
  "(?:".toList ++ version ++ [')']

/-- The extension in any letter case. -/
def extensionText (extension : Text) : Text :=
  "\\.(?i:".toList ++ extension ++ [')']

/-- The detector of a tool whose name, extension and version suffix are given as patterns. -/
def ofPatterns (name : Text) (extension version : Option Text) (style : PathStyle)
    (reader : ArgumentReader) : Except Pattern.PatternError Detector := do
  let base := baseText name
  let compile (suffix : Option Text) : Except Pattern.PatternError (Option ToolPatterns) :=
    match suffix with
    | some suffix => (ToolPatterns.ofName style (base ++ suffix)).map some
    | none => .ok none
  let plain ← ToolPatterns.ofName style base
  let versioned ← compile (version.map versionText)
  let extended ← compile (extension.map extensionText)
  let versionedExtended ← compile <| match version, extension with
    | some version, some extension => some (versionText version ++ extensionText extension)
    | _, _ => none
  pure { name, style, plain, versioned, extended, versionedExtended, reader }

def patterns? (d : Detector) : DetectionMethod → Option ToolPatterns
  | .basename => some d.plain
  | .withVersion => d.versioned
  | .withExtension => d.extended
  | .withVersionAndExtension => d.versionedExtended

/-- The tool at the start of a line, tried in one way. -/
def match? (d : Detector) (line : Text) (method : DetectionMethod) : Option ToolMatch :=
  (d.patterns? method).bind (·.match? line)

end Detector

end SettingsScan
