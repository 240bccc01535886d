import SettingsScan.Detection.Detector

/-! # The known tools

The registry holds the detectors of the given tools, followed by those of the tools that are
always known, for both styles of paths.
-/

namespace SettingsScan

structure DetectionOptions where
  /-- The pattern of a version suffix; without it versioned names are not recognised. -/
  versionSuffix : Option Text := none
  windowsPaths : Bool := false
  /-- Short (8.3) names of tools are expanded. -/
  shortFileNames : Bool := true
  deriving DecidableEq, Repr

def defaultVersionSuffix : Text := "-?\\d+(\\.\\d+)*"

/-- A tool to recognise. Its name and extension are patterns. -/
structure ToolSpec where
  name : Text
  family : ToolFamily
  language : Option Language := none
  extension : Option Text := none
  windowsPaths : Bool := true
  deriving DecidableEq, Repr

structure DetectorId where
  style : PathStyle
  index : Nat
  deriving DecidableEq, Repr

/-- The tool whose patterns can not be compiled. -/
structure RegistryError where
  tool : Text
  cause : Pattern.PatternError
  deriving DecidableEq, Repr

structure Registry where
  posix : List Detector
  windows : List Detector
  options : DetectionOptions
  deriving Repr

/-- A line's tool, found by a detector of the registry. -/
structure Detection where
  id : DetectorId
  detector : Detector
  method : DetectionMethod
  command : Text
  arguments : Text
  deriving DecidableEq, Repr

namespace Registry

/-- The target in front of a cross compiler's name. -/
def crossPattern : Text := "[^\\s\"/\\\\]+-"

/-- A tool by its plain name, and if asked for also behind a target. -/
def builtinTool (name : Text) (family : ToolFamily) (language : Option Language) (cross : Bool) :
    List ToolSpec :=
  let spec (name : Text) : ToolSpec :=
    { name, family, language, extension := some "exe".toList }
  if cross then [spec name, spec (crossPattern ++ name)] else [spec name]

def builtinTools : List ToolSpec :=
  builtinTool "gcc" .gcc none true ++
  builtinTool "g\\+\\+" .gcc (some .cxx) true ++
  builtinTool "c\\+\\+" .gcc (some .cxx) true ++
  builtinTool "clang" .clang none true ++
  builtinTool "clang\\+\\+" .clang (some .cxx) true ++
  builtinTool "cc" .cc none true ++
  builtinTool "cl" .msvc none false ++
  builtinTool "clang-cl" .msvc none false ++
  builtinTool "icc" .intel none false ++
  builtinTool "icpc" .intel (some .cxx) false ++
  builtinTool "icx" .intel none false ++
  builtinTool "icpx" .intel (some .cxx) false ++
  builtinTool "icl" .intelMsvc none false ++
  builtinTool "nvcc" .nvcc (some .cuda) false

/-- The detector of a tool for one style of paths. -/
def build (options : DetectionOptions) (style : PathStyle) (tool : ToolSpec) :
    Except RegistryError Detector :=
  (Detector.ofPatterns tool.name tool.extension options.versionSuffix style
    { family := tool.family, language := tool.language }).mapError fun cause =>
    { tool := tool.name, cause }

/-- The registry of the given tools and, behind them, the built-in ones. -/
def ofTools (options : DetectionOptions) (tools : List ToolSpec) :
    Except RegistryError Registry := do
  let tools := tools ++ builtinTools
  let posix ← tools.mapM (build options .posix)
  let windows ← (tools.filter fun tool => options.windowsPaths && tool.windowsPaths).mapM
    (build options .windows)
  pure { posix, windows, options }

def detectors (r : Registry) : PathStyle → List Detector
  | .posix => r.posix
  | .windows => r.windows

def get? (r : Registry) (id : DetectorId) : Option Detector :=
  (r.detectors id.style)[id.index]?

/-- The first match of a line: each method is tried on every detector before the next one, so a
plain name wins over a versioned one. -/
def scan (r : Registry) (style : PathStyle) (line : Text) : Option Detection :=
  DetectionMethod.all.findSome? fun method =>
    (r.detectors style).zipIdx.findSome? fun (detector, index) =>
      (detector.match? line method).map fun found =>
        { id := { style, index }, detector, method,
          command := found.command, arguments := found.arguments }

end Registry

end SettingsScan
