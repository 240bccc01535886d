import SettingsScan.Path.Basic

/-! # Settings

What a compiler is told on its command line: include paths, macros and files to include, in the
order they are given, and the raw arguments that change what the compiler defines on its own.
-/

namespace SettingsScan

inductive SettingKind where
  | includePath
  | systemIncludePath
  | macroDefine
  | macroUndefine
  | macroFile
  | includeFile
  deriving DecidableEq, Repr

namespace SettingKind

def all : List SettingKind :=
  [includePath, systemIncludePath, macroDefine, macroUndefine, macroFile, includeFile]

/-- The word for the kind in a report. -/
def word : SettingKind → Text
  | includePath => "include-path"
  | systemIncludePath => "system-include-path"
  | macroDefine => "macro-define"
  | macroUndefine => "macro-undefine"
  | macroFile => "macro-file"
  | includeFile => "include-file"

/-- The word for the kind in front of a path. -/
def label : SettingKind → Text
  | includePath => "IncludePath"
  | systemIncludePath => "SystemIncludePath"
  | macroDefine => "MacroDefine"
  | macroUndefine => "MacroUndefine"
  | macroFile => "MacroFile"
  | includeFile => "IncludeFile"

end SettingKind

/-- One setting. Only macro definitions have a value: `-DNAME` has none, `-DNAME=` an empty one. -/
structure Setting where
  kind : SettingKind
  name : Text
  value : Option Text := none
  readOnly : Bool := true
  builtIn : Bool := false
  deriving DecidableEq, Repr

namespace Setting

def define (name : Text) (value : Option Text) : Setting :=
  { kind := .macroDefine, name, value }

def undefine (name : Text) : Setting :=
  { kind := .macroUndefine, name }

/-- A setting that names a path or a file. -/
def path (kind : SettingKind) (name : Text) : Setting :=
  { kind, name }

/-- The setting as a line, macros as the directives that would have the same effect. -/
def describe (s : Setting) : Text :=
  match s.kind, s.value with
  | .macroDefine, some value => "#define ".toList ++ s.name ++ ' ' :: value
  | .macroDefine, none => "#define ".toList ++ s.name
  | .macroUndefine, _ => "#undef ".toList ++ s.name
  | kind, _ => kind.label ++ ' ' :: s.name

end Setting

inductive Language where
  | c
  | cxx
  | cuda
  | assembly
  deriving DecidableEq, Repr

namespace Language

def all : List Language := [c, cxx, cuda, assembly]

def word : Language → Text
  | c => "c"
  | cxx => "c++"
  | cuda => "cuda"
  | assembly => "assembly"

def title : Language → Text
  | c => "C"
  | cxx => "C++"
  | cuda => "CUDA"
  | assembly => "Assembly"

def ofWord? (w : Text) : Option Language :=
  all.find? (·.word = w)

/-- The extensions of the source files of a language. -/
def extensions : Language → List Text
  | c => ["c", "i"]
  | cxx => ["cc", "cpp", "cxx", "c++", "cp", "C", "CC", "CPP", "ii"]
  | cuda => ["cu"]
  | assembly => ["s", "S", "sx", "asm"]

/-- The language of a source file, by its extension. -/
def ofFileName? (file : Text) : Option Language :=
  (Path.extension? file).bind fun extension => all.find? (·.extensions.contains extension)

theorem ofWord?_word (l : Language) : ofWord? l.word = some l := by
  cases l <;> decide

end Language

/-- How the settings that a compiler has of its own can be found out. -/
inductive BuiltinMethod where
  | none
  | gcc
  | gccIfDashPrefixed
  | msvc
  | intel
  | nvcc
  deriving DecidableEq, Repr

namespace BuiltinMethod

def word : BuiltinMethod → Text
  | none => "none"
  | gcc => "gcc"
  | gccIfDashPrefixed => "gcc-if-dash-prefixed"
  | msvc => "msvc"
  | intel => "intel"
  | nvcc => "nvcc"

def all : List BuiltinMethod := [none, gcc, gccIfDashPrefixed, msvc, intel, nvcc]

/-- The method for one command, once its arguments are known. -/
def resolve (m : BuiltinMethod) (arguments : List Text) : BuiltinMethod :=
  match m with
  | gccIfDashPrefixed => if arguments.all (·.head? = some '-') then gcc else none
  | m => m

theorem resolve_ne_gccIfDashPrefixed (m : BuiltinMethod) (arguments : List Text) :
    m.resolve arguments ≠ gccIfDashPrefixed := by
  cases m <;> simp [resolve]
  split <;> simp

end BuiltinMethod

/-- What the arguments of one command give, in order. -/
structure Findings where
  settings : List Setting := []
  builtinArguments : List Text := []
  deriving DecidableEq, Repr

namespace Findings

def isEmpty (f : Findings) : Bool :=
  f.settings.isEmpty && f.builtinArguments.isEmpty

def append (f g : Findings) : Findings where
  settings := f.settings ++ g.settings
  builtinArguments := f.builtinArguments ++ g.builtinArguments

instance : Append Findings := ⟨append⟩

def ofSetting (s : Setting) : Findings :=
  { settings := [s] }

def ofBuiltinArgument (argument : Text) : Findings :=
  { builtinArguments := [argument] }

@[simp] theorem settings_append (f g : Findings) :
    (f ++ g).settings = f.settings ++ g.settings := rfl

@[simp] theorem builtinArguments_append (f g : Findings) :
    (f ++ g).builtinArguments = f.builtinArguments ++ g.builtinArguments := rfl

end Findings

end SettingsScan
