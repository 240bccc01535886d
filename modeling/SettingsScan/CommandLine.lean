import SettingsScan.Option.Dialect
import SettingsScan.ResponseFile

/-! # Arguments of a tool

The arguments are taken from the left, one at a time: by a rule of the dialect, as a reference to
a response file, or by skipping to the next blank character. Unknown arguments never stop the
reading.
-/

namespace SettingsScan

/-- Families of compilers. A family has a dialect and a method for its built-in settings. -/
inductive ToolFamily where
  | gcc
  | clang
  | cc
  | msvc
  | intel
  | intelMsvc
  | nvcc
  deriving DecidableEq, Repr

namespace ToolFamily

def all : List ToolFamily := [gcc, clang, cc, msvc, intel, intelMsvc, nvcc]

def word : ToolFamily → Text
  | gcc => "gcc"
  | clang => "clang"
  | cc => "cc"
  | msvc => "msvc"
  | intel => "intel"
  | intelMsvc => "intel-msvc"
  | nvcc => "nvcc"

def ofWord? (w : Text) : Option ToolFamily :=
  all.find? (·.word = w)

def dialect : ToolFamily → Dialect
  | gcc => .gcc
  | clang => .gcc
  | intel => .gcc
  | cc => .cc
  | msvc => .msvc
  | intelMsvc => .msvc
  | nvcc => .nvcc

def builtinMethod : ToolFamily → BuiltinMethod
  | gcc => .gcc
  | clang => .gcc
  | cc => .gccIfDashPrefixed
  | msvc => .msvc
  | intel => .intel
  | intelMsvc => .intel
  | nvcc => .nvcc

end ToolFamily

/-- How the arguments of a tool are read. Without a language the source file decides. -/
structure ArgumentReader where
  family : ToolFamily
  language : Option Language := none
  responseFiles : Bool := true
  deriving DecidableEq, Repr

/-- What a text of arguments gives, with the files that were asked for. -/
structure Parsed where
  findings : Findings := {}
  requested : List Text := []
  deriving DecidableEq, Repr

namespace Parsed

def append (p q : Parsed) : Parsed where
  findings := p.findings ++ q.findings
  requested := p.requested ++ q.requested

instance : Append Parsed := ⟨append⟩

@[simp] theorem findings_append (p q : Parsed) :
    (p ++ q).findings = p.findings ++ q.findings := rfl

@[simp] theorem requested_append (p q : Parsed) :
    (p ++ q).requested = p.requested ++ q.requested := rfl

end Parsed

/-- One argument taken from the front of a text. -/
structure Segment where
  parsed : Parsed
  taken : Text
  rest : Text
  deriving DecidableEq, Repr

namespace ArgumentReader

/-- Takes one argument from a text that is not empty and does not start with a blank character.
The given function says what a referenced file contributes. -/
def takeOne (rules : List OptionRule) (responseFiles : Bool) (directory : Text)
    (expand : Text → Parsed) (rest : Text) : Segment :=
  match rules.findSome? (·.take? directory rest) with
  | some found =>
    { parsed := { findings := found.findings }, taken := found.taken, rest := found.rest }
  | none =>
    let reference :=
      if responseFiles then ResponseFile.recognize? ResponseFile.atSign directory rest else none
    match reference with
    | some reference =>
      { parsed := match reference.target with
          | .inline => {}
          | .file path => expand path
        taken := reference.taken
        rest := reference.rest }
    | none =>
      { parsed := {}, taken := rest.firstWord, rest := rest.dropWhile (!isBlank ·) }

/-- Takes all arguments; the fuel is the length of the text. -/
def takeAll (rules : List OptionRule) (responseFiles : Bool) (directory : Text)
    (expand : Text → Parsed) : Nat → Text → Parsed
  | 0, _ => {}
  | n + 1, text =>
    match text.trimStart with
    | [] => {}
    | c :: rest =>
      let segment := takeOne rules responseFiles directory expand (c :: rest)
      segment.parsed ++ takeAll rules responseFiles directory expand n segment.rest

/-- How deep response files may refer to other response files. -/
def depthLimit : Nat := 16

/-- Reads arguments by the given rules, with so many levels of response files left. -/
def readWith (rules : List OptionRule) (responseFiles : Bool) (directory : Text)
    (contents : Contents) : Nat → Text → Parsed
  | 0, args => takeAll rules responseFiles directory (fun _ => {}) args.length args
  | levels + 1, args =>
    let expand (path : Text) : Parsed :=
      { requested := [path] } ++
        match ResponseFile.load contents path with
        | some text => readWith rules responseFiles directory contents levels text
        | none => {}
    takeAll rules responseFiles directory expand args.length args

/-- Reads the arguments of one command. Relative paths, in the arguments and in references,
resolve in the working directory. -/
def read (reader : ArgumentReader) (directory args : Text) (contents : Contents) : Parsed :=
  readWith reader.family.dialect.rules reader.responseFiles directory contents depthLimit args

end ArgumentReader

end SettingsScan
