import SettingsScan.Path.Basic
import SettingsScan.Text.Encoding

/-! # Files and links

A file system as a list of named entries. Directories need no entries of their own: whatever is
above an entry is one. Links are followed wherever a path goes through them.
-/

namespace SettingsScan

/-- Why a path does not lead to a file. -/
inductive FileError where
  | notFound
  | notADirectory
  | isADirectory
  | tooManyLinks
  | nameTooLong
  /-- Any other reason, in the words of the system. -/
  | other (message : Text)
  deriving DecidableEq, Repr

namespace FileError

def message : FileError → Text
  | notFound => "No such file or directory (os error 2)"
  | notADirectory => "Not a directory (os error 20)"
  | isADirectory => "Is a directory (os error 21)"
  | tooManyLinks => "Too many levels of symbolic links (os error 40)"
  | nameTooLong => "File name too long (os error 36)"
  | other message => message

end FileError

inductive FileNode where
  | file (content : Bytes)
  | link (target : Text)
  | directory
  /-- A device that is empty and drops what is written. -/
  | sink
  /-- A device that can be opened for writing, but has no room. -/
  | full
  deriving DecidableEq, Repr

/-- Entries by the names of the directories above them and their own. Relative paths start at the
current directory. -/
structure FileSystem where
  current : List Text := []
  entries : List (List Text × FileNode) := []
  deriving DecidableEq, Repr

namespace FileSystem

/-- What a path leads to: an entry, or a free name in a directory. -/
inductive Found where
  | entry (names : List Text) (node : FileNode)
  | vacant (names : List Text)
  deriving DecidableEq, Repr

/-- The entry with the given names; a directory may go without one. -/
def node? (fs : FileSystem) (names : List Text) : Option FileNode :=
  match fs.entries.lookup names with
  | some node => some node
  | none =>
    if names.isEmpty || fs.current = names || fs.entries.any (names.isPrefixOf ·.1) then
      some .directory
    else none

/-- How long a name may be, in bytes. -/
def nameLimit : Nat := 255

/-- How many links a path may go through. -/
def linkLimit : Nat := 40

/-- The segments of a path to walk. One that ends with a separator must lead to a directory. -/
def steps (path : Text) : List Text :=
  let segments := Path.segments path
  segments.filter (!·.isEmpty) ++ (if segments.getLast? = some [] then [['.']] else [])

/-- Walks from a directory; the given function goes on behind a link. -/
def walkWith (fs : FileSystem) (follow : List Text → List Text → Except FileError Found) :
    List Text → List Text → Except FileError Found
  | at_, [] => .ok (.entry at_ .directory)
  | at_, step :: more =>
    if step = ['.'] then walkWith fs follow at_ more
    else if step = ['.', '.'] then walkWith fs follow at_.dropLast more
    else if nameLimit < step.byteSize then .error .nameTooLong
    else
      let names := at_ ++ [step]
      match fs.node? names with
      | none => if more.isEmpty then .ok (.vacant names) else .error .notFound
      | some .directory => walkWith fs follow names more
      | some (.link target) =>
        if target.isEmpty then .error .notFound
        else follow (if Path.isRooted target then [] else at_) (steps target ++ more)
      | some node => if more.isEmpty then .ok (.entry names node) else .error .notADirectory

/-- Walks from a directory through so many links at most. -/
def walk (fs : FileSystem) : Nat → List Text → List Text → Except FileError Found
  | 0 => walkWith fs fun _ _ => .error .tooManyLinks
  | n + 1 => walkWith fs (walk fs n)

/-- What a path leads to. -/
def find (fs : FileSystem) (path : Text) : Except FileError Found :=
  if path.isEmpty then .error .notFound
  else fs.walk linkLimit (if Path.isRooted path then [] else fs.current) (steps path)

def pathOf (names : List Text) : Text :=
  '/' :: Text.joinWith ['/'] names

/-- The content of a file. -/
def read (fs : FileSystem) (path : Text) : Except FileError Bytes := do
  match ← fs.find path with
  | .entry _ (.file content) => .ok content
  | .entry _ .directory => .error .isADirectory
  | .entry _ _ => .ok []
  | .vacant _ => .error .notFound

/-- The path of an existing file or directory without links, `.` and `..`. -/
def canonical? (fs : FileSystem) (path : Text) : Option Text :=
  match fs.find path with
  | .ok (.entry names _) => some (pathOf names)
  | _ => none

/-- The entries with one put in or replaced. -/
def put (fs : FileSystem) (names : List Text) (node : FileNode) : FileSystem :=
  { fs with entries :=
      if fs.entries.any (·.1 = names) then
        fs.entries.map fun e => if e.1 = names then (names, node) else e
      else fs.entries ++ [(names, node)] }

/-- What became of an attempt to write a file. -/
inductive Written where
  | done (files : FileSystem)
  | notCreated (reason : FileError)
  | noRoom
  deriving DecidableEq, Repr

/-- Writes a file, which is created in its directory if it does not exist. -/
def write (fs : FileSystem) (path : Text) (content : Bytes) : Written :=
  match fs.find path with
  | .ok (.entry names (.file _)) => .done (fs.put names (.file content))
  | .ok (.vacant names) => .done (fs.put names (.file content))
  | .ok (.entry _ .full) => .noRoom
  | .ok (.entry _ .directory) => .notCreated .isADirectory
  | .ok (.entry _ _) => .done fs
  | .error reason => .notCreated reason

end FileSystem

end SettingsScan
