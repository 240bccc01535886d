import SettingsScan.Setting

/-! # Resources

Settings belong to a source file, to the folder it is in, or to the project as a whole. Files come
before folders and folders before the project; paths are ordered by components.
-/

namespace SettingsScan

inductive Scope where
  | file
  | folder
  | project
  deriving DecidableEq, Repr

namespace Scope

def all : List Scope := [file, folder, project]

def word : Scope → Text
  | file => "file"
  | folder => "folder"
  | project => "project"

def ofWord? (w : Text) : Option Scope :=
  all.find? (·.word = w)

end Scope

inductive Resource where
  | file (path : Text)
  | folder (path : Text)
  | project
  deriving DecidableEq, Repr

namespace Resource

/-- The resource of a source file. Without a known source it is the project. -/
def ofSource (scope : Scope) (source : Option Text) : Resource :=
  match scope, source with
  | .file, some path => .file path
  | .folder, some path =>
    match Path.parent? path with
    | some above => .folder above
    | none => .project
  | _, _ => .project

def describe : Resource → Text
  | file path => "file ".toList ++ path
  | folder path => "folder ".toList ++ path
  | project => "project"

def rank : Resource → Nat
  | file _ => 0
  | folder _ => 1
  | project => 2

def compare (a b : Resource) : Ordering :=
  match a, b with
  | file p, file q => Path.compare p q
  | folder p, folder q => Path.compare p q
  | a, b => Ord.compare a.rank b.rank

end Resource

end SettingsScan
