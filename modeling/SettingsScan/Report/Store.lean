import SettingsScan.Report.Resource

/-! # The store of settings

A scan deposits settings, requests and diagnostics. A file keeps the settings of the last command
that compiled it; a folder and the project collect those of all commands, each setting once, in
the order of first appearance.
-/

namespace SettingsScan

/-- A request to ask a compiler for the settings it has of its own. -/
structure BuiltinRequest where
  command : Text
  language : Option Language
  method : BuiltinMethod
  arguments : List Text
  deriving DecidableEq, Repr

/-- Something worth telling about one entry. -/
structure Diagnostic where
  location : Text
  message : Text
  deriving DecidableEq, Repr

/-- What a scan deposits. -/
inductive Deposit where
  | settings (resource : Resource) (language : Option Language) (entries : List Setting)
  | builtin (request : BuiltinRequest)
  | diagnostic (d : Diagnostic)
  deriving DecidableEq, Repr

structure ResourceSettings where
  language : Option Language := none
  entries : List Setting := []
  deriving DecidableEq, Repr

/-- The resources are in strictly increasing order, the requests distinct. -/
structure Store where
  resources : List (Resource × ResourceSettings) := []
  requests : List BuiltinRequest := []
  diagnostics : List Diagnostic := []
  deriving DecidableEq, Repr

namespace ResourceSettings

/-- The entries with those of another list that are not there yet. -/
def addNew (entries more : List Setting) : List Setting :=
  more.foldl (fun entries s => if s ∈ entries then entries else entries ++ [s]) entries

/-- What a folder or the project holds after one more command. -/
def collect (s : ResourceSettings) (language : Option Language) (entries : List Setting) :
    ResourceSettings where
  language := s.language.or language
  entries := addNew s.entries entries

end ResourceSettings

namespace Store

/-- Changes what is held for a resource, at its place in the order. A resource that is there
already keeps the text of its path. -/
def update (resource : Resource) (f : Option ResourceSettings → ResourceSettings) :
    List (Resource × ResourceSettings) → List (Resource × ResourceSettings)
  | [] => [(resource, f none)]
  | (r, s) :: more =>
    match resource.compare r with
    | .lt => (resource, f none) :: (r, s) :: more
    | .eq => (r, f (some s)) :: more
    | .gt => (r, s) :: update resource f more

def addSettings (store : Store) (resource : Resource) (language : Option Language)
    (entries : List Setting) : Store :=
  let change (held : Option ResourceSettings) : ResourceSettings :=
    match resource with
    | .file _ => { language, entries }
    | _ => (held.getD {}).collect language entries
  { store with resources := update resource change store.resources }

def addRequest (store : Store) (request : BuiltinRequest) : Store :=
  if request ∈ store.requests then store
  else { store with requests := store.requests ++ [request] }

def addDiagnostic (store : Store) (d : Diagnostic) : Store :=
  { store with diagnostics := store.diagnostics ++ [d] }

def add (store : Store) : Deposit → Store
  | .settings resource language entries => store.addSettings resource language entries
  | .builtin request => store.addRequest request
  | .diagnostic d => store.addDiagnostic d

def addAll (store : Store) (deposits : List Deposit) : Store :=
  deposits.foldl add store

def get? (store : Store) (resource : Resource) : Option ResourceSettings :=
  (store.resources.find? fun (r, _) => resource.compare r = .eq).map (·.2)

end Store

end SettingsScan
