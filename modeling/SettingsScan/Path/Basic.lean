import SettingsScan.Text.Blank

/-! # Paths

A path is a text read as components. Repeated separators and inner `.` segments do not count:
comparing, ordering and looking for a leading path go by components, while printing gives the
text as it was written.
-/

namespace SettingsScan.Path

inductive Component where
  | root
  | current
  | parent
  | normal (name : Text)
  deriving DecidableEq, Repr

def isSeparator (c : Char) : Bool := c = '/'

def isRooted (path : Text) : Bool :=
  path.head? = some '/'

/-- Whether a path starts with a `.` segment. -/
def startsAtCurrent (path : Text) : Bool :=
  match path with
  | ['.'] => true
  | '.' :: '/' :: _ => true
  | _ => false

/-- The component of an inner segment; empty ones and `.` are none. -/
def Component.ofSegment? (segment : Text) : Option Component :=
  if segment = [] ∨ segment = ['.'] then none
  else if segment = ['.', '.'] then some .parent
  else some (.normal segment)

def segments (path : Text) : List Text :=
  Text.pieces isSeparator path

def components (path : Text) : List Component :=
  (if isRooted path then [.root] else if startsAtCurrent path then [.current] else []) ++
    (segments path).filterMap Component.ofSegment?

def Component.text : Component → Text
  | root => ['/']
  | current => ['.']
  | parent => ['.', '.']
  | normal name => name

/-- A path put under a directory; a rooted one replaces it. -/
def join (directory path : Text) : Text :=
  if isRooted path || directory.isEmpty then path
  else if directory.getLast? = some '/' then directory ++ path
  else directory ++ '/' :: path

/-- The text of a list of components. -/
def ofComponents : List Component → Text
  | [] => []
  | .root :: rest => '/' :: Text.joinWith ['/'] (rest.map Component.text)
  | rest => Text.joinWith ['/'] (rest.map Component.text)

/-- Whether a path is the directory or below it. -/
def isWithin (directory path : Text) : Bool :=
  (components directory).isPrefixOf (components path)

def fileName? (path : Text) : Option Text :=
  match (components path).getLast? with
  | some (.normal name) => some name
  | _ => none

/-- What follows the last dot of the file name, unless that dot is its first character. -/
def extension? (path : Text) : Option Text :=
  match (fileName? path).bind (Text.cutLast? (· = '.')) with
  | some (_ :: _, extension) => some extension
  | _ => none

/-- Drops segments from the end that are no components. -/
def dropIdle (reversed : List Text) : List Text :=
  reversed.dropWhile fun segment => (Component.ofSegment? segment).isNone

/-- The path without its last component. -/
def parent? (path : Text) : Option Text :=
  let (lead, body) :=
    if isRooted path then (['/'], path.drop 1)
    else if startsAtCurrent path then (['.'], path.drop 1)
    else ([], path)
  match dropIdle (segments body).reverse with
  | _ :: above => some (lead ++ Text.joinWith ['/'] (dropIdle above).reverse)
  | [] => if lead = ['.'] then some [] else none

def Component.rank : Component → Nat
  | root => 0
  | current => 1
  | parent => 2
  | normal _ => 3

def compareText : Text → Text → Ordering
  | [], [] => .eq
  | [], _ :: _ => .lt
  | _ :: _, [] => .gt
  | a :: s, b :: t => (compare a.toNat b.toNat).then (compareText s t)

def Component.compare : Component → Component → Ordering
  | normal a, normal b => compareText a b
  | a, b => Ord.compare a.rank b.rank

def compareComponents : List Component → List Component → Ordering
  | [], [] => .eq
  | [], _ :: _ => .lt
  | _ :: _, [] => .gt
  | a :: s, b :: t => (a.compare b).then (compareComponents s t)

/-- The order of paths: the first different component decides. -/
def compare (a b : Text) : Ordering :=
  compareComponents (components a) (components b)

end SettingsScan.Path
