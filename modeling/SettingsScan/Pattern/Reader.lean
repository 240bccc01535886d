import SettingsScan.Text.Letter
import SettingsScan.Pattern.Basic

/-! # Patterns from text

The reader goes through the text once. It keeps the branches and items of the group under way,
and for each enclosing group what has been read of it and the flags to go back to.
-/

namespace SettingsScan.Pattern

/-- Why a text is not a pattern. -/
inductive PatternError where
  | nestedTooDeep | tooLarge
  | unclosedGroup | unopenedGroup | lookAround
  | emptyFlags | unknownFlag | repeatedFlag | repeatedNegation | danglingNegation | unclosedFlags
  | unclosedName | invalidName | emptyName | repeatedName
  | nothingToRepeat | invalidRepetition | invalidRange
  | trailingBackslash | backReference | unicodeClass | unknownEscape | invalidHex
  | invalidWordEdge
  | unclosedSet | nestedSet | setOperation | invalidSetItem
  deriving DecidableEq, Repr

structure Flags where
  ignoreCase : Bool := false
  multiLine : Bool := false
  dotAll : Bool := false
  swapGreed : Bool := false
  crlf : Bool := false
  /-- Blank characters and comments between the parts are skipped. -/
  verbose : Bool := false
  deriving DecidableEq, Repr

/-- A finished part, with how deep its parts are nested and the bytes of the machine for it. -/
structure Draft where
  node : Node
  nesting : Nat
  size : Nat
  deriving DecidableEq, Repr

/-- An enclosing group whose reading is suspended. -/
structure Frame where
  flags : Flags
  capture : Option Nat
  branches : List Draft
  items : List Draft
  deriving DecidableEq, Repr

structure State where
  flags : Flags := {}
  /-- The finished branches, the latest first. -/
  branches : List Draft := []
  /-- The items of the branch under way, the latest first. -/
  items : List Draft := []
  outer : List Frame := []
  groups : Nat := 0
  names : List Text := []
  deriving DecidableEq, Repr

abbrev Reading := Except PatternError

/-! ### Skipping -/

/-- Drops blank characters and comments. -/
def skipIgnored (inComment : Bool) : Text → Text
  | [] => []
  | c :: t =>
    if inComment then skipIgnored (c ≠ '\n') t
    else if isBlank c then skipIgnored false t
    else if c = '#' then skipIgnored true t
    else c :: t

namespace Flags

def skip (flags : Flags) (t : Text) : Text :=
  if flags.verbose then skipIgnored false t else t

def dot (flags : Flags) : CharSet :=
  if flags.dotAll then .all
  else if flags.crlf then .complement (.union (.single '\r') (.single '\n'))
  else .notNewline

def lineStart (flags : Flags) : Look :=
  if flags.multiLine then if flags.crlf then .lineStartCRLF else .lineStart else .textStart

def lineEnd (flags : Flags) : Look :=
  if flags.multiLine then if flags.crlf then .lineEndCRLF else .lineEnd else .textEnd

def fold (flags : Flags) (set : CharSet) : CharSet :=
  if flags.ignoreCase then .foldCase set else set

def set? (flags : Flags) (letter : Char) (on : Bool) : Option Flags :=
  match letter with
  | 'i' => some { flags with ignoreCase := on }
  | 'm' => some { flags with multiLine := on }
  | 's' => some { flags with dotAll := on }
  | 'U' => some { flags with swapGreed := on }
  | 'R' => some { flags with crlf := on }
  | 'x' => some { flags with verbose := on }
  | 'u' => some flags
  | _ => none

end Flags

/-! ### Escapes -/

/-- What one escape or character of a pattern stands for. -/
inductive Atom where
  | char (c : Char)
  | set (s : CharSet)
  | look (condition : Look)
  deriving DecidableEq, Repr

/-- A single character; ignoring case makes a set of a letter. -/
def Atom.ofChar (flags : Flags) (c : Char) : Atom :=
  if flags.ignoreCase && swapCase c ≠ c then .set (.foldCase (.single c)) else .char c

def Atom.node : Atom → Node
  | char c => .char c
  | set s => .one s
  | look condition => .look condition

def isMeta (c : Char) : Bool :=
  "\\.+*?()|[]\x7b\x7d^$#&-~".toList.contains c

/-- Whether a backslash before the character makes it stand for itself. -/
def isEscapable (c : Char) : Bool :=
  isMeta c || (c.toNat < 0x80 && !c.isAlphanum && c ≠ '<' && c ≠ '>')

def hexValue? (c : Char) : Option Nat :=
  if c.isDigit then some (c.toNat - '0'.toNat)
  else if 'a' ≤ c && c ≤ 'f' then some (c.toNat - 'a'.toNat + 10)
  else if 'A' ≤ c && c ≤ 'F' then some (c.toNat - 'A'.toNat + 10)
  else none

def charOfCode? (code : Nat) : Option Char :=
  if code.isValidChar then some (Char.ofNat code) else none

/-- Exactly so many hexadecimal digits. -/
def readHexDigits (flags : Flags) : Nat → Nat → Text → Reading (Char × Text)
  | 0, code, t =>
    match charOfCode? code with
    | some c => .ok (c, t)
    | none => .error .invalidHex
  | _ + 1, _, [] => .error .invalidHex
  | n + 1, code, c :: t =>
    match hexValue? c with
    | some digit => readHexDigits flags n (code * 16 + digit) (flags.skip t)
    | none => .error .invalidHex

/-- Hexadecimal digits up to the closing brace; the fuel is the length of the text. -/
def readHexBraces (flags : Flags) : Nat → Option Nat → Text → Reading (Char × Text)
  | 0, _, _ => .error .invalidHex
  | _ + 1, _, [] => .error .invalidHex
  | n + 1, code, c :: t =>
    if c = '}' then
      match code.bind charOfCode? with
      | some c => .ok (c, flags.skip t)
      | none => .error .invalidHex
    else
      match hexValue? c with
      | some digit => readHexBraces flags n (some (code.getD 0 * 16 + digit)) (flags.skip t)
      | none => .error .invalidHex

def readHex (flags : Flags) (digits : Nat) (t : Text) : Reading (Char × Text) :=
  match flags.skip t with
  | [] => .error .invalidHex
  | '{' :: t => readHexBraces flags (t.length + 1) none (flags.skip t)
  | t => readHexDigits flags digits 0 t

def isWordEdgeLetter (c : Char) : Bool :=
  c.isAlpha || c = '-'

/-- The letters of a word edge in braces; the fuel is the length of the text. -/
def readWordEdgeName (flags : Flags) : Nat → Text → Text × Text
  | n + 1, c :: t =>
    if isWordEdgeLetter c then
      let (name, rest) := readWordEdgeName flags n (flags.skip t)
      (c :: name, rest)
    else ([], c :: t)
  | _, t => ([], t)

/-- What follows `\b`: the special edges are written in braces, and braces with anything but a
letter behind them are a repetition. -/
def readWordEdge (flags : Flags) (t : Text) : Reading (Look × Text) :=
  match t with
  | '{' :: inner =>
    match flags.skip inner with
    | [] => .error .invalidWordEdge
    | c :: body =>
      if !isWordEdgeLetter c then .ok (.wordEdge, t)
      else
        match readWordEdgeName flags (body.length + 1) (c :: body) with
        | (name, '}' :: rest) =>
          match String.ofList name with
          | "start" => .ok (.wordStart, rest)
          | "end" => .ok (.wordEnd, rest)
          | "start-half" => .ok (.wordStartHalf, rest)
          | "end-half" => .ok (.wordEndHalf, rest)
          | _ => .error .invalidWordEdge
        | _ => .error .invalidWordEdge
  | _ => .ok (.wordEdge, t)

/-- What follows a backslash. -/
def readEscape (flags : Flags) : Text → Reading (Atom × Text)
  | [] => .error .trailingBackslash
  | c :: t =>
    if c.isDigit then .error .backReference
    else if isEscapable c then .ok (.ofChar flags c, t)
    else
      match c with
      | 'p' | 'P' => .error .unicodeClass
      | 'x' => (readHex flags 2 t).map fun (c, t) => (.ofChar flags c, t)
      | 'u' => (readHex flags 4 t).map fun (c, t) => (.ofChar flags c, t)
      | 'U' => (readHex flags 8 t).map fun (c, t) => (.ofChar flags c, t)
      | 'd' => .ok (.set .digit, t)
      | 's' => .ok (.set .space, t)
      | 'w' => .ok (.set .word, t)
      | 'D' => .ok (.set (.complement .digit), t)
      | 'S' => .ok (.set (.complement .space), t)
      | 'W' => .ok (.set (.complement .word), t)
      | 'a' => .ok (.char '\x07', t)
      | 'f' => .ok (.char '\x0C', t)
      | 't' => .ok (.char '\t', t)
      | 'n' => .ok (.char '\n', t)
      | 'r' => .ok (.char '\r', t)
      | 'v' => .ok (.char '\x0B', t)
      | 'A' => .ok (.look .textStart, t)
      | 'z' => .ok (.look .textEnd, t)
      | 'b' => (readWordEdge flags t).map fun (edge, t) => (.look edge, t)
      | 'B' => .ok (.look .notWordEdge, t)
      | '<' => .ok (.look .wordStart, t)
      | '>' => .ok (.look .wordEnd, t)
      | _ => .error .unknownEscape

/-! ### Sets -/

/-- A named class, with what follows its opening bracket. -/
def readNamedSet? (t : Text) : Option (CharSet × Text) :=
  match t with
  | ':' :: t =>
    let (negated, t) := match t with
      | '^' :: t => (true, t)
      | t => (false, t)
    match t.dropWhile (· ≠ ':') with
    | ':' :: ']' :: rest =>
      (CharSet.named? (t.takeWhile (· ≠ ':'))).map fun set =>
        (if negated then .complement set else set, rest)
    | _ => none
  | _ => none

def readSetItem (flags : Flags) : Text → Reading (Atom × Text)
  | '\\' :: t => readEscape flags t
  | c :: t => .ok (.char c, t)
  | [] => .error .unclosedSet

def Atom.charSet? : Atom → Option CharSet
  | char c => some (.single c)
  | set s => some s
  | look _ => none

/-- One item of a set, or a range of two. -/
def readSetRange (flags : Flags) (t : Text) : Reading (CharSet × Text) := do
  let (first, t) ← readSetItem flags t
  let alone := match first.charSet? with
    | some set => .ok (set, flags.skip t)
    | none => .error .invalidSetItem
  match flags.skip t with
  | [] => .error .unclosedSet
  | '-' :: t =>
    match flags.skip t with
    | [] => .error .unclosedSet
    | ']' :: _ => alone
    | '-' :: _ => alone
    | t =>
      let (second, t) ← readSetItem flags t
      match first, second with
      | .char low, .char high =>
        if low ≤ high then .ok (.range low high, t) else .error .invalidRange
      | _, _ => .error .invalidSetItem
  | _ => alone

/-- The items up to the closing bracket; the fuel is the length of the text. -/
def readSetItems (flags : Flags) : Nat → CharSet → Text → Reading (CharSet × Text)
  | 0, _, _ => .error .unclosedSet
  | n + 1, set, t =>
    match flags.skip t with
    | [] => .error .unclosedSet
    | ']' :: t => .ok (set, t)
    | '[' :: t =>
      match readNamedSet? t with
      | some (named, t) => readSetItems flags n (.union set named) t
      | none => .error .nestedSet
    | '&' :: '&' :: _ => .error .setOperation
    | '-' :: '-' :: _ => .error .setOperation
    | '~' :: '~' :: _ => .error .setOperation
    | t =>
      match readSetRange flags t with
      | .ok (item, t) => readSetItems flags n (.union set item) t
      | .error e => .error e

/-- Leading dashes of a set stand for themselves; the fuel is the length of the text. -/
def dropDashes (flags : Flags) : Nat → Text → Text
  | n + 1, '-' :: t => dropDashes flags n (flags.skip t)
  | _, t => t

/-- What follows an opening bracket. -/
def readSet (flags : Flags) (t : Text) : Reading (CharSet × Text) := do
  let t := flags.skip t
  let (negated, t) := match t with
    | '^' :: t => (true, flags.skip t)
    | t => (false, t)
  let rest := dropDashes flags t.length t
  let (set, t) ← match t, rest with
    | ']' :: t, _ => readSetItems flags (t.length + 1) (.single ']') t
    | '-' :: _, rest => readSetItems flags (rest.length + 1) (.single '-') rest
    | t, _ => readSetItems flags (t.length + 1) .empty t
  .ok (if negated then .complement (flags.fold set) else flags.fold set, t)

/-! ### Repetition -/

/-- A decimal number, blank characters around it allowed; the fuel is the length of the text. -/
def readDigits (flags : Flags) : Nat → Option Nat → Text → Option Nat × Text
  | n + 1, value, c :: t =>
    if c.isDigit then
      readDigits flags n (some (value.getD 0 * 10 + (c.toNat - '0'.toNat))) (flags.skip t)
    else (value, c :: t)
  | _, value, t => (value, t)

def skipBlank (flags : Flags) (t : Text) : Text :=
  flags.skip (t.dropWhile isBlank)

def readCount (flags : Flags) (t : Text) : Reading (Nat × Text) :=
  let t := t.dropWhile isBlank
  match readDigits flags t.length none t with
  | (some n, t) =>
    if n < Nat.pow 2 32 then .ok (n, skipBlank flags t) else .error .invalidRepetition
  | (none, _) => .error .invalidRepetition

/-- The bounds of a repetition, with what follows its opening brace. -/
def readBounds (flags : Flags) (t : Text) : Reading (Nat × Option Nat × Text) := do
  let (least, t) ← readCount flags (flags.skip t)
  let (most, t) ← match t with
    | ',' :: t =>
      match flags.skip t with
      | '}' :: t => pure (none, '}' :: t)
      | t => (readCount flags t).map fun (most, t) => (some most, t)
    | t => pure (some least, t)
  match t with
  | '}' :: t =>
    if most.any (· < least) then .error .invalidRange else .ok (least, most, t)
  | _ => .error .invalidRepetition

/-- A question mark behind a repetition makes it lazy. -/
def readGreed (flags : Flags) : Text → Bool × Text
  | '?' :: t => (flags.swapGreed, t)
  | t => (!flags.swapGreed, t)

/-- Whether a part may match without a character, as far as its form tells. -/
def Node.matchesEmpty : Node → Bool
  | empty => true
  | one _ => false
  | look _ => true
  | group _ body => body.matchesEmpty
  | seq a b => a.matchesEmpty && b.matchesEmpty
  | alt a b => a.matchesEmpty || b.matchesEmpty
  | loop least _ _ body => least = 0 || body.matchesEmpty

/-! ### The machine

A pattern is compiled to states that lead to each other. A split leads to several states, and a
set keeps its ranges.
-/

/-- The bytes of a state. -/
def stateSize : Nat := 32

/-- The bytes of one way to go on in a split. -/
def targetSize : Nat := 4

/-- The bytes of a range in a set. -/
def rangeSize : Nat := 8

def splitSize (targets : Nat) : Nat :=
  stateSize + targets * targetSize

def Atom.size : Atom → Nat
  | set s => stateSize + s.ranges.length * rangeSize
  | _ => stateSize

namespace Draft

def ofAtom (atom : Atom) : Draft :=
  { node := atom.node, nesting := 0, size := atom.size }

def empty : Draft :=
  { node := .empty, nesting := 0, size := stateSize }

def deepest (parts : List Draft) : Nat :=
  parts.foldl (fun n part => max n part.nesting) 0

def totalSize : List Draft → Nat
  | [] => 0
  | part :: parts => part.size + totalSize parts

/-- The items one after the other. -/
def concat : List Draft → Draft
  | [] => empty
  | [item] => item
  | items =>
    { node := .concat (items.map (·.node))
      nesting := deepest items + 1
      size := totalSize items }

/-- A split leads to the branches, which meet in a state behind them. -/
def choice : List Draft → Draft
  | [branch] => branch
  | branches =>
    { node := .choice (branches.map (·.node))
      nesting := deepest branches + 1
      size := splitSize branches.length + totalSize branches + stateSize }

/-- A state in front of the group and one behind it keep the places. -/
def capture (index : Nat) (body : Draft) : Draft :=
  { node := .group index body.node
    nesting := body.nesting + 1
    size := 2 * stateSize + body.size }

/-- The body stands in the machine as often as it is asked for, with a split for each round that
may be left out. -/
def loopSize (least : Nat) (most : Option Nat) (body : Draft) : Nat :=
  match most with
  | none =>
    if least = 0 && body.node.matchesEmpty then body.size + 2 * splitSize 2 + stateSize
    else max least 1 * body.size + splitSize 2
  | some most =>
    if least = most then most * body.size
    else
      -- without a round that is asked for, a state stands in front of the others
      let before := if least = 0 && most ≠ 1 then stateSize else 0
      before + most * body.size + (most - least) * splitSize 2 + stateSize

def loop (least : Nat) (most : Option Nat) (greedy : Bool) (body : Draft) : Draft :=
  if most = some 0 then empty
  else if least = 1 && most = some 1 then body
  else
    { node := .loop least most greedy body.node
      nesting := body.nesting + 1
      size := loopSize least most body }

end Draft

/-! ### Groups -/

def isNameStart (c : Char) : Bool :=
  c = '_' || Letter.isLetter c

def isNameChar (c : Char) : Bool :=
  c = '_' || c = '.' || c = '[' || c = ']' || Letter.isLetterOrNumber c

/-- The name of a group, up to the closing angle bracket. -/
def readName (t : Text) : Reading (Text × Text) :=
  match t.takeWhile (· ≠ '>'), t.dropWhile (· ≠ '>') with
  | [], [] => .error .unclosedName
  | [], _ => .error .emptyName
  | first :: more, rest =>
    if !isNameStart first || !more.all isNameChar then .error .invalidName
    else
      match rest with
      | _ :: rest => .ok (first :: more, rest)
      | [] => .error .unclosedName

/-- The flags of a group, up to the colon or the closing parenthesis, which is kept. -/
def readFlags (flags : Flags) (negated justNegated : Bool) (seen : List Char) :
    Text → Reading (Flags × Text)
  | [] => .error .unclosedFlags
  | c :: t =>
    if c = ':' || c = ')' then
      if justNegated then .error .danglingNegation else .ok (flags, c :: t)
    else if c = '-' then
      if negated then .error .repeatedNegation else readFlags flags true true seen t
    else
      match flags.set? c (!negated) with
      | none => .error .unknownFlag
      | some flags =>
        if seen.contains c then .error .repeatedFlag
        else readFlags flags negated false (c :: seen) t

/-- How deep groups may be nested. -/
def nestingLimit : Nat := 50

namespace State

def push (s : State) (item : Draft) : State :=
  { s with items := item :: s.items }

def level (s : State) : Draft :=
  .choice (.concat s.items.reverse :: s.branches).reverse

/-- Starts a group, to be closed by the matching parenthesis. -/
def enter (s : State) (inner : Flags) (capture : Option Nat) : Reading State :=
  if s.outer.length ≥ nestingLimit then .error .nestedTooDeep
  else .ok { s with
    flags := inner
    branches := []
    items := []
    outer := { flags := s.flags, capture, branches := s.branches, items := s.items } :: s.outer }

def close (s : State) : Reading State :=
  match s.outer with
  | [] => .error .unopenedGroup
  | frame :: outer =>
    let body := match frame.capture with
      | some index => .capture index s.level
      | none => s.level
    .ok { s with
      flags := frame.flags, branches := frame.branches, items := body :: frame.items, outer }

def openNamed (s : State) (t : Text) : Reading (State × Text) := do
  let (name, t) ← readName t
  if s.names.contains name then .error .repeatedName
  else
    let index := s.groups + 1
    let s ← { s with groups := index, names := name :: s.names }.enter s.flags (some index)
    .ok (s, t)

/-- What follows an opening parenthesis. -/
def openGroup (s : State) (t : Text) : Reading (State × Text) :=
  match s.flags.skip t with
  | '?' :: '=' :: _ => .error .lookAround
  | '?' :: '!' :: _ => .error .lookAround
  | '?' :: '<' :: '=' :: _ => .error .lookAround
  | '?' :: '<' :: '!' :: _ => .error .lookAround
  | '?' :: 'P' :: '<' :: t => s.openNamed t
  | '?' :: '<' :: t => s.openNamed t
  | '?' :: t => do
    let (flags, rest) ← readFlags s.flags false false [] t
    match rest with
    | ')' :: rest =>
      if t.head? = some ')' then .error .emptyFlags else .ok ({ s with flags }, rest)
    | _ :: rest => (s.enter flags none).map (·, rest)
    | [] => .error .unclosedFlags
  | t =>
    let index := s.groups + 1
    ({ s with groups := index }.enter s.flags (some index)).map (·, t)

/-- Repeats the latest item. -/
def repeated (s : State) (least : Nat) (most : Option Nat) (t : Text) : Reading (State × Text) :=
  match s.items with
  | [] => .error .nothingToRepeat
  | item :: items =>
    let (greedy, t) := readGreed s.flags t
    .ok ({ s with items := .loop least most greedy item :: items }, t)

/-- Reads one part of a pattern. -/
def step (s : State) (c : Char) (t : Text) : Reading (State × Text) :=
  match c with
  | '(' => s.openGroup t
  | ')' => s.close.map (·, t)
  | '|' => .ok ({ s with branches := .concat s.items.reverse :: s.branches, items := [] }, t)
  | '[' => (readSet s.flags t).map fun (set, t) => (s.push (.ofAtom (.set set)), t)
  | '?' => s.repeated 0 (some 1) t
  | '*' => s.repeated 0 none t
  | '+' => s.repeated 1 none t
  | '{' =>
    if s.items.isEmpty then .error .nothingToRepeat
    else do
      let (least, most, t) ← readBounds s.flags t
      s.repeated least most (s.flags.skip t)
  | '\\' => (readEscape s.flags t).map fun (atom, t) => (s.push (.ofAtom atom), t)
  | '.' => .ok (s.push (.ofAtom (.set s.flags.dot)), t)
  | '^' => .ok (s.push (.ofAtom (.look s.flags.lineStart)), t)
  | '$' => .ok (s.push (.ofAtom (.look s.flags.lineEnd)), t)
  | c => .ok (s.push (.ofAtom (.ofChar s.flags c)), t)

/-- Reads all parts; the fuel is the length of the text. -/
def readAll : Nat → State → Text → Reading State
  | fuel, s, t =>
    match s.flags.skip t with
    | [] => .ok s
    | c :: t =>
      match fuel with
      | 0 => .ok s
      | fuel + 1 =>
        match s.step c t with
        | .ok (s, t) => readAll fuel s t
        | .error e => .error e

end State

/-! ### Compiling -/

/-- The bytes of the names of groups, each with its number. -/
def namesSize : List Text → Nat
  | [] => 0
  | name :: names => name.byteSize + 4 + namesSize names

/-- The bytes of the table of groups. A group that is repeated no times keeps its place. -/
def State.tableSize (s : State) : Nat :=
  s.groups * 16 + namesSize s.names

/-- The bytes of the whole machine: the match is a group as well, with a last state behind it. -/
def State.size (s : State) : Nat :=
  s.level.size + 3 * stateSize + (16 + s.tableSize)

def sizeLimit : Nat := 10 * Nat.pow 2 20

/-- The pattern that a text spells. -/
def ofText (t : Text) : Reading Node :=
  match State.readAll t.length {} t with
  | .error e => .error e
  | .ok s =>
    if s.outer ≠ [] then .error .unclosedGroup
    else
      let draft := s.level
      if draft.nesting > nestingLimit then .error .nestedTooDeep
      else if s.size > sizeLimit then .error .tooLarge
      else .ok draft.node

/-- Whether a text spells a pattern. -/
def compiles (t : Text) : Bool :=
  (ofText t).isOk

end SettingsScan.Pattern
