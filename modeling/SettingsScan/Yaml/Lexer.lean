import SettingsScan.Yaml.Scalar
import SettingsScan.Yaml.Tag

/-! # Reading the tokens of a YAML text

A mapping key without a question mark shows only by the colon behind it. So the place of every
possible key is kept, and the tokens that make it one are put there when the colon comes. A key
must fit in one line and in 1024 characters.
-/

namespace SettingsScan.Yaml

/-- A place where a key may have begun. It is required where nothing else can stand. -/
structure PossibleKey where
  start : Cursor
  /-- How many tokens come before it. -/
  tokens : Nat
  required : Bool
  deriving DecidableEq, Repr

structure Lexer where
  place : Cursor
  /-- The tokens read, the last one first. -/
  tokens : List Token := []
  /-- The columns of the open blocks, the innermost first. -/
  indents : List Nat := []
  /-- The possible key on the innermost level of brackets. -/
  possible : Option PossibleKey := none
  /-- The possible keys on the levels around it. -/
  around : List (Option PossibleKey) := []
  /-- Whether a key may begin here. -/
  keyAllowed : Bool := true
  deriving DecidableEq, Repr

namespace Lexer

/-- The longest distance of a colon from the start of its key. -/
def keyLimit : Nat := 1024

def inFlow (l : Lexer) : Bool :=
  !l.around.isEmpty

/-- Adds the token of the given length that stands here. -/
def take (l : Lexer) (token : Token) (length : Nat) : Lexer :=
  { l with tokens := token :: l.tokens, place := l.place.skip length }

/-- Adds a token that was read up to the given place. -/
def takeTo (l : Lexer) (found : Token × Cursor) : Lexer :=
  { l with tokens := found.1 :: l.tokens, place := found.2 }

/-- Puts tokens, in reverse, behind the first so many. -/
def insert (l : Lexer) (count : Nat) (tokens : List Token) : Lexer :=
  let behind := l.tokens.length - count
  { l with tokens := l.tokens.take behind ++ tokens ++ l.tokens.drop behind }

/-- Gives up a possible key that the place has left behind. A required one must not be. -/
def expire (place : Cursor) : Option PossibleKey → Option (Option PossibleKey)
  | none => some none
  | some k =>
    if k.start.line < place.line ∨ k.start.index + keyLimit < place.index then
      if k.required then none else some none
    else some (some k)

/-- Gives up all possible keys left behind. -/
def expireKeys (l : Lexer) : Option Lexer := do
  return { l with possible := ← expire l.place l.possible
                  around := ← l.around.mapM (expire l.place) }

/-- Gives up the possible key of the level, which must not be required. -/
def dropKey (l : Lexer) : Option Lexer :=
  if l.possible.any (·.required) then none else some { l with possible := none }

/-- Notes that a key may begin here. -/
def noteKey (l : Lexer) : Option Lexer := do
  if l.keyAllowed then
    let l ← l.dropKey
    let required := !l.inFlow && l.indents.head? = some l.place.column
    return { l with possible := some { start := l.place, tokens := l.tokens.length, required } }
  else return l

def allowKey (l : Lexer) (allowed : Bool) : Lexer :=
  { l with keyAllowed := allowed }

/-- Closes the blocks that are indented deeper than the column. -/
def closeFrom (l : Lexer) (column : Nat) : Lexer :=
  if l.inFlow then l else
    let closed := l.indents.takeWhile (column < ·)
    { l with indents := l.indents.drop closed.length
             tokens := closed.map (fun _ => Token.blockEnd) ++ l.tokens }

def closeAll (l : Lexer) : Lexer :=
  if l.inFlow then l else
    { l with indents := [], tokens := l.indents.map (fun _ => Token.blockEnd) ++ l.tokens }

/-- Opens a block at the column, behind the first so many tokens, unless it is open. -/
def openAt (l : Lexer) (column count : Nat) (token : Token) : Lexer :=
  if l.inFlow || l.indents.head?.any (column ≤ ·) then l
  else { l.insert count [token] with indents := column :: l.indents }

/-- Goes over gaps, comments and line breaks, one line at a time. Outside of brackets a key may
begin on a new line, and tabs must not stand where it may. -/
def skipGaps (inFlow : Bool) : Nat → Cursor → Bool → Cursor × Bool
  | 0, p, keyAllowed => (p, keyAllowed)
  | n + 1, p, keyAllowed =>
    let p := if p.column = 0 ∧ p.rest.head? = some '\uFEFF' then p.next else p
    let p := p.skipWhile fun c => c = ' ' || ((inFlow || !keyAllowed) && c = '\t')
    let p := if p.rest.head? = some '#' then p.skipWhile (!isBreak ·) else p
    if !p.rest.isEmpty && atLineEnd p.rest then
      skipGaps inFlow n p.next (keyAllowed || !inFlow)
    else (p, keyAllowed)

def skipToToken (l : Lexer) : Lexer :=
  let (place, keyAllowed) := skipGaps l.inFlow (l.place.rest.length + 1) l.place l.keyAllowed
  { l with place, keyAllowed }

/-- Reads a token for which no key may begin or be pending. -/
def marker (l : Lexer) (token : Token) : Option Lexer := do
  return (← l.closeAll.dropKey).allowKey false |>.take token 3

def directive (l : Lexer) : Option Lexer := do
  let l := (← l.closeAll.dropKey).allowKey false
  return l.takeTo (← Tag.directive? l.place)

def streamEnd (l : Lexer) : Option Lexer := do
  return (← l.closeAll.dropKey).takeTo (.streamEnd, l.place)

def flowStart (l : Lexer) (token : Token) : Option Lexer := do
  let l ← l.noteKey
  return { l with possible := none, around := l.possible :: l.around, keyAllowed := true }
    |>.take token 1

def flowEnd (l : Lexer) (token : Token) : Option Lexer := do
  let l ← l.dropKey
  let l := match l.around with
    | [] => l
    | possible :: around => { l with possible, around }
  return (l.allowKey false).take token 1

def flowEntry (l : Lexer) : Option Lexer := do
  return ((← l.dropKey).allowKey true).take .flowEntry 1

/-- Opens a block for an indicator that stands here, where a key may begin. -/
def openHere (l : Lexer) (token : Token) : Option Lexer :=
  if l.inFlow then some l
  else if l.keyAllowed then some (l.openAt l.place.column l.tokens.length token)
  else none

def blockEntry (l : Lexer) : Option Lexer := do
  return ((← (← l.openHere .blockSequenceStart).dropKey).allowKey true).take .blockEntry 1

def key (l : Lexer) : Option Lexer := do
  let l ← (← l.openHere .blockMappingStart).dropKey
  return (l.allowKey (!l.inFlow)).take .key 1

def value (l : Lexer) : Option Lexer := do
  match l.possible with
  | some k =>
    let l := l.insert k.tokens [.key]
    let l := l.openAt k.start.column k.tokens .blockMappingStart
    return { l with possible := none, keyAllowed := false }.take .value 1
  | none =>
    let l ← l.openHere .blockMappingStart
    return (l.allowKey (!l.inFlow)).take .value 1

def anchor (l : Lexer) (token : Text → Token) : Option Lexer := do
  let l := (← l.noteKey).allowKey false
  let (name, p) ← Tag.anchorName? l.place
  return l.takeTo (token name, p)

def tag (l : Lexer) : Option Lexer := do
  let l := (← l.noteKey).allowKey false
  return l.takeTo (← Tag.tag? l.inFlow l.place)

def blockScalar (l : Lexer) (literal : Bool) : Option Lexer := do
  let l := (← l.dropKey).allowKey true
  let (text, p) ← Scalar.block? literal l.indents.head? l.place
  return l.takeTo (.scalar (if literal then .literal else .folded) text, p)

def quoted (l : Lexer) (double : Bool) : Option Lexer := do
  let l := (← l.noteKey).allowKey false
  let (text, p) ← Scalar.quoted? double l.place
  return l.takeTo (.scalar (if double then .doubleQuoted else .singleQuoted) text, p)

def plain (l : Lexer) : Option Lexer := do
  let l ← l.noteKey
  let indent := (l.indents.head?.map (· + 1)).getD 0
  let found ← Scalar.plain? l.inFlow indent l.place
  return (l.allowKey found.newLine).takeTo (.scalar .plain found.text, found.stop)

/-- The characters that do not begin a plain scalar. -/
def isIndicator (c : Char) : Bool :=
  isFlowIndicator c || "-?:#&*!|>'\"%@\x60".toList.contains c

/-- Whether a plain scalar begins with the character, which the text follows. -/
def beginsPlain (inFlow : Bool) (c : Char) (t : Text) : Bool :=
  (!isIndicator c && !isGapOrBreak c) || (c = '-' && !t.head?.any isGap) ||
    (!inFlow && (c = '?' || c = ':') && !atWordEnd t)

/-- Reads the token here, which is not the end of the text. -/
def tokenAt (l : Lexer) (c : Char) (t : Text) : Option Lexer :=
  let inFlow := l.inFlow
  if l.place.column = 0 && c = '%' then l.directive
  else if l.place.atMarker then l.marker (if c = '-' then .documentStart else .documentEnd)
  else if c = '[' then l.flowStart .flowSequenceStart
  else if c = '\x7b' then l.flowStart .flowMappingStart
  else if c = ']' then l.flowEnd .flowSequenceEnd
  else if c = '\x7d' then l.flowEnd .flowMappingEnd
  else if c = ',' then l.flowEntry
  else if c = '-' && atWordEnd t then l.blockEntry
  else if c = '?' && (inFlow || atWordEnd t) then l.key
  else if c = ':' && (inFlow || atWordEnd t) then l.value
  else if c = '*' then l.anchor .alias
  else if c = '&' then l.anchor .anchor
  else if c = '!' then l.tag
  else if c = '|' && !inFlow then l.blockScalar true
  else if c = '>' && !inFlow then l.blockScalar false
  else if c = '\'' then l.quoted false
  else if c = '"' then l.quoted true
  else if beginsPlain inFlow c t then l.plain
  else none

/-- The tokens, in order, that do not depend on whether a possible key is one. -/
def settled (l : Lexer) : List Token :=
  let keys := (l.possible :: l.around).filterMap id
  l.tokens.reverse.take (keys.foldl (fun n k => min n k.tokens) l.tokens.length)

/-- Reads tokens up to the end of the text or to an error. An error also takes back the tokens
that were still waiting for a colon. -/
def run : Nat → Lexer → List Token
  | 0, l => l.settled
  | n + 1, l =>
    match l.expireKeys with
    | none => l.settled
    | some l =>
      match l.skipToToken.expireKeys with
      | none => l.settled
      | some here =>
        let l := here.closeFrom here.place.column
        let next := match l.place.rest with
          | [] => l.streamEnd
          | c :: t => l.tokenAt c t
        match next with
        | none => here.settled
        | some next => if l.place.rest.isEmpty then next.tokens.reverse else run n next

end Lexer

/-- The tokens of a text. They end with the end of the stream unless there is an error. -/
def Token.ofText (t : Text) : List Token :=
  Lexer.run (t.length + 1) { place := { rest := t } }

end SettingsScan.Yaml
