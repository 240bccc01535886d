import SettingsScan.Text.Encoding

/-! # Characters and places of a YAML text

Structure hangs on lines and columns. A cursor is a place in the text together with what follows.
-/

namespace SettingsScan.Yaml

/-- The characters that a YAML text may hold. -/
def isAllowed (c : Char) : Bool :=
  c = '\t' || c = '\n' || c = '\r' || c = '\u0085' || (' ' ≤ c && c ≤ '~') ||
    ('\u00A0' ≤ c && c ≠ '\uFFFE' && c ≠ '\uFFFF')

def isBreak (c : Char) : Bool :=
  c = '\n' || c = '\r' || c = '\u0085' || c = '\u2028' || c = '\u2029'

def isGap (c : Char) : Bool :=
  c = ' ' || c = '\t'

def isGapOrBreak (c : Char) : Bool :=
  isGap c || isBreak c

/-- The characters of anchors, handles and directive names. -/
def isNameChar (c : Char) : Bool :=
  c.isAlphanum || c = '_' || c = '-'

def isFlowIndicator (c : Char) : Bool :=
  c = ',' || c = '[' || c = ']' || c = '\x7b' || c = '\x7d'

/-- The line break as it counts in a scalar: only the Unicode separators are kept as they are. -/
def breakChar (c : Char) : Char :=
  if c = '\u2028' || c = '\u2029' then c else '\n'

/-- The line breaks among the characters, a return and a line feed being one. -/
def breaks : Text → List Char
  | [] => []
  | '\r' :: '\n' :: t => '\n' :: breaks t
  | c :: t => if isBreak c then breakChar c :: breaks t else breaks t

/-- Whether a word ends here: at a gap, a line break or the end of the text. -/
def atWordEnd : Text → Bool
  | [] => true
  | c :: _ => isGapOrBreak c

/-- Whether a line ends here. -/
def atLineEnd : Text → Bool
  | [] => true
  | c :: _ => isBreak c

structure Cursor where
  rest : Text
  index : Nat := 0
  line : Nat := 0
  column : Nat := 0
  deriving DecidableEq, Repr

namespace Cursor

/-- Goes over one character, or over a return with its line feed. -/
def next (p : Cursor) : Cursor :=
  match p.rest with
  | [] => p
  | '\r' :: '\n' :: t => { rest := t, index := p.index + 2, line := p.line + 1 }
  | c :: t =>
    if isBreak c then { rest := t, index := p.index + 1, line := p.line + 1 }
    else { p with rest := t, index := p.index + 1, column := p.column + 1 }

/-- Goes over the given text, which stands here. -/
def past : Text → Cursor → Cursor
  | [], p => p
  | '\r' :: '\n' :: t, p => past t p.next
  | _ :: t, p => past t p.next

/-- Goes over so many characters. -/
def skip (n : Nat) (p : Cursor) : Cursor :=
  past (p.rest.take n) p

def skipWhile (q : Char → Bool) (p : Cursor) : Cursor :=
  past (p.rest.takeWhile q) p

/-- Goes over the line break, if there is one. -/
def skipBreak (p : Cursor) : Cursor :=
  if atLineEnd p.rest then p.next else p

/-- The line break here, as it counts in a scalar. -/
def breakHere (p : Cursor) : Text :=
  match p.rest with
  | [] => []
  | c :: _ => if isBreak c then [breakChar c] else []

/-- Whether the line here is a document marker. -/
def atMarker (p : Cursor) : Bool :=
  p.column = 0 &&
    (match p.rest with
    | '-' :: '-' :: '-' :: t => atWordEnd t
    | '.' :: '.' :: '.' :: t => atWordEnd t
    | _ => false)

end Cursor

end SettingsScan.Yaml
