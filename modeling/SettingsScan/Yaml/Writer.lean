import SettingsScan.Json.Printer
import SettingsScan.Yaml.Cursor

/-! # Writing YAML

Collections are written as blocks, lists without indentation of their own, and only empty ones in
brackets. Texts are plain where that can not be mistaken for something else.
-/

namespace SettingsScan.Yaml.Writer

open Json (Value)

/-- The words that some reader takes for something else than a text. -/
def ambiguousWords : List Text :=
  ["null", "~", "true", "false", "y", "yes", "n", "no", "on", "off"]

/-- Whether a text could be taken for a number or a word with a meaning. -/
def isAmbiguous (t : Text) : Bool :=
  match t with
  | [] => true
  | c :: _ =>
    c.isDigit || c = '-' || c = '.' || c = '+' || ambiguousWords.contains (t.map Char.toLower)

/-- Whether a character can be written as it is. -/
def isPrintable (c : Char) : Bool :=
  c = '\n' || (' ' ≤ c && c ≤ '~') ||
    ('\u00A0' ≤ c && c < '\uFFFE' && c ≠ '\uFEFF')

/-- Whether a plain scalar must not begin with the character, which the text follows. -/
def opensOtherwise (c : Char) (t : Text) : Bool :=
  "#,[]\x7b\x7d&*!|>'\"%@\x60".toList.contains c || ("?:-".toList.contains c && atWordEnd t)

/-- Whether a plain scalar would end inside the text, at a comment or a key's colon. -/
def endsWithin : Text → Bool
  | [] => false
  | c :: t => (c = ':' && atWordEnd t) || (isGapOrBreak c && t.head? = some '#') || endsWithin t

/-- Whether the text can be written plain on one line. -/
def allowsPlain (t : Text) : Bool :=
  match t with
  | [] => true
  | c :: more =>
    !opensOtherwise c more && !endsWithin t && t.all (fun c => isPrintable c && !isBreak c) &&
      c ≠ ' ' && t.getLast? ≠ some ' '

/-- Whether a space stands next to a line break. -/
def hasSpaceAtBreak : Text → Bool
  | a :: b :: t => (a = ' ' && isBreak b) || (isBreak a && b = ' ') || hasSpaceAtBreak (b :: t)
  | _ => false

/-- Whether a space stands right before a line break. -/
def hasSpaceBeforeBreak : Text → Bool
  | a :: b :: t => (a = ' ' && isBreak b) || hasSpaceBeforeBreak (b :: t)
  | _ => false

def allowsSingleQuotes (t : Text) : Bool :=
  t.all isPrintable && !hasSpaceAtBreak t

def allowsLiteral (t : Text) : Bool :=
  t.all isPrintable && !hasSpaceBeforeBreak t && t.getLast? ≠ some ' '

def singleQuoted (t : Text) : Text :=
  '\'' :: t.flatMap (fun c => if c = '\'' then ['\'', '\''] else [c]) ++ ['\'']

/-- The escapes of one letter. -/
def letterEscapes : List (Char × Char) :=
  [('\x00', '0'), ('\x07', 'a'), ('\x08', 'b'), ('\t', 't'), ('\n', 'n'), ('\x0B', 'v'),
   ('\x0C', 'f'), ('\r', 'r'), ('\x1B', 'e'), ('"', '"'), ('\\', '\\'), ('\u0085', 'N'),
   ('\u2028', 'L'), ('\u2029', 'P')]

/-- So many hexadecimal digits of a number, in capitals. -/
def hexText : Nat → Nat → Text
  | 0, _ => []
  | n + 1, code => hexText n (code / 16) ++ [(Json.hexDigit (code % 16)).toUpper]

def escapeChar (c : Char) : Text :=
  match letterEscapes.lookup c with
  | some letter => ['\\', letter]
  | none =>
    if c.toNat ≤ 0xFF then '\\' :: 'x' :: hexText 2 c.toNat
    else if c.toNat ≤ 0xFFFF then '\\' :: 'u' :: hexText 4 c.toNat
    else '\\' :: 'U' :: hexText 8 c.toNat

def doubleQuoted (t : Text) : Text :=
  '"' :: t.flatMap (fun c =>
    if isPrintable c && !isBreak c && c ≠ '"' && c ≠ '\\' then [c] else escapeChar c) ++ ['"']

/-- The header of a literal scalar. Its indentation is given if the first line does not show it,
and the line breaks at the end are kept if there is more than one, or nothing else. -/
def literalHeader (t : Text) : Text :=
  let indentation := if t.head?.any (fun c => c = ' ' || isBreak c) then ['2'] else []
  let chomping := match t.reverse with
    | c :: more =>
      if !isBreak c then ['-'] else if more.isEmpty || more.head?.any isBreak then ['+'] else []
    | [] => ['-']
  '|' :: indentation ++ chomping

/-- The lines of a text; a line feed at its end does not begin another line. -/
def textLines (t : Text) : List Text :=
  let lines := Text.pieces (· = '\n') t
  if lines.getLast? = some [] then lines.dropLast else lines

def indented (t : Text) : Text :=
  if t.isEmpty then [] else ' ' :: ' ' :: t

def quoted (t : Text) : Text :=
  if allowsSingleQuotes t then singleQuoted t else doubleQuoted t

/-- The lines of a text as a scalar, all but the first one indented. -/
def scalarLines (t : Text) : List Text :=
  if t.contains '\n' then
    if allowsLiteral t then literalHeader t :: (textLines t).map indented else [doubleQuoted t]
  else if isAmbiguous t || !allowsPlain t then [quoted t]
  else [t]

/-- Puts a text before the first line, and another one before the others that are not empty. -/
def hang (first others : Text) : List Text → List Text
  | [] => []
  | line :: more =>
    (first ++ line) :: more.map fun line => if line.isEmpty then [] else others ++ line

/-- A field with the lines of its value: collections begin on a line of their own. -/
def fieldOf (name : Text) (v : Value) (value : List Text) : List Text :=
  match v with
  | .array (_ :: _) => (name ++ [':']) :: value
  | .object (_ :: _) => (name ++ [':']) :: value.map indented
  | _ => hang (name ++ ": ".toList) [] value

mutual

def lines : Value → List Text
  | .null => ["null".toList]
  | .bool true => ["true".toList]
  | .bool false => ["false".toList]
  | .number n => [n.text]
  | .string t => scalarLines t
  | .array items => if items.isEmpty then ["[]".toList] else itemLines items
  | .object fields => if fields.isEmpty then ["\x7b\x7d".toList] else fieldLines fields

def itemLines : List Value → List Text
  | [] => []
  | item :: more => hang "- " "  " (lines item) ++ itemLines more

def fieldLines : List (Text × Value) → List Text
  | [] => []
  | (name, v) :: more => fieldOf name v (lines v) ++ fieldLines more

end

/-- The value as a text of lines. -/
def text (v : Value) : Text :=
  (lines v).flatMap (· ++ ['\n'])

end SettingsScan.Yaml.Writer
