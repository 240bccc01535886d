import SettingsScan.Json.Value
import SettingsScan.Decimal.Shortest

/-! # Printing JSON

Values are printed over several lines, two spaces for each level, or on one line. Only quotes,
backslashes and control characters are escaped.
-/

namespace SettingsScan.Json

def hexDigit (n : Nat) : Char :=
  if n < 10 then Char.ofNat ('0'.toNat + n) else Char.ofNat ('a'.toNat + n - 10)

def escapeChar (c : Char) : Text :=
  if c = '"' then ['\\', '"']
  else if c = '\\' then ['\\', '\\']
  else if c = '\n' then ['\\', 'n']
  else if c = '\r' then ['\\', 'r']
  else if c = '\t' then ['\\', 't']
  else if c.toNat = 8 then ['\\', 'b']
  else if c.toNat = 12 then ['\\', 'f']
  else if c.toNat < 32 then
    ['\\', 'u', '0', '0', hexDigit (c.toNat / 16), hexDigit (c.toNat % 16)]
  else [c]

def quote (t : Text) : Text :=
  '"' :: t.flatMap escapeChar ++ ['"']

/-- The places at which floats are written without an exponent. -/
structure FloatFormat where
  leastPositional : Int
  mostPositional : Int

/-- Floats from 0.00001 up to 16 digits before the point are positional. -/
def floatFormat : FloatFormat := { leastPositional := -5, mostPositional := 15 }

def intText (n : Int) : Text :=
  if n < 0 then '-' :: Decimal.digits n.natAbs else '+' :: Decimal.digits n.natAbs

/-- A positive decimal: positional, with at least one digit behind the point, or as one digit, a
point and the others, with an exponent. -/
def scaledText (format : FloatFormat) (s : Decimal.Scaled) : Text :=
  let ds := Decimal.digits s.coefficient
  let lead := s.exponent + ds.length - 1
  if format.leastPositional ≤ lead ∧ lead ≤ format.mostPositional then
    if lead < 0 then "0.".toList ++ List.replicate ((-lead).toNat - 1) '0' ++ ds
    else
      let whole := lead.toNat + 1
      if ds.length ≤ whole then ds ++ List.replicate (whole - ds.length) '0' ++ ".0".toList
      else ds.take whole ++ '.' :: ds.drop whole
  else
    let mantissa := match ds with
      | d :: [] => [d]
      | d :: more => d :: '.' :: more
      | [] => ['0']
    mantissa ++ 'e' :: intText lead

/-- The shortest text that reads back as the finite float with the bits. -/
def floatText (bits : UInt64) : Text :=
  let n := bits.toNat
  let exponent := n / Nat.pow 2 52 % Nat.pow 2 11
  let fraction := n % Nat.pow 2 52
  let sign := if n / Nat.pow 2 63 = 1 then ['-'] else []
  if exponent = 0 ∧ fraction = 0 then sign ++ "0.0".toList
  else sign ++ scaledText floatFormat (Decimal.ofBits exponent fraction)

def Number.text : Number → Text
  | natural n => Decimal.digits n
  | negative n => '-' :: Decimal.digits n
  | float bits => floatText bits

/-- A line break and the indentation of a level. -/
def newline (level : Nat) : Text :=
  '\n' :: List.replicate (2 * level) ' '

/-- The layout of a list of parts between brackets. -/
def bracketed (opening closing : Char) (level : Nat) : List Text → Text
  | [] => [opening, closing]
  | parts =>
    opening :: newline (level + 1) ++ Text.joinWith (',' :: newline (level + 1)) parts ++
      newline level ++ [closing]

mutual

def Value.prettyAt (level : Nat) : Value → Text
  | .null => "null"
  | .bool true => "true"
  | .bool false => "false"
  | .number n => n.text
  | .string t => quote t
  | .array items => bracketed '[' ']' level (prettyItems (level + 1) items)
  | .object fields => bracketed '\x7b' '\x7d' level (prettyFields (level + 1) fields)

def prettyItems (level : Nat) : List Value → List Text
  | [] => []
  | v :: more => v.prettyAt level :: prettyItems level more

def prettyFields (level : Nat) : List (Text × Value) → List Text
  | [] => []
  | (name, v) :: more => (quote name ++ ": ".toList ++ v.prettyAt level) :: prettyFields level more

end

/-- The value over several lines. -/
def Value.pretty (v : Value) : Text :=
  v.prettyAt 0

mutual

/-- The value on one line, without blanks. -/
def Value.compact : Value → Text
  | .null => "null"
  | .bool true => "true"
  | .bool false => "false"
  | .number n => n.text
  | .string t => quote t
  | .array items => '[' :: Text.joinWith [','] (compactItems items) ++ [']']
  | .object fields => '\x7b' :: Text.joinWith [','] (compactFields fields) ++ ['\x7d']

def compactItems : List Value → List Text
  | [] => []
  | v :: more => v.compact :: compactItems more

def compactFields : List (Text × Value) → List Text
  | [] => []
  | (name, v) :: more => (quote name ++ ':' :: v.compact) :: compactFields more

end

end SettingsScan.Json
