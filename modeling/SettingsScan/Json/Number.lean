import SettingsScan.Text.Encoding
import SettingsScan.Json.Value

/-! # Reading JSON numbers

Whole numbers of 64 bits are kept. Every other number becomes a float: as many digits as fit into
64 bits, scaled by a power of ten in floating point arithmetic.
-/

namespace SettingsScan.Json

/-- Why a text is not a JSON value. -/
inductive ReadError where
  /-- The text ends inside a value. -/
  | ended
  | invalidNumber
  | numberOutOfRange
  | expectedValue
  | invalidLiteral
  | invalidString
  | invalidKey
  | expectedColon
  | expectedDelimiter
  | trailingComma
  | trailingBytes
  | nestedTooDeep
  deriving DecidableEq, Repr

abbrev Reading := Except ReadError

def isDigitByte (b : UInt8) : Bool :=
  0x30 ≤ b && b ≤ 0x39

def digitValue (b : UInt8) : Nat :=
  b.toNat - 0x30

def naturalLimit : Nat := Nat.pow 2 64 - 1

def exponentLimit : Nat := Nat.pow 2 31 - 1

/-- Takes digits as long as the number stays within the limit, and counts them. -/
def takeDigits (limit : Nat) (value count : Nat) : Bytes → Nat × Nat × Bytes
  | [] => (value, count, [])
  | b :: rest =>
    if isDigitByte b ∧ value * 10 + digitValue b ≤ limit then
      takeDigits limit (value * 10 + digitValue b) (count + 1) rest
    else (value, count, b :: rest)

/-- Counts the digits at the front. -/
def skipDigits (bytes : Bytes) : Nat × Bytes :=
  ((bytes.takeWhile isDigitByte).length, bytes.dropWhile isDigitByte)

/-- The float scaled by a power of ten, in steps of at most 308; the fuel bounds the steps. -/
def scale : Nat → Float → Int → Option Float
  | 0, f, _ => some f
  | n + 1, f, exponent =>
    if exponent.natAbs ≤ 308 then
      let power := Float.ofScientific 1 false exponent.natAbs
      if 0 ≤ exponent then
        let scaled := f * power
        if scaled.isInf then none else some scaled
      else some (f / power)
    else if f == 0.0 then some f
    else if 0 ≤ exponent then none
    else scale n (f / 1e308) (exponent + 308)

def floatOfParts (positive : Bool) (significand : Nat) (exponent : Int) : Reading Number :=
  match scale 4 significand.toUInt64.toFloat exponent with
  | some f => .ok (.float (if positive then f else -f).toBits)
  | none => .error .numberOutOfRange

/-- Reads the exponent behind its letter. -/
def readExponent (positive : Bool) (significand : Nat) (exponent : Int) (bytes : Bytes) :
    Reading (Number × Bytes) :=
  let (raises, bytes) := match bytes with
    | 0x2B :: rest => (true, rest)
    | 0x2D :: rest => (false, rest)
    | bytes => (true, bytes)
  match bytes with
  | [] => .error .ended
  | b :: _ =>
    if !isDigitByte b then .error .invalidNumber
    else
      let (shift, _, rest) := takeDigits exponentLimit 0 0 bytes
      if rest.head?.any isDigitByte then
        if significand ≠ 0 ∧ raises then .error .numberOutOfRange
        else .ok (.float (if positive then 0.0 else -0.0 : Float).toBits, (skipDigits rest).2)
      else
        let exponent := if raises then exponent + shift else exponent - shift
        (floatOfParts positive significand exponent).map (·, rest)

/-- Reads what follows the digits of a float. -/
def readFloatEnd (positive : Bool) (significand : Nat) (exponent : Int) (bytes : Bytes) :
    Reading (Number × Bytes) :=
  match bytes with
  | 0x65 :: rest => readExponent positive significand exponent rest
  | 0x45 :: rest => readExponent positive significand exponent rest
  | bytes => (floatOfParts positive significand exponent).map (·, bytes)

/-- Reads the digits behind the point. Those that do not fit are ignored. -/
def readFraction (positive : Bool) (significand : Nat) (exponent : Int) (bytes : Bytes) :
    Reading (Number × Bytes) :=
  let (significand, count, rest) := takeDigits naturalLimit significand 0 bytes
  let exponent := exponent - count
  if rest.head?.any isDigitByte then
    readFloatEnd positive significand exponent (skipDigits rest).2
  else if count = 0 then
    if rest.isEmpty then .error .ended else .error .invalidNumber
  else readFloatEnd positive significand exponent rest

/-- The whole number, as far as it fits. -/
def wholeNumber (positive : Bool) (n : Nat) : Number :=
  if positive then .natural n
  else if n = 0 ∨ Nat.pow 2 63 < n then .float (-n.toUInt64.toFloat).toBits
  else .negative n

/-- Reads what follows the digits before the point. -/
def readNumberEnd (positive : Bool) (n : Nat) (bytes : Bytes) : Reading (Number × Bytes) :=
  match bytes with
  | 0x2E :: rest => readFraction positive n 0 rest
  | 0x65 :: rest => readExponent positive n 0 rest
  | 0x45 :: rest => readExponent positive n 0 rest
  | bytes => .ok (wholeNumber positive n, bytes)

/-- Reads a number behind its sign. -/
def readNumber (positive : Bool) (bytes : Bytes) : Reading (Number × Bytes) :=
  match bytes with
  | [] => .error .ended
  | 0x30 :: rest =>
    if rest.head?.any isDigitByte then .error .invalidNumber else readNumberEnd positive 0 rest
  | b :: rest =>
    if !isDigitByte b then .error .invalidNumber
    else
      let (n, _, rest) := takeDigits naturalLimit 0 0 (b :: rest)
      if rest.head?.any isDigitByte then
        let (exponent, rest) := skipDigits rest
        match rest with
        | 0x2E :: rest => readFraction positive n exponent rest
        | rest => readFloatEnd positive n exponent rest
      else readNumberEnd positive n rest

end SettingsScan.Json
