import SettingsScan.Json.Reader

/-! # The grammar of JSON

A value is written in many ways: with blanks between the tokens, characters as they are or
escaped, fields that are replaced by later ones. Nothing here reads bytes; the texts of a value
are built up from its parts.
-/

namespace SettingsScan.Json

def Blank (bytes : Bytes) : Prop := ∀ b ∈ bytes, isBlankByte b

/-! ### Numerals -/

def Digits (bytes : Bytes) : Prop := bytes ≠ [] ∧ ∀ b ∈ bytes, isDigitByte b

structure Exponent where
  letter : UInt8
  /-- The sign, if there is one. -/
  lowers? : Option Bool := none
  digits : Bytes
  deriving DecidableEq, Repr

namespace Exponent

structure WellFormed (e : Exponent) : Prop where
  letter : e.letter = 0x65 ∨ e.letter = 0x45
  digits : Digits e.digits

def sign (e : Exponent) : Bytes :=
  match e.lowers? with
  | none => []
  | some false => [0x2B]
  | some true => [0x2D]

def bytes (e : Exponent) : Bytes := e.letter :: (e.sign ++ e.digits)

def raises (e : Exponent) : Bool := e.lowers? ≠ some true

/-- The number with the exponent. One that is too large for 32 bits gives zero or no number. -/
def number (e : Exponent) (positive : Bool) (significand : Nat) (scale : Int) : Reading Number :=
  let (shift, _, extra) := takeDigits exponentLimit 0 0 e.digits
  if extra ≠ [] then
    if significand ≠ 0 ∧ e.raises then .error .numberOutOfRange
    else .ok (.float (if positive then 0.0 else -0.0 : Float).toBits)
  else floatOfParts positive significand (if e.raises then scale + shift else scale - shift)

end Exponent

structure Numeral where
  negative : Bool := false
  whole : Bytes
  fraction : Option Bytes := none
  exponent : Option Exponent := none
  deriving DecidableEq, Repr

namespace Numeral

/-- There are no further digits behind a leading zero. -/
structure WellFormed (x : Numeral) : Prop where
  whole : Digits x.whole
  leading : x.whole.head? = some 0x30 → x.whole = [0x30]
  fraction : ∀ ds ∈ x.fraction, Digits ds
  exponent : ∀ e ∈ x.exponent, e.WellFormed

def fractionBytes (x : Numeral) : Bytes :=
  match x.fraction with
  | none => []
  | some ds => 0x2E :: ds

def exponentBytes (x : Numeral) : Bytes :=
  match x.exponent with
  | none => []
  | some e => e.bytes

def magnitude (x : Numeral) : Bytes := x.whole ++ x.fractionBytes ++ x.exponentBytes

def bytes (x : Numeral) : Bytes := if x.negative then 0x2D :: x.magnitude else x.magnitude

/-- The number that is written: a whole one that fits is kept, all else is a float made from the
digits that fit. -/
def number (x : Numeral) : Reading Number :=
  let positive := !x.negative
  let (n, _, extra) := takeDigits naturalLimit 0 0 x.whole
  let (significand, count, _) := takeDigits naturalLimit n 0 (x.fraction.getD [])
  match x.exponent with
  | some e => e.number positive significand ((extra.length : Int) - count)
  | none =>
    if x.fraction = none ∧ extra = [] then .ok (wholeNumber positive n)
    else floatOfParts positive significand ((extra.length : Int) - count)

end Numeral

/-! ### Strings -/

def shortEscapes : List (Char × UInt8) :=
  [('"', 0x22), ('\\', 0x5C), ('/', 0x2F), ('\x08', 0x62), ('\x0C', 0x66), ('\n', 0x6E),
   ('\r', 0x72), ('\t', 0x74)]

inductive WritesUnit : Nat → Bytes → Prop
  | digits {a b c d : UInt8} {i j k l : Nat} : hexByteValue? a = some i →
      hexByteValue? b = some j → hexByteValue? c = some k → hexByteValue? d = some l →
      WritesUnit (((i * 16 + j) * 16 + k) * 16 + l) [a, b, c, d]

/-- The ways to write a character in a string. Half a surrogate pair writes none. -/
inductive WritesChar : Char → Bytes → Prop
  | plain {c : Char} : c ≠ '"' → c ≠ '\\' → 0x20 ≤ c.toNat →
      WritesChar c (String.utf8EncodeChar c)
  | short {c : Char} {letter : UInt8} : (c, letter) ∈ shortEscapes → WritesChar c [0x5C, letter]
  | unit {c : Char} {digits : Bytes} : WritesUnit c.toNat digits →
      WritesChar c (0x5C :: 0x75 :: digits)
  | pair {c : Char} {high low : Nat} {digits more : Bytes} : WritesUnit high digits →
      WritesUnit low more → Encoding.isHighSurrogate high → Encoding.isLowSurrogate low →
      c.toNat = 0x10000 + (high - 0xD800) * 0x400 + (low - 0xDC00) →
      WritesChar c (0x5C :: 0x75 :: (digits ++ 0x5C :: 0x75 :: more))

inductive WritesText : Text → Bytes → Prop
  | nil : WritesText [] []
  | cons {c : Char} {t : Text} {bytes more : Bytes} : WritesChar c bytes → WritesText t more →
      WritesText (c :: t) (bytes ++ more)

/-! ### Values -/

structure Spaced (α : Type) where
  before : Bytes := []
  item : α
  text : Bytes
  after : Bytes := []

namespace Spaced

variable {α : Type}

def bytes (s : Spaced α) : Bytes := s.before ++ (s.text ++ s.after)

/-- Only blanks around the part, which is written by its text. -/
structure Fits (part : α → Bytes → Prop) (s : Spaced α) : Prop where
  before : Blank s.before
  text : part s.item s.text
  after : Blank s.after

end Spaced

variable {α : Type}

def furtherText (parts : List (Spaced α)) : Bytes :=
  parts.flatMap fun s => 0x2C :: s.bytes

def listText (gap : Bytes) : List (Spaced α) → Bytes
  | [] => gap
  | s :: more => s.bytes ++ furtherText more

inductive WritesField (inner : Value → Bytes → Prop) : Text × Value → Bytes → Prop
  | mk {name : Text} {v : Value} {key gap gap' bytes : Bytes} : WritesText name key →
      Blank gap → Blank gap' → inner v bytes →
      WritesField inner (name, v) (0x22 :: (key ++ 0x22 :: (gap ++ 0x3A :: (gap' ++ bytes))))

/-- The object with the fields, later ones in the place of earlier ones with the same name. -/
def objectOf (fields : List (Text × Value)) : Value :=
  .object (fields.foldl (fun held f => putField held f.1 f.2) [])

/-- Values without nesting. A numeral out of the range of floats writes no value. -/
inductive WritesScalar : Value → Bytes → Prop
  | null : WritesScalar .null [0x6E, 0x75, 0x6C, 0x6C]
  | true : WritesScalar (.bool true) [0x74, 0x72, 0x75, 0x65]
  | false : WritesScalar (.bool false) [0x66, 0x61, 0x6C, 0x73, 0x65]
  | number {x : Numeral} {n : Number} : x.WellFormed → x.number = .ok n →
      WritesScalar (.number n) x.bytes
  | string {t : Text} {bytes : Bytes} : WritesText t bytes →
      WritesScalar (.string t) (0x22 :: (bytes ++ [0x22]))

inductive WritesNested (inner : Value → Bytes → Prop) : Value → Bytes → Prop
  | scalar {v : Value} {bytes : Bytes} : WritesScalar v bytes → WritesNested inner v bytes
  | array {gap : Bytes} {items : List (Spaced Value)} : Blank gap →
      (∀ s ∈ items, s.Fits inner) →
      WritesNested inner (.array (items.map (·.item))) (0x5B :: (listText gap items ++ [0x5D]))
  | object {gap : Bytes} {fields : List (Spaced (Text × Value))} : Blank gap →
      (∀ s ∈ fields, s.Fits (WritesField inner)) →
      WritesNested inner (objectOf (fields.map (·.item)))
        (0x7B :: (listText gap fields ++ [0x7D]))

/-- The text writes the value, with so many levels of nesting at most. -/
def Writes : Nat → Value → Bytes → Prop
  | 0 => WritesScalar
  | n + 1 => WritesNested (Writes n)

/-- Whether the text of a value shows its own end. -/
def Value.isDelimited : Value → Bool
  | .string _ => true
  | .array _ => true
  | .object _ => true
  | _ => false

end SettingsScan.Json
