import SettingsScan.Json.Number

/-! # Reading JSON values

A value is read from the front of the bytes and the rest is given back. Objects and arrays may be
nested less than 128 deep.
-/

namespace SettingsScan.Json

/-- The blank bytes between the tokens of a value. -/
def isBlankByte (b : UInt8) : Bool :=
  b = 0x20 || b = 0x0A || b = 0x09 || b = 0x0D

def skipBlanks (bytes : Bytes) : Bytes :=
  bytes.dropWhile isBlankByte

/-- Reads the remaining letters of `null`, `true` or `false`. -/
def readLetters (letters : Bytes) (v : Value) (bytes : Bytes) : Reading (Value × Bytes) :=
  match letters, bytes with
  | [], bytes => .ok (v, bytes)
  | _ :: _, [] => .error .ended
  | a :: letters, b :: bytes =>
    if a = b then readLetters letters v bytes else .error .invalidLiteral

def hexByteValue? (b : UInt8) : Option Nat :=
  if isDigitByte b then some (digitValue b)
  else if 0x61 ≤ b ∧ b ≤ 0x66 then some (b.toNat - 0x61 + 10)
  else if 0x41 ≤ b ∧ b ≤ 0x46 then some (b.toNat - 0x41 + 10)
  else none

/-- Four hexadecimal digits as a unit of UTF-16. -/
def readUnit (bytes : Bytes) : Reading (Nat × Bytes) :=
  match bytes with
  | a :: b :: c :: d :: rest =>
    match hexByteValue? a, hexByteValue? b, hexByteValue? c, hexByteValue? d with
    | some a, some b, some c, some d => .ok (((a * 16 + b) * 16 + c) * 16 + d, rest)
    | _, _, _, _ => .error .invalidString
  | _ => .error .ended

/-- The character of an escape with four digits, or of a surrogate pair of two such escapes. -/
def readUnicode (bytes : Bytes) : Reading (Char × Bytes) :=
  match readUnit bytes with
  | .error e => .error e
  | .ok (u, rest) =>
    if Encoding.isLowSurrogate u then .error .invalidString
    else if Encoding.isHighSurrogate u then
      match rest with
      | [] => .error .ended
      | [b] => if b = 0x5C then .error .ended else .error .invalidString
      | a :: b :: rest =>
        if a = 0x5C ∧ b = 0x75 then
          match readUnit rest with
          | .error e => .error e
          | .ok (v, rest) =>
            if Encoding.isLowSurrogate v then .ok (Encoding.ofSurrogates u v, rest)
            else .error .invalidString
        else .error .invalidString
    else .ok (Char.ofNat u, rest)

/-- What follows a backslash. -/
def readEscape (bytes : Bytes) : Reading (Char × Bytes) :=
  match bytes with
  | [] => .error .ended
  | b :: rest =>
    if b = 0x22 then .ok ('"', rest)
    else if b = 0x5C then .ok ('\\', rest)
    else if b = 0x2F then .ok ('/', rest)
    else if b = 0x62 then .ok ('\x08', rest)
    else if b = 0x66 then .ok ('\x0C', rest)
    else if b = 0x6E then .ok ('\n', rest)
    else if b = 0x72 then .ok ('\r', rest)
    else if b = 0x74 then .ok ('\t', rest)
    else if b = 0x75 then readUnicode rest
    else .error .invalidString

/-- The bytes of a string up to the closing quote, escapes replaced; the fuel is more than
the number of bytes. -/
def readStringBytes : Nat → Bytes → Reading (Bytes × Bytes)
  | 0, _ => .error .ended
  | _ + 1, [] => .error .ended
  | n + 1, b :: rest =>
    if b = 0x22 then .ok ([], rest)
    else if b = 0x5C then
      match readEscape rest with
      | .error e => .error e
      | .ok (c, rest) =>
        match readStringBytes n rest with
        | .error e => .error e
        | .ok (more, rest) => .ok (String.utf8EncodeChar c ++ more, rest)
    else if b < 0x20 then .error .invalidString
    else
      match readStringBytes n rest with
      | .error e => .error e
      | .ok (more, rest) => .ok (b :: more, rest)

/-- A string behind its opening quote. -/
def readString (fuel : Nat) (bytes : Bytes) : Reading (Text × Bytes) :=
  match readStringBytes fuel bytes with
  | .error e => .error e
  | .ok (content, rest) =>
    match Encoding.ofUtf8? content with
    | some t => .ok (t, rest)
    | none => .error .invalidString

/-- A key and the colon behind it. -/
def readKey (fuel : Nat) (bytes : Bytes) : Reading (Text × Bytes) :=
  match readString fuel bytes with
  | .error e => .error e
  | .ok (name, rest) =>
    match skipBlanks rest with
    | [] => .error .ended
    | 0x3A :: rest => .ok (name, rest)
    | _ => .error .expectedColon

mutual

/-- A value, blanks in front of it allowed, with so many levels left for nesting; the fuel bounds
the number of calls. -/
def readValue : Nat → Nat → Bytes → Reading (Value × Bytes)
  | 0, _, _ => .error .ended
  | fuel + 1, levels, bytes =>
    match skipBlanks bytes with
    | [] => .error .ended
    | b :: rest =>
      if b = 0x6E then readLetters [0x75, 0x6C, 0x6C] .null rest
      else if b = 0x74 then readLetters [0x72, 0x75, 0x65] (.bool true) rest
      else if b = 0x66 then readLetters [0x61, 0x6C, 0x73, 0x65] (.bool false) rest
      else if b = 0x2D then (readNumber false rest).map fun (n, rest) => (.number n, rest)
      else if isDigitByte b then
        (readNumber true (b :: rest)).map fun (n, rest) => (.number n, rest)
      else if b = 0x22 then (readString fuel rest).map fun (t, rest) => (.string t, rest)
      else if b = 0x5B then
        if levels ≤ 1 then .error .nestedTooDeep
        else readItems fuel (levels - 1) true [] rest
      else if b = 0x7B then
        if levels ≤ 1 then .error .nestedTooDeep
        else readFields fuel (levels - 1) true [] rest
      else .error .expectedValue

/-- The items of an array up to the closing bracket, the latest first. -/
def readItems : Nat → Nat → Bool → List Value → Bytes → Reading (Value × Bytes)
  | 0, _, _, _, _ => .error .ended
  | fuel + 1, levels, first, items, bytes =>
    match skipBlanks bytes with
    | [] => .error .ended
    | b :: rest =>
      if b = 0x5D then .ok (.array items.reverse, rest)
      else if first then
        match readValue fuel levels (b :: rest) with
        | .error e => .error e
        | .ok (v, rest) => readItems fuel levels false (v :: items) rest
      else if b = 0x2C then
        if (skipBlanks rest).head? = some 0x5D then .error .trailingComma
        else
          match readValue fuel levels rest with
          | .error e => .error e
          | .ok (v, rest) => readItems fuel levels false (v :: items) rest
      else .error .expectedDelimiter

/-- The fields of an object up to the closing brace. -/
def readFields : Nat → Nat → Bool → List (Text × Value) → Bytes → Reading (Value × Bytes)
  | 0, _, _, _, _ => .error .ended
  | fuel + 1, levels, first, fields, bytes =>
    match skipBlanks bytes with
    | [] => .error .ended
    | b :: rest =>
      if b = 0x7D then .ok (.object fields, rest)
      else
        let key : Reading Bytes :=
          if first then .ok (b :: rest)
          else if b = 0x2C then .ok (skipBlanks rest)
          else .error .expectedDelimiter
        match key with
        | .error e => .error e
        | .ok [] => .error .ended
        | .ok (b :: rest) =>
          if b ≠ 0x22 then .error (if b = 0x7D then .trailingComma else .invalidKey)
          else
            match readKey fuel rest with
            | .error e => .error e
            | .ok (name, rest) =>
              match readValue fuel levels rest with
              | .error e => .error e
              | .ok (v, rest) => readFields fuel levels false (putField fields name v) rest

end

def nestingLimit : Nat := 128

/-- The value at the front of the bytes, and the bytes behind it. -/
def Value.ofBytes? (bytes : Bytes) : Reading (Value × Bytes) :=
  readValue (2 * bytes.length + 2) nestingLimit bytes

/-- The value that a whole text is. -/
def Value.ofWhole? (bytes : Bytes) : Reading Value :=
  match Value.ofBytes? bytes with
  | .error e => .error e
  | .ok (v, rest) => if (skipBlanks rest).isEmpty then .ok v else .error .trailingBytes

end SettingsScan.Json
