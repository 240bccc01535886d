import SettingsScan.Text.Blank

/-! # Text from bytes

Reading UTF-8 and UTF-16 with replacement: the longest start of a character that can not be
completed gives one U+FFFD. A byte order mark at the front chooses the encoding.
-/

namespace SettingsScan

abbrev Bytes := List UInt8

namespace Encoding

def replacement : Char := '\uFFFD'

def utf8 (t : Text) : Bytes :=
  t.flatMap String.utf8EncodeChar

/-- A character of which bytes are still missing: their number, the bits read so far, and the
bounds of the next byte. -/
structure Unfinished where
  missing : Nat
  bits : Nat
  low : UInt8 := 0x80
  high : UInt8 := 0xBF
  deriving DecidableEq, Repr

/-- What a byte means where a character starts. -/
def leadByte (b : UInt8) : Char ⊕ Unfinished :=
  if b < 0x80 then .inl (Char.ofNat b.toNat)
  else if b < 0xC2 then .inl replacement
  else if b < 0xE0 then .inr { missing := 1, bits := b.toNat % 32 }
  else if b = 0xE0 then .inr { missing := 2, bits := 0, low := 0xA0 }
  else if b = 0xED then .inr { missing := 2, bits := 13, high := 0x9F }
  else if b < 0xF0 then .inr { missing := 2, bits := b.toNat % 16 }
  else if b = 0xF0 then .inr { missing := 3, bits := 0, low := 0x90 }
  else if b = 0xF4 then .inr { missing := 3, bits := 4, high := 0x8F }
  else if b < 0xF4 then .inr { missing := 3, bits := b.toNat % 8 }
  else .inl replacement

/-- Reads UTF-8, with the character under way. -/
def ofUtf8From : Option Unfinished → Bytes → Text
  | none, [] => []
  | some _, [] => [replacement]
  | none, b :: rest =>
    match leadByte b with
    | .inl c => c :: ofUtf8From none rest
    | .inr u => ofUtf8From (some u) rest
  | some u, b :: rest =>
    if u.low ≤ b ∧ b ≤ u.high then
      let bits := u.bits * 64 + b.toNat % 64
      if u.missing ≤ 1 then Char.ofNat bits :: ofUtf8From none rest
      else ofUtf8From (some { missing := u.missing - 1, bits }) rest
    else
      match leadByte b with
      | .inl c => replacement :: c :: ofUtf8From none rest
      | .inr u => replacement :: ofUtf8From (some u) rest

def ofUtf8 (bytes : Bytes) : Text :=
  ofUtf8From none bytes

/-- The text of well formed UTF-8 only. -/
def ofUtf8? (bytes : Bytes) : Option Text :=
  let t := ofUtf8 bytes
  if utf8 t = bytes then some t else none

def isHighSurrogate (unit : Nat) : Bool :=
  0xD800 ≤ unit && unit < 0xDC00

def isLowSurrogate (unit : Nat) : Bool :=
  0xDC00 ≤ unit && unit < 0xE000

/-- The character of a surrogate pair. -/
def ofSurrogates (high low : Nat) : Char :=
  Char.ofNat (0x10000 + (high - 0xD800) * 0x400 + (low - 0xDC00))

/-- Pairs of bytes as units, and whether a single byte is left over. -/
def units (join : UInt8 → UInt8 → Nat) : Bytes → List Nat × Bool
  | [] => ([], false)
  | [_] => ([], true)
  | a :: b :: rest =>
    let (us, odd) := units join rest
    (join a b :: us, odd)

/-- Reads UTF-16 units, with the high surrogate under way. -/
def ofUnitsFrom (odd : Bool) : Option Nat → List Nat → Text
  | none, [] => if odd then [replacement] else []
  | some _, [] => [replacement]
  | none, u :: rest =>
    if isHighSurrogate u then ofUnitsFrom odd (some u) rest
    else if isLowSurrogate u then replacement :: ofUnitsFrom odd none rest
    else Char.ofNat u :: ofUnitsFrom odd none rest
  | some h, u :: rest =>
    if isLowSurrogate u then ofSurrogates h u :: ofUnitsFrom odd none rest
    else if isHighSurrogate u then replacement :: ofUnitsFrom odd (some u) rest
    else replacement :: Char.ofNat u :: ofUnitsFrom odd none rest

def littleEndian (a b : UInt8) : Nat := a.toNat + 256 * b.toNat

def bigEndian (a b : UInt8) : Nat := 256 * a.toNat + b.toNat

def ofUtf16 (join : UInt8 → UInt8 → Nat) (bytes : Bytes) : Text :=
  let (us, odd) := units join bytes
  ofUnitsFrom odd none us

/-- Reads a text: a byte order mark decides the encoding and is dropped, otherwise it is UTF-8. -/
def decode : Bytes → Text
  | 0xEF :: 0xBB :: 0xBF :: rest => ofUtf8 rest
  | 0xFF :: 0xFE :: rest => ofUtf16 littleEndian rest
  | 0xFE :: 0xFF :: rest => ofUtf16 bigEndian rest
  | bytes => ofUtf8 bytes

end Encoding

end SettingsScan
