import SettingsScan.Json.Reader

/-! # Reading the elements of an array one by one

The elements are read one at a time, so a bad one can be reported on its own. Reading a number,
`true`, `false` or `null` takes the byte behind it too. The first failure ends the reading.
-/

namespace SettingsScan.Json

/-- How the reading of an array fails. -/
inductive StreamError where
  /-- The bytes end between the elements. -/
  | truncated
  /-- An element is no value. -/
  | element (cause : ReadError)
  /-- The bytes end where an element should begin. -/
  | missingElement
  | expectedArray
  | expectedDelimiter
  deriving DecidableEq, Repr

inductive StreamState where
  | atStart
  | inside
  | finished
  | failed
  deriving DecidableEq, Repr

/-- The blank bytes between the elements; form feeds are among them. -/
def isGapByte (b : UInt8) : Bool :=
  isBlankByte b || b = 0x0C

/-- Whether a value shows its own end. -/
def isDelimited (first : UInt8) : Bool :=
  first = 0x5B || first = 0x7B || first = 0x22

/-- What may follow a value that does not show its end. -/
def endsValue (b : UInt8) : Bool :=
  isBlankByte b || [0x22, 0x5B, 0x5D, 0x7B, 0x7D, 0x2C, 0x3A].contains b

def readElement (bytes : Bytes) : Except StreamError (Value × Bytes) :=
  match skipBlanks bytes with
  | [] => .error .missingElement
  | b :: rest =>
    match Value.ofBytes? (b :: rest) with
    | .error e => .error (.element e)
    | .ok (v, rest) =>
      if isDelimited b then .ok (v, rest)
      else
        match rest with
        | [] => .ok (v, [])
        | next :: rest =>
          if endsValue next then .ok (v, rest) else .error (.element .trailingBytes)

/-- An array under reading. -/
structure Stream where
  state : StreamState := .atStart
  bytes : Bytes
  deriving DecidableEq, Repr

namespace Stream

def fail (e : StreamError) (bytes : Bytes) : Option (Except StreamError Value) × Stream :=
  (some (.error e), { state := .failed, bytes })

/-- The element at the front of the bytes, as the next answer. -/
def element (bytes : Bytes) : Option (Except StreamError Value) × Stream :=
  match readElement bytes with
  | .ok (v, rest) => (some (.ok v), { state := .inside, bytes := rest })
  | .error e => fail e bytes

/-- The next element or failure, or nothing at the end, and the stream behind it. -/
def next (s : Stream) : Option (Except StreamError Value) × Stream :=
  match s.state with
  | .atStart =>
    match s.bytes.dropWhile isGapByte with
    | [] => fail .truncated []
    | 0x5B :: rest =>
      match rest.dropWhile isGapByte with
      | [] => fail .truncated []
      | 0x5D :: rest => (none, { state := .finished, bytes := rest })
      | rest => element rest
    | rest => fail .expectedArray rest
  | .inside =>
    match s.bytes.dropWhile isGapByte with
    | [] => fail .truncated []
    | 0x2C :: rest => element rest
    | 0x5D :: rest => (none, { state := .finished, bytes := rest })
    | rest => fail .expectedDelimiter rest
  | .finished => (none, s)
  | .failed => (none, s)

/-- All answers; the fuel is more than the number of bytes. -/
def answers : Nat → Stream → List (Except StreamError Value)
  | 0, _ => []
  | fuel + 1, s =>
    match s.next with
    | (some answer, s) => answer :: answers fuel s
    | (none, _) => []

def ofBytes (bytes : Bytes) : Stream := { bytes }

/-- The answers for the bytes of an array: its elements, and possibly a failure behind them. -/
def elements (bytes : Bytes) : List (Except StreamError Value) :=
  answers (bytes.length + 2) (ofBytes bytes)

end Stream

end SettingsScan.Json
