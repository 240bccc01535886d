import SettingsScan.Invocation.Entry
import SettingsScan.Invocation.Processor
import SettingsScan.Json.Stream

/-! # Scanning a compilation database

The database is an array of entries. A malformed entry is reported and skipped; only a broken
array ends the scan.
-/

namespace SettingsScan.Database

open Json (Value)

/-- What a scan has come to. -/
structure Progress where
  state : ProcessorState := {}
  yield : Yield := {}
  deriving DecidableEq, Repr

def location (index : Nat) : Text :=
  "entry ".toList ++ Decimal.digits (index + 1)

def diagnosticAt (index : Nat) (message : Text) : Yield :=
  { deposits := [.diagnostic { location := location index, message }] }

def noDetectorMessage (line : Text) : Text :=
  "No compiler detected: ".toList ++ line

/-- Handles the entry with the given index. -/
def scanEntry (p : Processor) (index : Nat) (state : ProcessorState) (entry : Value) :
    Yield × ProcessorState :=
  let s := state.statistics
  let s := { s with linesRead := s.linesRead + 1 }
  match Entry.toInvocation entry with
  | .ok invocation =>
    let (outcome, yield, state) := p.process { state with statistics := s } invocation
    (if outcome = .noDetector then
        yield ++ diagnosticAt index (noDetectorMessage invocation.line)
      else yield,
      state)
  | .error e =>
    (diagnosticAt index e.message,
      { state with statistics := { s with malformedEntries := s.malformedEntries + 1 } })

/-- Handles the answers of the reader from the given index on, up to the first failure. -/
def scanFrom (p : Processor) (index : Nat) (progress : Progress) :
    List (Except Json.StreamError Value) → Progress × Option Json.StreamError
  | [] => (progress, none)
  | .error e :: _ => (progress, some e)
  | .ok entry :: more =>
    let (yield, state) := scanEntry p index progress.state entry
    scanFrom p (index + 1) { state, yield := progress.yield ++ yield } more

/-- Scans the bytes of a database. -/
def scan (p : Processor) (state : ProcessorState) (bytes : Bytes) :
    Progress × Option Json.StreamError :=
  scanFrom p 0 { state } (Json.Stream.elements bytes)

/-- The message for a broken array, where it does not come from inside an element. -/
def errorMessage? : Json.StreamError → Option Text
  | .expectedArray => some "Invalid compilation database: expected \x60[\x60".toList
  | .expectedDelimiter =>
    some "Invalid compilation database: expected \x60,\x60 or \x60]\x60".toList
  | .missingElement => some "Invalid compilation database: premature EOF".toList
  | _ => none

end SettingsScan.Database
