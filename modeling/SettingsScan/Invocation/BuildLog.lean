import SettingsScan.Invocation.Processor
import SettingsScan.Option.Spelling

/-! # Scanning a build log

Every line of the log is tried as a command. The working directory follows the messages of
recursive make about entering and leaving directories.
-/

namespace SettingsScan

open Pattern (CharSet Node)
open Pattern.Node

/-- The directories entered and not yet left, the innermost first; below them is the one where
the build was started. -/
structure DirectoryStack where
  start : Text
  entered : List Text := []
  deriving DecidableEq, Repr

namespace DirectoryStack

/-- The message `make[n]: Entering directory 'path'`; the second group is the path. -/
def message : Node :=
  let quotes (cs : List Char) : Node := one (CharSet.ofRanges (cs.map fun c => (c, c)))
  concat
    [many (one Spelling.notBlank), literal "make",
     opt (concat [char '[', some_ (one .digit), char ']']),
     literal ": ", group 1 (alt (literal "Entering") (literal "Leaving")),
     literal " directory ", quotes ['\x60', '\'', '"'], group 2 (many (one .notNewline)),
     quotes ['\'', '"'], Spelling.blanks, look .textEnd]

/-- What a line says about directories. -/
inductive Change where
  | entering (directory : Text)
  | leaving
  deriving DecidableEq, Repr

def change? (line : Text) : Option Change :=
  (message.match? line).bind fun place =>
    match place.group? line 1, place.group? line 2 with
    | some verb, some directory =>
      some (if verb = "Entering".toList then .entering directory else .leaving)
    | _, _ => none

def current (s : DirectoryStack) : Text :=
  s.entered.headD s.start

def apply (s : DirectoryStack) : Change → DirectoryStack
  | .entering directory => { s with entered := directory :: s.entered }
  | .leaving => { s with entered := s.entered.tail }

/-- Whether the line is a message about directories, and the stack behind it. -/
def observe (s : DirectoryStack) (line : Text) : Bool × DirectoryStack :=
  match change? line with
  | some change => (true, s.apply change)
  | none => (false, s)

end DirectoryStack

namespace BuildLog

/-- The progress in front of a command, as `[3/12] `. -/
def progressMark : Node :=
  concat [char '[', some_ (one .digit), char '/', some_ (one .digit), char ']',
    some_ Spelling.blank]

def dropProgress (line : Text) : Text :=
  match progressMark.match? line with
  | some place => place.rest
  | none => line

/-- The lines behind one more byte. -/
def addByte (b : UInt8) (lines : List Bytes) : List Bytes :=
  if b = 0x0A then [] :: lines
  else
    match lines with
    | [] => [[b]]
    | line :: more => (b :: line) :: more

/-- The lines of a log, without their line feeds. A line feed at the end does not begin one more
line. -/
def byteLines (bytes : Bytes) : List Bytes :=
  bytes.foldr addByte []

def lines (bytes : Bytes) : List Text :=
  (byteLines bytes).map Encoding.ofUtf8

structure Progress where
  directories : DirectoryStack
  state : ProcessorState := {}
  yield : Yield := {}
  deriving DecidableEq, Repr

/-- What a line is. -/
inductive LineKind where
  | blank
  | directoryChange (change : DirectoryStack.Change)
  | command (line : Text)
  deriving DecidableEq, Repr

def classify (line : Text) : LineKind :=
  let line := line.trim
  if line.isEmpty then .blank
  else
    match DirectoryStack.change? line with
    | some change => .directoryChange change
    | none => .command (dropProgress line)

def scanLine (p : Processor) (progress : Progress) (line : Text) : Progress :=
  let s := progress.state.statistics
  let state := { progress.state with statistics := { s with linesRead := s.linesRead + 1 } }
  match classify line with
  | .blank => { progress with state }
  | .directoryChange change =>
    { progress with state, directories := progress.directories.apply change }
  | .command line =>
    let (_, yield, state) := p.process state { directory := progress.directories.current, line }
    { progress with state, yield := progress.yield ++ yield }

/-- Scans the bytes of a log of a build that was started in the directory. -/
def scan (p : Processor) (state : ProcessorState) (directory : Text) (bytes : Bytes) : Progress :=
  (lines bytes).foldl (scanLine p) { directories := { start := directory }, state }

end BuildLog

end SettingsScan
