import SettingsScan.Program.Run

/-! # The program

A run is tried with what is known of the surroundings, which is nothing at first. What it asked for
and was not known is looked up, and the run is tried again, until nothing is left to look up.
-/

namespace SettingsScan.Program

/-- What was looked up so far. -/
structure Knowledge where
  contents : List (Text × Except FileError Bytes) := []
  paths : List (Text × Option Text) := []

namespace Knowledge

def covers (k : Knowledge) : Question → Bool
  | .content path => (k.contents.lookup path).isSome
  | .canonicalPath path => (k.paths.lookup path).isSome

def read (k : Knowledge) (path : Text) : Except FileError Bytes :=
  (k.contents.lookup path).getD (.error .notFound)

def canonical? (k : Knowledge) (path : Text) : Option Text :=
  (k.paths.lookup path).getD none

end Knowledge

/-- The reason for which a file could not be read. -/
def reasonOf (e : IO.Error) : FileError :=
  match e with
  | .noFileOrDirectory .. => .notFound
  | .inappropriateType _ 20 _ => .notADirectory
  | .inappropriateType _ 21 _ => .isADirectory
  | .permissionDenied _ code _ => .other ("Permission denied (os error ".toList ++
      Decimal.digits code.toNat ++ [')'])
  | e => .other (toString e).toList

def readFile (path : Text) : IO (Except FileError Bytes) := do
  try
    return .ok (← IO.FS.readBinFile (String.ofList path)).toList
  catch e => return .error (reasonOf e)

def canonicalPath (path : Text) : IO (Option Text) := do
  try
    return some (← IO.FS.realPath (String.ofList path)).toString.toList
  catch _ => return none

/-- Looks up the answer to a question. -/
def learn (k : Knowledge) : Question → IO Knowledge
  | .content path => return { k with contents := (path, ← readFile path) :: k.contents }
  | .canonicalPath path => return { k with paths := (path, ← canonicalPath path) :: k.paths }

/-- Tries a run until it asks for nothing unknown. -/
partial def settle {α : Type} (run : Knowledge → Answer α) (k : Knowledge) :
    IO (Except Failure α) := do
  let answer := run k
  match answer.asked.filter (!k.covers ·) with
  | [] => return answer.result
  | unknown => settle run (← unknown.eraseDups.foldlM learn k)

/-- Reads a stream up to its end. -/
partial def readAll (stream : IO.FS.Stream) (sofar : ByteArray) : IO ByteArray := do
  let part ← stream.read 65536
  if part.isEmpty then return sofar else readAll stream (sofar ++ part)

/-- The configuration directory of the user, by the environment. -/
def userConfigHome : IO (Option Text) := do
  match ← IO.getEnv "XDG_CONFIG_HOME", ← IO.getEnv "HOME" with
  | some home, fallback =>
    if Path.isRooted home.toList then return some home.toList
    else return fallback.map fun home => Path.join home.toList ".config"
  | none, fallback => return fallback.map fun home => Path.join home.toList ".config"

/-- Writes a report to its file. -/
def writeReport (output text : Text) : IO Ending := do
  let opened ← try pure (some (← IO.FS.Handle.mk (String.ofList output) .write))
    catch _ => pure none
  match opened with
  | none => return .failed (.createReport output)
  | some handle =>
    try
      handle.write (Encoding.utf8 text).toByteArray
      handle.flush
      return .done []
    catch _ => return .failed (.writeReport output)

def runArguments (a : Arguments) : IO Ending := do
  let directory := (← IO.currentDir).toString.toList
  let configHome ← userConfigHome
  let standardInput ← match a.input with
    | .buildLog file _ =>
      if file = standardStream then readAll (← IO.getStdin) ByteArray.empty
      else pure ByteArray.empty
    | .database _ => pure ByteArray.empty
  let bytes := standardInput.toList
  let surroundings (k : Knowledge) : Surroundings :=
    { directory, configHome, read := k.read, canonical? := k.canonical?, standardInput := bytes }
  match ← settle (fun k => report (surroundings k) a) {} with
  | .error reason => return .failed reason
  | .ok r =>
    if a.output = standardStream then return .done (written r)
    else writeReport a.output (written r)

def runWords (words : List Text) : IO Ending := do
  match Arguments.read words with
  | .error reason => return .refused reason
  | .ok a => runArguments a

end SettingsScan.Program

open SettingsScan.Program

def main (words : List String) : IO UInt32 := do
  let ending ← runWords (words.map String.toList)
  IO.print (String.ofList ending.standardOutput)
  match ending with
  | .refused reason => IO.eprint (String.ofList reason.message)
  | _ => pure ()
  match ending.failureText? with
  | some text => IO.eprintln (String.ofList text)
  | none => pure ()
  return ending.exitCode.toUInt32
