import SettingsScan.Detection.Cascade

/-! # Detection with memory

A build is dominated by one compiler, so the detector and method of the latest line are tried
first on the next one. Expansions of short names are kept, the negative ones too.
-/

namespace SettingsScan

structure DetectionMemory where
  last : Option (DetectorId × DetectionMethod) := none
  shortNames : List (Text × Option Text) := []
  deriving DecidableEq, Repr

namespace DetectionMemory

/-- The outcome of one line: the detection, the memory after it, and the token that was expanded. -/
structure Outcome where
  found : Option Detection
  memory : DetectionMemory
  asked : Option Text := none
  deriving Repr

/-- The line tried with the latest detector and method only. -/
def tryLast (m : DetectionMemory) (r : Registry) (line : Text) : Option Detection :=
  m.last.bind fun (id, method) =>
    (r.get? id).bind fun detector =>
      (detector.match? line method).map fun found =>
        { id, detector, method, command := found.command, arguments := found.arguments }

def remember (m : DetectionMemory) (found : Option Detection) : DetectionMemory :=
  { m with last := found.map fun d => (d.id, d.method) }

def detect (m : DetectionMemory) (r : Registry) (expander : Expander) (line : Text) : Outcome :=
  match m.tryLast r line with
  | some found => { found := some found, memory := m }
  | none =>
    match r.scanWritten line with
    | some found => { found := some found, memory := m.remember (some found) }
    | none =>
      match r.shortToken? line with
      | none => { found := none, memory := m.remember none }
      | some token =>
        match m.shortNames.lookup token with
        | some long =>
          let found := long.bind (r.scanExpanded line)
          { found, memory := m.remember found }
        | none =>
          let long := expander token
          let found := long.bind (r.scanExpanded line)
          { found
            memory := { m with shortNames := (token, long) :: m.shortNames }.remember found
            asked := some token }

/-- The detector tried first on the next line. -/
def lastDetector? (m : DetectionMemory) (r : Registry) : Option Detector :=
  m.last.bind fun (id, _) => r.get? id

end DetectionMemory

end SettingsScan
