import SettingsScan.Decimal.Shortest

/-! # Counters of a scan -/

namespace SettingsScan

structure Statistics where
  /-- Entries of a database or lines of a build log. -/
  linesRead : Nat := 0
  /-- Lines with a known compiler. -/
  commandsRecognized : Nat := 0
  linesWithoutDetector : Nat := 0
  /-- Entries skipped as malformed. -/
  malformedEntries : Nat := 0
  /-- Commands skipped because their source is outside of the project. -/
  outsideOfProject : Nat := 0
  /-- Settings extracted from the recognised commands. -/
  settingsEntries : Nat := 0
  deriving DecidableEq, Repr

namespace Statistics

/-- The counters with their titles and keys, in the order of the report. -/
def counters (s : Statistics) : List (Text × Text × Nat) :=
  [("lines read", "lines_read", s.linesRead),
   ("commands recognized", "commands_recognized", s.commandsRecognized),
   ("lines without detector", "lines_without_detector", s.linesWithoutDetector),
   ("malformed entries", "malformed_entries", s.malformedEntries),
   ("outside of project", "outside_of_project", s.outsideOfProject),
   ("settings entries", "settings_entries", s.settingsEntries)]

def describe (s : Statistics) : Text :=
  "Scan statistics:".toList ++ s.counters.flatMap fun (title, _, n) =>
    "\n  ".toList ++ title ++ ": ".toList ++ Decimal.digits n

end Statistics

end SettingsScan
