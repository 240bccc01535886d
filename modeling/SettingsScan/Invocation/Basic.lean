import SettingsScan.Text.Blank

/-! # Invocations -/

namespace SettingsScan

/-- A command line to examine, with its working directory, and its source file if it is known. -/
structure Invocation where
  directory : Text
  line : Text
  file : Option Text := none
  deriving DecidableEq, Repr

end SettingsScan
