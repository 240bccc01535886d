import SettingsScan.Text.Encoding
import SettingsScan.Path.Resolve
import SettingsScan.Option.Spelling

/-! # Response files

A command line may refer to a file that holds more arguments, as `@file`. The name `<<` stands
for arguments on the command line itself, so there is nothing to read.
-/

namespace SettingsScan

/-- The files that can be read, by the text of their path. -/
abbrev Contents := Text → Option Bytes

namespace ResponseFile

inductive Target where
  | inline
  | file (path : Text)
  deriving DecidableEq, Repr

structure Reference where
  target : Target
  taken : Text
  rest : Text
  deriving DecidableEq, Repr

def inlineName : Text := ['<', '<']

/-- The spellings of `@file`. -/
def atSign : List OptionMatcher :=
  Spelling.reference (.char '@')

/-- The spellings of a reference behind a marker that is given as the text of a pattern. -/
def marked (marker : Text) : Except Pattern.PatternError (List OptionMatcher) :=
  ["\"([^\"]*)\"(?:\\s|$)", "'([^']*)'(?:\\s|$)", "(\\S+)"].mapM fun operand =>
    OptionMatcher.ofText (marker ++ operand.toList) 1 none false

/-- The reference at the front of the arguments, resolved in the working directory. -/
def recognize? (matchers : List OptionMatcher) (directory args : Text) : Option Reference :=
  (matchers.findSome? (·.lookingAt args)).map fun m =>
    { target := if m.name = inlineName then .inline else .file (Path.resolve directory m.name)
      taken := m.taken
      rest := m.rest }

/-- The text of a file; one that can not be read has none. -/
def load (contents : Contents) (path : Text) : Option Text :=
  (contents path).map Encoding.decode

end ResponseFile

end SettingsScan
