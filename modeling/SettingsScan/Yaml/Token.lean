import SettingsScan.Text.Blank

/-! # Tokens of a YAML text

Indentation shows as start and end tokens. A scalar carries its text with all folding and escapes
resolved.
-/

namespace SettingsScan.Yaml

inductive ScalarStyle where
  | plain
  | singleQuoted
  | doubleQuoted
  | literal
  | folded
  deriving DecidableEq, Repr

inductive Token where
  | versionDirective (major minor : Nat)
  | tagDirective (handle start : Text)
  | documentStart
  | documentEnd
  | blockSequenceStart
  | blockMappingStart
  | blockEnd
  | flowSequenceStart
  | flowSequenceEnd
  | flowMappingStart
  | flowMappingEnd
  | blockEntry
  | flowEntry
  | key
  | value
  | alias (name : Text)
  | anchor (name : Text)
  /-- A tag as a handle, which may be empty, and a suffix. -/
  | tag (handle suffix : Text)
  | scalar (style : ScalarStyle) (text : Text)
  | streamEnd
  deriving DecidableEq, Repr

end SettingsScan.Yaml
