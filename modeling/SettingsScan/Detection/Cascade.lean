import SettingsScan.Detection.Registry

/-! # Finding the tool of a line

The line is tried as it is written, against the POSIX detectors and then the Windows ones. If
neither knows it, its first token may be a short file name; expanded, the line is tried again, the
Windows detectors first.
-/

namespace SettingsScan

/-- Gives the long form of a short file name. -/
abbrev Expander := Text → Option Text

namespace Registry

/-- The first token without its quotes, and the rest of the line. -/
def splitToken (line : Text) : Text × Text :=
  match line with
  | '"' :: inner =>
    match Text.cut? (· = '"') inner with
    | some parts => parts
    | none => (line.firstWord, line.dropWhile (!isBlank ·))
  | line => (line.firstWord, line.dropWhile (!isBlank ·))

/-- The detection of the line as it is written. -/
def scanWritten (r : Registry) (line : Text) : Option Detection :=
  (r.scan .posix line).or
    (if r.options.windowsPaths then r.scan .windows line else none)

/-- The token to expand, if short names count and the token may be one. -/
def shortToken? (r : Registry) (line : Text) : Option Text :=
  let (token, _) := splitToken line
  if r.options.windowsPaths && r.options.shortFileNames && token.contains '~' then some token
  else none

/-- The line with its token replaced, in quotes if the long name needs them. -/
def withLongName (line long : Text) : Text :=
  let (_, rest) := splitToken line
  if long.any isBlank then '"' :: long ++ '"' :: rest else long ++ rest

def scanExpanded (r : Registry) (line long : Text) : Option Detection :=
  let line := withLongName line long
  (r.scan .windows line).or (r.scan .posix line)

/-- The token that the detection of a line has expanded, if any. -/
def asked? (r : Registry) (line : Text) : Option Text :=
  if (r.scanWritten line).isSome then none else r.shortToken? line

/-- The detection of a line. -/
def detect (r : Registry) (expander : Expander) (line : Text) : Option Detection :=
  (r.scanWritten line).or
    ((r.shortToken? line).bind fun token => (expander token).bind (r.scanExpanded line))

end Registry

end SettingsScan
