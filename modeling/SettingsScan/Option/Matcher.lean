import SettingsScan.Pattern.Reader

/-! # Matching one spelling of an option

The command line is not split into words first: a matcher is offered the remaining text and says
how much of its front it takes, so quoting inside an argument is kept.
-/

namespace SettingsScan

/-- One spelling of an option, with the groups that hold its name and its value. -/
structure OptionMatcher where
  node : Pattern.Node
  nameGroup : Nat := 1
  valueGroup : Option Nat := none
  /-- The value is written with escaped quotes. -/
  shellEscaped : Bool := false
  deriving DecidableEq, Repr

/-- What a matcher takes from the front of a text. -/
structure OptionMatch where
  name : Text
  value : Option Text
  taken : Text
  rest : Text
  deriving DecidableEq, Repr

namespace OptionMatcher

/-- A backslash in front of a quote goes away. -/
def unescapeQuotes (value : Text) : Text :=
  (value.replacePair '\\' '"' '"').replacePair '\\' '\'' '\''

/-- The text of a pattern tied to the start of what it is tried on. -/
def anchored (pattern : Text) : Text :=
  "^(?:".toList ++ pattern ++ [')']

/-- The matcher that searches for a pattern tied to the start. The whole match, group 0 of the
pattern, is the first group of the search, so all numbers are one higher. -/
def ofText (pattern : Text) (nameGroup : Nat) (valueGroup : Option Nat) (shellEscaped : Bool) :
    Except Pattern.PatternError OptionMatcher :=
  (Pattern.ofText (anchored pattern)).map fun node =>
    { node := node.leftmost
      nameGroup := nameGroup + 1
      valueGroup := valueGroup.map (· + 1)
      shellEscaped }

/-- Tries the option at the front of the text. -/
def lookingAt (m : OptionMatcher) (input : Text) : Option OptionMatch :=
  match m.node.match? input with
  | none => none
  | some place =>
    match place.group? input m.nameGroup with
    | none => none
    | some name =>
      let value := m.valueGroup.bind fun group =>
        (place.group? input group).map fun value =>
          if m.shellEscaped then unescapeQuotes value else value
      if place.passed = 0 then none
      else some { name, value, taken := input.take place.passed, rest := place.rest }

end OptionMatcher

end SettingsScan
