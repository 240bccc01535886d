import SettingsScan.Path.Resolve
import SettingsScan.Setting
import SettingsScan.Option.Matcher

/-! # Option rules

A rule covers one family of options: the ways it is spelled and what it means. It takes one
option from the front of a text, by the first of its spellings that matches.
-/

namespace SettingsScan

/-- What an option contributes. -/
inductive OptionMeaning where
  | macroDefine
  | macroUndefine
  | includePath
  | systemIncludePath
  | includeFile
  | macroFile
  /-- The option itself is passed on to the query of built-in settings. -/
  | builtinArgument
  deriving DecidableEq, Repr

structure OptionRule where
  family : Text
  meaning : OptionMeaning
  matchers : List OptionMatcher
  deriving DecidableEq, Repr

/-- What a rule took from the front of a text, and what it found there. -/
structure Taken where
  findings : Findings
  taken : Text
  rest : Text
  deriving DecidableEq, Repr

namespace OptionMeaning

def word : OptionMeaning → Text
  | macroDefine => "MacroDefine"
  | macroUndefine => "MacroUndefine"
  | includePath => "IncludePath"
  | systemIncludePath => "SystemIncludePath"
  | includeFile => "IncludeFile"
  | macroFile => "MacroFile"
  | builtinArgument => "BuiltinDetection"

/-- What a match of the option gives in a working directory. -/
def findings (meaning : OptionMeaning) (directory : Text) (m : OptionMatch) : Findings :=
  match meaning with
  | macroDefine => .ofSetting (.define m.name m.value)
  | macroUndefine => .ofSetting (.undefine m.name)
  | includePath => .ofSetting (.path .includePath (Path.resolve directory m.name))
  | systemIncludePath => .ofSetting (.path .systemIncludePath (Path.resolve directory m.name))
  | includeFile => .ofSetting (.path .includeFile (Path.resolve directory m.name))
  | macroFile => .ofSetting (.path .macroFile (Path.resolve directory m.name))
  | builtinArgument => .ofBuiltinArgument m.taken.trimEnd

end OptionMeaning

namespace OptionRule

def take? (rule : OptionRule) (directory args : Text) : Option Taken :=
  (rule.matchers.findSome? (·.lookingAt args)).map fun m =>
    { findings := rule.meaning.findings directory m, taken := m.taken, rest := m.rest }

/-- Takes one option by the first rule that applies, and tells the place of that rule. -/
def takeFirst? (rules : List OptionRule) (directory args : Text) :
    Option (Nat × OptionRule × Taken) :=
  rules.zipIdx.findSome? fun (rule, index) =>
    (rule.take? directory args).map fun taken => (index, rule, taken)

end OptionRule

end SettingsScan
