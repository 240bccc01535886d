import SettingsScan.Program.Arguments

/-! # Texts about the program

What the program says about itself when it is asked, instead of scanning.
-/

namespace SettingsScan.Program

def programName : Text := "ccscan"

def versionText : Text := programName ++ " 0.3.0\n".toList

/-- The line of a switch: its spellings, with its value if it takes one. -/
def Switch.describe (s : Switch) : Text :=
  let value : Text := if s.effect = .value then " <VALUE>" else ""
  "  -".toList ++ s.letter :: ", --".toList ++ s.name ++ value

def Level.describe (level : Level) : List Text :=
  "Options:".toList :: level.switches.map Switch.describe

/-- The usage of the whole program and of its commands. -/
def helpText : Text :=
  Text.joinWith "\n" <|
    ["Usage: ".toList ++ programName ++ " [OPTIONS] <COMMAND>".toList, []] ++
      topLevel.describe ++
      Command.all.flatMap (fun command =>
        [[], "Usage: ".toList ++ programName ++ ' ' :: command.word ++ " [OPTIONS]".toList, []] ++
          command.level.describe) ++
      [[]]

/-- The text that answers a refusal on the standard output. -/
def Refusal.standardOutput : Refusal → Text
  | help => helpText
  | version => versionText
  | _ => []

/-- The text about a refusal for the standard error. -/
def Refusal.message : Refusal → Text
  | help => []
  | version => []
  | helpInsteadOfNothing => helpText
  | unknownArgument => "error: unexpected argument found"
  | invalidCommand => "error: unrecognized subcommand"
  | missingCommand => "error: a subcommand is required but one was not provided"
  | missingValue => "error: a value is required for an option but none was supplied"
  | unwantedValue => "error: unexpected value for an option that takes none"
  | repeatedValue => "error: an option cannot be used multiple times"

end SettingsScan.Program
