import SettingsScan.Program.Words

/-! # Arguments of the program

Options for the whole program come first, then a command that names the kind of input, with
options of its own.
-/

namespace SettingsScan.Program

/-- What is scanned. -/
inductive Input where
  | database (file : Text)
  /-- A build log and the directory where the build was started. -/
  | buildLog (file : Text) (directory : Option Text)
  deriving DecidableEq, Repr

structure Arguments where
  config : Option Text := none
  verbosity : Nat := 0
  input : Input
  output : Text
  deriving DecidableEq, Repr

/-- The file name that stands for the standard input or output. -/
def standardStream : Text := "-"

/-- The highest verbosity that is told apart. -/
def verbosityLimit : Nat := 255

def defaultDatabase : Text := "compile_commands.json"

def defaultReport : Text := "settings.json"

def helpSwitch : Switch := { name := "help", letter := 'h', effect := .help }

def versionSwitch : Switch := { name := "version", letter := 'V', effect := .version }

def configSwitch : Switch := { name := "config", letter := 'c', effect := .value }

def verboseSwitch : Switch := { name := "verbose", letter := 'v', effect := .count }

def inputSwitch : Switch := { name := "input", letter := 'i', effect := .value }

def directorySwitch : Switch := { name := "directory", letter := 'd', effect := .value }

def outputSwitch : Switch := { name := "output", letter := 'o', effect := .value }

/-- The commands, one for each kind of input. -/
inductive Command where
  | database
  | buildLog
  deriving DecidableEq, Repr

namespace Command

def all : List Command := [database, buildLog]

def word : Command → Text
  | database => "database"
  | buildLog => "output"

def ofWord? (w : Text) : Option Command :=
  all.find? (·.word = w)

def level : Command → Level
  | database => { switches := [inputSwitch, outputSwitch, helpSwitch] }
  | buildLog => { switches := [inputSwitch, directorySwitch, outputSwitch, helpSwitch] }

/-- The input that the switches of a command ask for. -/
def input (given : Given) : Command → Input
  | database => .database ((given.value? inputSwitch.name).getD defaultDatabase)
  | buildLog => .buildLog ((given.value? inputSwitch.name).getD standardStream)
      (given.value? directorySwitch.name)

end Command

def helpCommand : Text := "help"

/-- The level above the commands. -/
def topLevel : Level where
  switches :=
    [verboseSwitch, configSwitch, helpSwitch, versionSwitch]
  commands := Command.all.map Command.word ++ [helpCommand]

/-- The answer to the command `help`: no command has commands of its own. -/
def helpOn : List Text → Refusal
  | [] => .help
  | [word] => if topLevel.commands.contains word then .help else .invalidCommand
  | _ :: _ :: _ => .invalidCommand

namespace Arguments

/-- The refusal of a command line without a command. -/
def withoutCommand (reading : Reading) : Except Refusal Arguments := do
  let given ← reading.settle
  .error (if given.isEmpty then .helpInsteadOfNothing else .missingCommand)

/-- Reads the words that follow the name of the program. -/
def read (words : List Text) : Except Refusal Arguments := do
  let top ← topLevel.read {} words
  match top.next with
  | none => withoutCommand top.reading
  | some (word, more) =>
    match Command.ofWord? word with
    | none => .error (helpOn more)
    | some command =>
      let own ← command.level.read {} more
      let own ← own.reading.settle
      let given ← top.reading.settle
      return { config := given.value? configSwitch.name
               verbosity := min verbosityLimit (given.count verboseSwitch.name)
               input := command.input own
               output := (own.value? outputSwitch.name).getD defaultReport }

/-- The lines that describe an input. -/
def describeInput : Input → List Text
  | .database file => ["  database: ".toList ++ file]
  | .buildLog file directory =>
    ("  build output: ".toList ++ file) ::
      directory.toList.map ("  directory: ".toList ++ ·)

def describe (a : Arguments) : Text :=
  Text.joinWith "\n" <|
    ["Arguments:".toList] ++ a.config.toList.map ("  config: ".toList ++ ·) ++
      describeInput a.input ++ ["  output: ".toList ++ a.output]

end Arguments

namespace Refusal

/-- The exit code of a run that ends with the refusal: asking for help is no failure. -/
def exitCode : Refusal → Nat
  | help => 0
  | version => 0
  | _ => 2

end Refusal

end SettingsScan.Program
