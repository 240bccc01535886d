import SettingsScan.Option.Matcher

/-! # Spellings of options

The parts that option patterns are made of, and the families of spellings that macros, paths and
forwarded options have. The first group of a spelling is its name, the second its value.
-/

namespace SettingsScan.Spelling

open Pattern (CharSet Node)
open Pattern.Node

def blank : Node := one .space

def blanks : Node := many blank

def notBlank : CharSet := .complement .space

def nameChar : CharSet := .union .word (.single '$')

def parameterChar : CharSet := .union nameChar (.union (.single ',') (.single ' '))

/-- A macro name, with an optional list of parameters. -/
def macroName : Node :=
  group 1 (seq (some_ (one nameChar))
    (opt (concat [char '(', many (one parameterChar), char ')'])))

def identifier : Node :=
  group 1 (some_ (one nameChar))

/-- Anything between two quotes of the kind, captured. -/
def quoted (quote : Char) (index : Nat) : Node :=
  concat [char quote, group index (many (one (.complement (.single quote)))), char quote]

/-- A word up to the next blank character. -/
def unquoted (index : Nat) : Node :=
  group index (some_ (one notBlank))

/-- The end of an argument. -/
def argumentEnd : Node :=
  alt blank (look .textEnd)

/-- A definition that is quoted as a whole. -/
def wholeDefine (quote : Char) : List Node :=
  [char quote, macroName,
   opt (seq (char '=') (group 2 (many (one (.complement (.single quote)))))),
   char quote, argumentEnd]

/-- A value in double quotes that may hold escaped characters. -/
def escapedValue : Node :=
  concat [char '"',
    group 2 (many (alt (one (.complement (.union (.single '"') (.single '\\'))))
      (seq (char '\\') (one .notNewline)))),
    char '"']

/-- A value between escaped quotes, which belong to it. -/
def shellValue (quote : Char) : Node :=
  group 2 (concat [char '\\', char quote, loop 0 none false (one .notNewline), char '\\',
    char quote])

/-- The spellings of a macro definition behind the option: quoted as a whole, with a quoted value,
with a value between escaped quotes, with a plain value, and without a value. -/
def macroDefine (option : Node) : List OptionMatcher :=
  let written (parts : List Node) : Node := concat (option :: blanks :: parts)
  let withValue (value : Node) : Node := written [macroName, char '=', value, argumentEnd]
  [{ node := written (wholeDefine '"'), valueGroup := some 2 },
   { node := written (wholeDefine '\''), valueGroup := some 2 },
   { node := withValue escapedValue, valueGroup := some 2, shellEscaped := true },
   { node := withValue (quoted '"' 2), valueGroup := some 2 },
   { node := withValue (quoted '\'' 2), valueGroup := some 2 },
   { node := withValue (shellValue '"'), valueGroup := some 2, shellEscaped := true },
   { node := withValue (shellValue '\''), valueGroup := some 2, shellEscaped := true },
   { node := written [macroName, char '=', group 2 (many (one notBlank))], valueGroup := some 2 },
   { node := written [macroName, argumentEnd] }]

def macroUndefine (option : Node) : List OptionMatcher :=
  [{ node := concat [option, blanks, identifier, argumentEnd] }]

/-- The operand of an option is glued to it or stands apart, or it must stand apart. -/
inductive Separation where
  | optional
  | required
  deriving DecidableEq, Repr

def Separation.node : Separation → Node
  | optional => blanks
  | required => some_ blank

/-- The spellings of an option with a path as its operand. -/
def pathOperand (option : Node) (separation : Separation) : List OptionMatcher :=
  [{ node := concat [option, separation.node, quoted '"' 1, argumentEnd] },
   { node := concat [option, separation.node, quoted '\'' 1, argumentEnd] },
   { node := concat [option, separation.node, unquoted 1] }]

/-- The spellings of a reference that starts with the marker. -/
def reference (marker : Node) : List OptionMatcher :=
  [{ node := concat [marker, quoted '"' 1, argumentEnd] },
   { node := concat [marker, quoted '\'' 1, argumentEnd] },
   { node := concat [marker, unquoted 1] }]

/-- Options that are forwarded as they are written. -/
def verbatim (options : List Node) : List OptionMatcher :=
  options.map fun option => { node := seq (group 1 option) argumentEnd }

end SettingsScan.Spelling
