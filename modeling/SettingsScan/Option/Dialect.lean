import SettingsScan.Option.Rule
import SettingsScan.Option.Spelling

/-! # Option dialects

A dialect is an ordered list of rules. The order is the priority: the first rule that takes
something wins.
-/

namespace SettingsScan

open Pattern (CharSet Node)
open Pattern.Node
open Spelling

/-- The option syntax that a family of tools understands. -/
inductive Dialect where
  | gcc
  | cc
  | msvc
  | nvcc
  deriving DecidableEq, Repr

namespace Dialect

def all : List Dialect := [gcc, cc, msvc, nvcc]

def word : Dialect → Text
  | gcc => "gcc"
  | cc => "cc"
  | msvc => "msvc"
  | nvcc => "nvcc"

def ofWord? (w : Text) : Option Dialect :=
  all.find? (·.word = w)

/-- A non-empty rest of a word. -/
def operand : Node := some_ (one notBlank)

/-- The options of every driver of the POSIX kind. -/
def posixRules : List OptionRule :=
  [{ family := "macro-define", meaning := .macroDefine, matchers := macroDefine (literal "-D") },
   { family := "macro-undefine", meaning := .macroUndefine,
     matchers := macroUndefine (literal "-U") },
   { family := "include-path", meaning := .includePath,
     matchers := pathOperand (literal "-I") .optional },
   { family := "system-include-path", meaning := .systemIncludePath,
     matchers := pathOperand (literal "-isystem") .optional }]

def sysrootSpellings : List Node :=
  [concat [literal "--sysroot=", char '"', many (one (.complement (.single '"'))), char '"'],
   concat [literal "--sysroot=", char '\'', many (one (.complement (.single '\''))), char '\''],
   seq (literal "--sysroot=") operand,
   concat [literal "--sysroot", some_ blank, operand],
   concat [literal "-isysroot", blanks, operand]]

def targetSpellings : List Node :=
  [seq (literal "-m") (choice [literal "32", literal "64", literal "x32"]),
   concat [literal "-m", choice [literal "arch", literal "cpu"], char '=', operand],
   seq (literal "--target=") operand]

/-- The options that GCC and the compilers like it have on top. -/
def gccRules : List OptionRule :=
  [{ family := "include-file", meaning := .includeFile,
     matchers := pathOperand (literal "-include") .required },
   { family := "macro-file", meaning := .macroFile,
     matchers := pathOperand (literal "-imacros") .required },
   { family := "quote-include-path", meaning := .includePath,
     matchers := pathOperand (literal "-iquote") .optional },
   { family := "after-include-path", meaning := .systemIncludePath,
     matchers := pathOperand (literal "-idirafter") .optional },
   { family := "language-standard", meaning := .builtinArgument,
     matchers := verbatim
       [concat [char '-', opt (char '-'), literal "std=", operand], literal "-ansi"] },
   { family := "sysroot", meaning := .builtinArgument, matchers := verbatim sysrootSpellings },
   { family := "standard-includes", meaning := .builtinArgument,
     matchers := verbatim
       [seq (literal "-nostdinc") (opt (literal "++")), literal "-nostdlibinc"] },
   { family := "target", meaning := .builtinArgument, matchers := verbatim targetSpellings }]

/-- The switches for the language standard, as `cl` spells them behind the given sign. -/
def standardRules (sign : Node) : List OptionRule :=
  [{ family := "language-standard", meaning := .builtinArgument,
     matchers := verbatim
       [concat [sign, literal "std:", operand], concat [sign, literal "Zc:", operand]] }]

/-- Options of `cl` start with a dash or a slash. -/
def dashOrSlash : Node :=
  one (.union (.single '-') (.single '/'))

def msvcRules : List OptionRule :=
  let option (name : Text) : Node := seq dashOrSlash (literal name)
  [{ family := "macro-define", meaning := .macroDefine, matchers := macroDefine (option "D") },
   { family := "macro-undefine", meaning := .macroUndefine,
     matchers := macroUndefine (option "U") },
   { family := "include-path", meaning := .includePath,
     matchers := pathOperand (option "I") .optional },
   { family := "system-include-path", meaning := .systemIncludePath,
     matchers := pathOperand (option "external:I") .optional ++
       pathOperand (option "imsvc") .optional },
   { family := "include-file", meaning := .includeFile,
     matchers := pathOperand (option "FI") .optional }] ++
  standardRules dashOrSlash

/-- A long option and the equals sign or blank character behind it. -/
def longOption (name : Text) : Node :=
  seq (literal name) (one (.union (.single '=') .space))

/-- The long options of the CUDA compiler. -/
def nvccRules : List OptionRule :=
  [{ family := "macro-define", meaning := .macroDefine,
     matchers := macroDefine (longOption "--define-macro") },
   { family := "macro-undefine", meaning := .macroUndefine,
     matchers := macroUndefine (longOption "--undefine-macro") },
   { family := "include-path", meaning := .includePath,
     matchers := pathOperand (longOption "--include-path") .optional },
   { family := "system-include-path", meaning := .systemIncludePath,
     matchers := pathOperand (longOption "--system-include") .optional },
   { family := "include-file", meaning := .includeFile,
     matchers := pathOperand (longOption "--pre-include") .optional },
   { family := "language-standard", meaning := .builtinArgument,
     matchers := verbatim
       [concat [longOption "--std", blanks, operand],
        concat [literal "-std", some_ blank, operand]] }]

def rules : Dialect → List OptionRule
  | gcc => posixRules ++ gccRules
  | cc => posixRules ++ gccRules ++ standardRules (char '/')
  | msvc => msvcRules
  | nvcc => nvccRules ++ posixRules ++ gccRules

end Dialect

end SettingsScan
