import SettingsScan.Text.ShellWords

/-! # Source files on a command line

Words with a dash, and with a slash in some families, are options. A word that starts with a slash
is a path only if it has another slash or a dot.
-/

namespace SettingsScan.SourceFile

/-- The extensions that compilers take for source files. -/
def extensions : List Text :=
  ["c", "C", "cc", "CC", "c++", "C++", "cxx", "cpp", "CPP", "cp", "cu", "m", "mi", "mm", "M",
   "mii", "i", "ii", "s", "S", "sx", "asm"].map String.toList

def looksLike (word : Text) : Bool :=
  match word with
  | '-' :: _ => false
  | '@' :: _ => false
  | word =>
    if word.head? = some '/' && !(word.drop 1).contains '/' && !word.contains '.' then false
    else
      match Text.cutLast? (· = '.') word with
      | some (stem, extension) => !stem.isEmpty && extensions.contains extension
      | none => false

/-- The words of a text of arguments. With a backslash anywhere the quotes are not understood. -/
def argumentWords (args : Text) : List Text :=
  if args.contains '\\' then args.words
  else (ShellWords.split? args).getD args.words

/-- The first argument that names a source file. -/
def find? (args : Text) : Option Text :=
  (argumentWords args).find? looksLike

end SettingsScan.SourceFile
