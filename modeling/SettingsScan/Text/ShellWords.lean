import SettingsScan.Text.Blank

/-! # Words of a shell command

Words are separated by spaces, tabs and line feeds. Quotes of either kind keep blank characters
and go away, and a `#` at the start of a word begins a comment. Backslashes have no meaning here.
-/

namespace SettingsScan.ShellWords

inductive Mode where
  | between
  | word
  | quoted (quote : Char)
  | comment
  deriving DecidableEq, Repr

def isSeparator (c : Char) : Bool :=
  c = ' ' || c = '\t' || c = '\n'

def isQuote (c : Char) : Bool :=
  c = '\'' || c = '"'

/-- Splits with the word under way, its latest character first. -/
def splitFrom : Mode → List Char → Text → Option (List Text)
  | .between, _, [] => some []
  | .comment, _, [] => some []
  | .word, w, [] => some [w.reverse]
  | .quoted _, _, [] => none
  | .between, w, c :: t =>
    if isQuote c then splitFrom (.quoted c) w t
    else if isSeparator c then splitFrom .between w t
    else if c = '#' then splitFrom .comment w t
    else splitFrom .word (c :: w) t
  | .word, w, c :: t =>
    if isQuote c then splitFrom (.quoted c) w t
    else if isSeparator c then (splitFrom .between [] t).map (w.reverse :: ·)
    else splitFrom .word (c :: w) t
  | .quoted q, w, c :: t =>
    if c = q then splitFrom .word w t else splitFrom (.quoted q) (c :: w) t
  | .comment, w, c :: t =>
    if c = '\n' then splitFrom .between w t else splitFrom .comment w t

/-- The words of a command; an unclosed quote leaves none. -/
def split? (t : Text) : Option (List Text) :=
  splitFrom .between [] t

end SettingsScan.ShellWords
