import SettingsScan.Pattern.Reader
import SettingsScan.Yaml.Cursor
import SettingsScan.Yaml.Token

/-! # Tags, anchors and directives

The words that start with an exclamation mark, an ampersand, an asterisk or a percent sign.
-/

namespace SettingsScan.Yaml.Tag

/-- The characters of a tag's suffix. -/
def isSuffixChar (c : Char) : Bool :=
  isNameChar c || ";/?:@&=+$.%!~*'()".toList.contains c

/-- The characters of a tag that is written out. -/
def isUriChar (c : Char) : Bool :=
  isSuffixChar c || c = ',' || c = '[' || c = ']'

/-- How many bytes the UTF-8 form of a character has that starts with the given one. -/
def widthOfLead? (octet : Nat) : Option Nat :=
  if octet < 0x80 then some 1
  else if 0xC0 ≤ octet ∧ octet < 0xE0 then some 2
  else if 0xE0 ≤ octet ∧ octet < 0xF0 then some 3
  else if 0xF0 ≤ octet ∧ octet < 0xF8 then some 4
  else none

/-- Resolves percent escapes, with so many continuation bytes due. -/
def unescape? : Nat → Text → Option Bytes
  | 0, [] => some []
  | _ + 1, [] => none
  | due, '%' :: a :: b :: t => do
    let octet := (← Pattern.hexValue? a) * 16 + (← Pattern.hexValue? b)
    match due with
    | 0 => return octet.toUInt8 :: (← unescape? ((← widthOfLead? octet) - 1) t)
    | due + 1 =>
      if 0x80 ≤ octet ∧ octet < 0xC0 then return octet.toUInt8 :: (← unescape? due t) else none
  | due, c :: t =>
    if due = 0 ∧ c ≠ '%' then do return Encoding.utf8 [c] ++ (← unescape? 0 t) else none

/-- Reads a run of tag characters. -/
def uri? (p : Cursor) (isChar : Char → Bool) : Option (Text × Cursor) := do
  let run := p.rest.takeWhile isChar
  return (Encoding.ofUtf8 (← unescape? 0 run), p.past run)

/-- Refuses an empty text. -/
def filled? (found : Text × Cursor) : Option (Text × Cursor) :=
  if found.1.isEmpty then none else some found

/-- Reads a tag at its exclamation mark. -/
def tag? (inFlow : Bool) (p : Cursor) : Option (Token × Cursor) := do
  let name := (p.rest.drop 1).takeWhile isNameChar
  let (token, p) ←
    match p.rest.drop 1, (p.rest.drop (name.length + 1)).head? with
    | '<' :: _, _ => do
      let (suffix, p) ← (uri? (p.skip 2) isUriChar).bind filled?
      if p.rest.head? = some '>' then pure (Token.tag [] suffix, p.next) else none
    | _, some '!' => do
      let (suffix, p) ← (uri? (p.skip (name.length + 2)) isSuffixChar).bind filled?
      pure (Token.tag ("!".toList ++ name ++ "!".toList) suffix, p)
    | _, _ => do
      let (suffix, p) ← uri? (p.skip (name.length + 1)) isSuffixChar
      if (name ++ suffix).isEmpty then pure (Token.tag [] "!", p)
      else pure (Token.tag "!" (name ++ suffix), p)
  if atWordEnd p.rest || (inFlow && p.rest.head? = some ',') then return (token, p) else none

/-- Whether an anchor or alias may end here. -/
def atAnchorEnd (t : Text) : Bool :=
  atWordEnd t || t.head?.any ("?:,]\x7d%@\x60".toList.contains ·)

/-- Reads the name behind the indicator of an anchor or alias. -/
def anchorName? (p : Cursor) : Option (Text × Cursor) :=
  let name := (p.rest.drop 1).takeWhile isNameChar
  let p := p.skip (name.length + 1)
  if name.isEmpty || !atAnchorEnd p.rest then none else some (name, p)

/-- Reads a number of one to nine digits. -/
def number? (p : Cursor) : Option (Nat × Cursor) :=
  let digits := p.rest.takeWhile Char.isDigit
  if digits.isEmpty ∨ 9 < digits.length then none
  else some (digits.foldl (fun n c => n * 10 + (c.toNat - 48)) 0, p.past digits)

def versionDirective? (p : Cursor) : Option (Token × Cursor) := do
  let (major, p) ← number? (p.skipWhile isGap)
  if p.rest.head? ≠ some '.' then none else
    let (minor, p) ← number? p.next
    return (.versionDirective major minor, p)

/-- Reads the handle of a tag directive: one or two exclamation marks, with a name between two. -/
def handle? (p : Cursor) : Option (Text × Cursor) :=
  match p.rest with
  | '!' :: t =>
    let name := t.takeWhile isNameChar
    match t.drop name.length with
    | '!' :: _ => some ("!".toList ++ name ++ "!".toList, p.skip (name.length + 2))
    | _ => if name.isEmpty then some ("!", p.next) else none
  | _ => none

def tagDirective? (p : Cursor) : Option (Token × Cursor) := do
  let (handle, p) ← handle? (p.skipWhile isGap)
  if !p.rest.head?.any isGap then none else
    let (start, p) ← (uri? (p.skipWhile isGap) isUriChar).bind filled?
    if atWordEnd p.rest then return (.tagDirective handle start, p) else none

/-- Reads a directive at its percent sign, to the end of the line. -/
def directive? (p : Cursor) : Option (Token × Cursor) := do
  let name := (p.rest.drop 1).takeWhile isNameChar
  let p := p.skip (name.length + 1)
  let (token, p) ←
    if !atWordEnd p.rest then none
    else if name = "YAML".toList then versionDirective? p
    else if name = "TAG".toList then tagDirective? p
    else none
  let p := p.skipWhile isGap
  let p := if p.rest.head? = some '#' then p.skipWhile (!isBreak ·) else p
  if atLineEnd p.rest then return (token, p.skipBreak) else none

end SettingsScan.Yaml.Tag
