import SettingsScan.Pattern.Reader
import SettingsScan.Yaml.Cursor

/-! # Scalars of a YAML text

A line break between two lines of a scalar becomes a space, unless empty lines follow it; these
count as line breaks. Only literal scalars keep all of them.
-/

namespace SettingsScan.Yaml.Scalar

/-- What a run of gaps and line breaks inside a scalar stands for. -/
def fold (run : Text) : Text :=
  match breaks run with
  | [] => run
  | '\n' :: [] => [' ']
  | '\n' :: more => more
  | separators => separators

/-- The character with the given hexadecimal code. -/
def charOfHex? (digits : Text) : Option Char := do
  let code ← digits.foldlM (fun n c => return n * 16 + (← Pattern.hexValue? c)) 0
  if code < 0xD800 ∨ (0xDFFF < code ∧ code < 0x110000) then return Char.ofNat code else none

/-- The escapes of one letter. -/
def simpleEscapes : List (Char × Char) :=
  [('0', '\x00'), ('a', '\x07'), ('b', '\x08'), ('t', '\t'), ('\t', '\t'), ('n', '\n'),
   ('v', '\x0B'), ('f', '\x0C'), ('r', '\r'), ('e', '\x1B'), (' ', ' '), ('"', '"'), ('/', '/'),
   ('\\', '\\'), ('N', '\u0085'), ('_', '\u00A0'), ('L', '\u2028'), ('P', '\u2029')]

/-- The escapes that take so many hexadecimal digits. -/
def hexEscapes : List (Char × Nat) := [('x', 2), ('u', 4), ('U', 8)]

/-- Reads what follows a backslash: the character, and how many characters it takes. -/
def escape? : Text → Option (Char × Nat)
  | [] => none
  | c :: t =>
    match simpleEscapes.lookup c, hexEscapes.lookup c with
    | some d, _ => some (d, 1)
    | none, some n =>
      if (t.take n).length = n then (charOfHex? (t.take n)).map fun d => (d, n + 1) else none
    | none, none => none

/-- Reads a quoted scalar behind its opening quote; the fuel is the length of the text. The text
read so far is in reverse. -/
def quotedFrom (double : Bool) : Nat → Cursor → Text → Option (Text × Cursor)
  | 0, _, _ => none
  | n + 1, p, read =>
    if p.atMarker then none else
      match p.rest with
      | [] => none
      | c :: t =>
        if isGapOrBreak c then
          let run := p.rest.takeWhile isGapOrBreak
          quotedFrom double n (p.past run) ((fold run).reverse ++ read)
        else if c = (if double then '"' else '\'') then
          match double, t with
          | false, '\'' :: _ => quotedFrom double n (p.skip 2) ('\'' :: read)
          | _, _ => some (read.reverse, p.next)
        else if double && c = '\\' then
          if !t.isEmpty && atLineEnd t then
            let p := p.next.skipBreak
            let run := p.rest.takeWhile isGapOrBreak
            quotedFrom double n (p.past run) ((breaks run).reverse ++ read)
          else
            match escape? t with
            | some (d, taken) => quotedFrom double n (p.skip (taken + 1)) (d :: read)
            | none => none
        else quotedFrom double n p.next (c :: read)

/-- Reads a quoted scalar at its opening quote. -/
def quoted? (double : Bool) (p : Cursor) : Option (Text × Cursor) :=
  quotedFrom double p.rest.length p.next []

/-- A word of a plain scalar, empty at an indicator. Inside brackets a colon must not stand right
before another indicator. -/
def plainWord? (inFlow : Bool) : Text → Option Text
  | [] => some []
  | c :: t =>
    if isGapOrBreak c then some []
    else if inFlow && c = ':' && (t.head?.any fun d => isFlowIndicator d || d = '?') then none
    else if (c = ':' && atWordEnd t) || (inFlow && isFlowIndicator c) then some []
    else (plainWord? inFlow t).map (c :: ·)

/-- Whether a tab stands before the given column on a line that starts within the run. -/
def tabInIndent (indent : Nat) : Option Nat → Text → Bool
  | _, [] => false
  | column, c :: t =>
    if isBreak c then tabInIndent indent (some 0) t
    else match column with
      | none => tabInIndent indent none t
      | some k => (k < indent && c = '\t') || tabInIndent indent (some (k + 1)) t

structure Plain where
  text : Text
  stop : Cursor
  /-- Whether line breaks were passed behind the scalar. -/
  newLine : Bool
  deriving DecidableEq, Repr

/-- Reads a plain scalar, given what was read before, with the gap behind it. -/
def plainFrom (inFlow : Bool) (indent : Nat) : Nat → Cursor → Text → Text → Option Plain
  | 0, _, _, _ => none
  | n + 1, p, read, gap =>
    if p.atMarker || p.rest.head? = some '#' then
      some { text := read, stop := p, newLine := gap.any isBreak }
    else
      match plainWord? inFlow p.rest with
      | none => none
      | some [] => some { text := read, stop := p, newLine := gap.any isBreak }
      | some (c :: word) =>
        let read := read ++ fold gap ++ c :: word
        let p := p.past (c :: word)
        let run := p.rest.takeWhile isGapOrBreak
        if run.isEmpty then some { text := read, stop := p, newLine := false }
        else if tabInIndent indent none run then none
        else
          let p := p.past run
          if !inFlow && p.column < indent then
            some { text := read, stop := p, newLine := run.any isBreak }
          else plainFrom inFlow indent n p read run

/-- Reads a plain scalar whose further lines are indented by so much at least. -/
def plain? (inFlow : Bool) (indent : Nat) (p : Cursor) : Option Plain :=
  plainFrom inFlow indent (p.rest.length + 1) p [] []

/-- What becomes of the line breaks at the end of a block scalar. -/
inductive Chomping where
  | strip
  | clip
  | keep
  deriving DecidableEq, Repr

def chomping? : Char → Option Chomping
  | '-' => some .strip
  | '+' => some .keep
  | _ => none

/-- The header of a block scalar: chomping and indentation, in either order. -/
def header? (p : Cursor) : Option (Chomping × Option Nat × Cursor) :=
  let digit? (t : Text) : Option Char := t.head?.filter Char.isDigit
  let (chomping, p) : Option Chomping × Cursor :=
    match p.rest.head?.bind chomping? with
    | some chomping => (some chomping, p.next)
    | none => (none, p)
  let (indent, p) : Option Nat × Cursor :=
    match digit? p.rest with
    | some c => (some (c.toNat - 48), p.next)
    | none => (none, p)
  let (chomping, p) : Option Chomping × Cursor :=
    match chomping, indent, p.rest.head?.bind chomping? with
    | none, some _, some chomping => (some chomping, p.next)
    | chomping, _, _ => (chomping, p)
  if indent = some 0 then none else some (chomping.getD .clip, indent, p)

/-- Goes over indentation and empty lines, which count as line breaks. Without a known
indentation the deepest one decides, which is at least the given one. -/
def emptyLines (least : Nat) :
    Nat → Cursor → Option Nat → Nat → Text → Option (Nat × Text × Cursor)
  | 0, _, _, _, _ => none
  | n + 1, p, indent, deepest, found =>
    let spaces := (p.rest.takeWhile (· = ' ')).length
    let p := p.skip (match indent with
      | some k => min spaces (k - p.column)
      | none => spaces)
    let deepest := max deepest p.column
    let within := indent.all (p.column < ·)
    if within && p.rest.head? = some '\t' then none
    else match p.breakHere with
      | [] => some (indent.getD (max deepest least), found, p)
      | separator => emptyLines least n p.next indent deepest (found ++ separator)

structure Block where
  text : Text := []
  /-- The line break behind the last line. -/
  last : Text := []
  /-- The line breaks of the empty lines behind it. -/
  empty : Text := []
  /-- Whether the last line starts with a gap. -/
  indented : Bool := false
  deriving DecidableEq, Repr

/-- Adds a line, joined to the one before as the style asks for. -/
def Block.add (b : Block) (literal : Bool) (line separator : Text) : Block :=
  let indented := line.head?.any isGap
  let joint :=
    if !literal && b.last.head? = some '\n' && !b.indented && !indented then
      (if b.empty.isEmpty then [' '] else [])
    else b.last
  { text := b.text ++ joint ++ b.empty ++ line, last := separator, indented }

/-- Reads the lines of a block scalar with the given indentation. -/
def blockFrom (literal : Bool) (indent : Nat) : Nat → Cursor → Block → Option (Block × Cursor)
  | 0, _, _ => none
  | n + 1, p, b =>
    if p.column = indent && !p.rest.isEmpty then
      let line := p.rest.takeWhile (!isBreak ·)
      let p := p.past line
      let b := b.add literal line p.breakHere
      match emptyLines 1 (p.rest.length + 1) p.skipBreak (some indent) 0 [] with
      | some (_, empty, p) => blockFrom literal indent n p { b with empty }
      | none => none
    else some (b, p)

/-- Reads a block scalar at its indicator, inside a block of the given indentation, if any. -/
def block? (literal : Bool) (outer : Option Nat) (p : Cursor) : Option (Text × Cursor) := do
  let (chomping, indent, p) ← header? p.next
  let p := p.skipWhile isGap
  let p := if p.rest.head? = some '#' then p.skipWhile (!isBreak ·) else p
  if !atLineEnd p.rest then none else
    let p := p.skipBreak
    let least := max 1 ((outer.map (· + 1)).getD 0)
    let indent := indent.map (outer.getD 0 + ·)
    let (indent, empty, p) ← emptyLines least (p.rest.length + 1) p indent 0 []
    let (b, p) ← blockFrom literal indent (p.rest.length + 1) p { empty }
    let tail := match chomping with
      | .strip => []
      | .clip => b.last
      | .keep => b.last ++ b.empty
    return (b.text ++ tail, p)

end SettingsScan.Yaml.Scalar
