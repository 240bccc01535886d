import SettingsScan.Text.Blank

/-! # Sets of characters

A set is kept as the expression it was written as: ranges, unions, complements, and the closure
under swapping the case of ASCII letters.
-/

namespace SettingsScan.Pattern

inductive CharSet where
  | empty
  | range (low high : Char)
  | union (first second : CharSet)
  | complement (body : CharSet)
  | foldCase (body : CharSet)
  deriving DecidableEq, Repr

/-- The ASCII letter of the other case; any other character is kept. -/
def swapCase (c : Char) : Char :=
  if c.isUpper then c.toLower else if c.isLower then c.toUpper else c

namespace CharSet

def contains : CharSet → Char → Bool
  | empty, _ => false
  | range low high, c => low ≤ c && c ≤ high
  | union a b, c => a.contains c || b.contains c
  | complement a, c => !a.contains c
  | foldCase a, c => a.contains c || a.contains (swapCase c)

def single (c : Char) : CharSet :=
  range c c

def ofRanges (ranges : List (Char × Char)) : CharSet :=
  ranges.foldr (fun (low, high) set => union (range low high) set) empty

/-! ### The ranges of a set -/

/-- Adds a range to ranges in order, no two of which touch. -/
def addRange (low high : Nat) : List (Nat × Nat) → List (Nat × Nat)
  | [] => [(low, high)]
  | (first, last) :: more =>
    if high + 1 < first then (low, high) :: (first, last) :: more
    else if last + 1 < low then (first, last) :: addRange low high more
    else addRange (min low first) (max high last) more

def lastCode : Nat := 0x10FFFF

/-- No character has the code of a surrogate. -/
def codeAfter (code : Nat) : Nat :=
  if code = 0xD7FF then 0xE000 else code + 1

def codeBefore (code : Nat) : Nat :=
  if code = 0xE000 then 0xD7FF else code - 1

/-- What is left behind a range and between the ranges that follow it. -/
def gapsBehind (last : Nat) : List (Nat × Nat) → List (Nat × Nat)
  | [] => if last < lastCode then [(codeAfter last, lastCode)] else []
  | (first, next) :: more => (codeAfter last, codeBefore first) :: gapsBehind next more

def gaps : List (Nat × Nat) → List (Nat × Nat)
  | [] => [(0, lastCode)]
  | (first, last) :: more =>
    (if 0 < first then [(0, codeBefore first)] else []) ++ gapsBehind last more

/-- The ASCII letters of a range, in the other case. -/
def swapRange (low high : Nat) : List (Nat × Nat) :=
  let small := (max low 'a'.toNat, min high 'z'.toNat)
  let capital := (max low 'A'.toNat, min high 'Z'.toNat)
  (if small.1 ≤ small.2 then [(small.1 - 32, small.2 - 32)] else []) ++
    (if capital.1 ≤ capital.2 then [(capital.1 + 32, capital.2 + 32)] else [])

/-- The ranges of codes in a set, in order and joined where they touch. -/
def ranges : CharSet → List (Nat × Nat)
  | empty => []
  | range low high => [(low.toNat, high.toNat)]
  | union a b => b.ranges.foldl (fun all (low, high) => addRange low high all) a.ranges
  | complement a => gaps a.ranges
  | foldCase a =>
    let swapped := a.ranges.flatMap fun (low, high) => swapRange low high
    swapped.foldl (fun all (low, high) => addRange low high all) a.ranges

/-! ### Named sets -/

def digit : CharSet := range '0' '9'

def space : CharSet := union (range '\t' '\r') (single ' ')

def word : CharSet := ofRanges [('0', '9'), ('A', 'Z'), ('_', '_'), ('a', 'z')]

/-- Everything but the line feed. -/
def notNewline : CharSet := complement (single '\n')

def all : CharSet := complement empty

/-- The named classes of a bracketed set. -/
def named? (name : Text) : Option CharSet :=
  match String.ofList name with
  | "alnum" => some (ofRanges [('0', '9'), ('A', 'Z'), ('a', 'z')])
  | "alpha" => some (ofRanges [('A', 'Z'), ('a', 'z')])
  | "ascii" => some (range '\x00' '\x7F')
  | "blank" => some (ofRanges [('\t', '\t'), (' ', ' ')])
  | "cntrl" => some (ofRanges [('\x00', '\x1F'), ('\x7F', '\x7F')])
  | "digit" => some digit
  | "graph" => some (range '!' '~')
  | "lower" => some (range 'a' 'z')
  | "print" => some (range ' ' '~')
  | "punct" => some (ofRanges [('!', '/'), (':', '@'), ('[', '\x60'), ('{', '~')])
  | "space" => some space
  | "upper" => some (range 'A' 'Z')
  | "word" => some word
  | "xdigit" => some (ofRanges [('0', '9'), ('A', 'F'), ('a', 'f')])
  | _ => none

@[simp] theorem contains_single (a c : Char) : (single a).contains c = decide (c = a) := by
  simp only [single, contains, ← Bool.decide_and]
  congr 1
  exact propext ⟨fun h => Char.le_antisymm h.2 h.1, fun h => h ▸ ⟨Char.le_refl c, Char.le_refl c⟩⟩

@[simp] theorem contains_complement (a : CharSet) (c : Char) :
    (complement a).contains c = !a.contains c := rfl

@[simp] theorem contains_union (a b : CharSet) (c : Char) :
    (union a b).contains c = (a.contains c || b.contains c) := rfl

theorem contains_space (c : Char) : space.contains c = isAsciiBlank c := by
  simp [space, isAsciiBlank, contains, Bool.or_comm]

end CharSet

end SettingsScan.Pattern
