import SettingsScan.Pattern.CharSet

/-! # Patterns and their matches

A pattern matches from a place in a text in several ways, listed in the order of preference:
the first branch of an alternative before the second, more repetitions before fewer when greedy.
The match is the first way.
-/

namespace SettingsScan.Pattern

/-- Conditions on the characters around a place. -/
inductive Look where
  | textStart | textEnd
  | lineStart | lineEnd
  | lineStartCRLF | lineEndCRLF
  | wordEdge | notWordEdge
  | wordStart | wordEnd
  | wordStartHalf | wordEndHalf
  deriving DecidableEq, Repr

inductive Node where
  | empty
  | one (set : CharSet)
  | look (condition : Look)
  | group (index : Nat) (body : Node)
  | seq (first second : Node)
  | alt (first second : Node)
  | loop (least : Nat) (most : Option Nat) (greedy : Bool) (body : Node)
  deriving DecidableEq, Repr

/-- A place in a text: how much is behind it, the character before it, what follows, and the
groups closed so far, the latest first. -/
structure Place where
  passed : Nat
  last : Option Char
  rest : Text
  spans : List (Nat × Nat × Nat)
  deriving DecidableEq, Repr

namespace Look

def holds (look : Look) (last next : Option Char) : Bool :=
  let before := last.any CharSet.word.contains
  let after := next.any CharSet.word.contains
  match look with
  | textStart => last.isNone
  | textEnd => next.isNone
  | lineStart => last.isNone || last == some '\n'
  | lineEnd => next.isNone || next == some '\n'
  | lineStartCRLF =>
    last.isNone || last == some '\n' || (last == some '\r' && next != some '\n')
  | lineEndCRLF =>
    next.isNone || next == some '\r' || (next == some '\n' && last != some '\r')
  | wordEdge => before != after
  | notWordEdge => before == after
  | wordStart => !before && after
  | wordEnd => before && !after
  | wordStartHalf => !before
  | wordEndHalf => !after

end Look

namespace Place

def start (t : Text) : Place :=
  { passed := 0, last := none, rest := t, spans := [] }

/-- The place behind the next character. -/
def advance (p : Place) (c : Char) (rest : Text) : Place :=
  { p with passed := p.passed + 1, last := some c, rest }

/-- Closes a group that was opened at the given place. -/
def close (index opened : Nat) (p : Place) : Place :=
  { p with spans := (index, opened, p.passed) :: p.spans }

/-- The piece of the text that a group covers; group 0 is all that was passed. -/
def group? (t : Text) (index : Nat) (p : Place) : Option Text :=
  if index = 0 then some (t.take p.passed)
  else (p.spans.find? (·.1 = index)).map fun (_, opened, closed) =>
    (t.drop opened).take (closed - opened)

end Place

/-- A way to go on from a place, or ways. -/
abbrev Step := Place → List Place

namespace Step

/-- Going on or staying, in the order that greed asks for. -/
def orStay (greedy : Bool) (ways : List Place) (p : Place) : List Place :=
  if greedy then ways ++ [p] else p :: ways

/-- Further rounds, each of which passes a character; the fuel is the length of the rest. -/
def more (greedy : Bool) (step : Step) : Nat → Step
  | 0, p => [p]
  | n + 1, p =>
    orStay greedy (((step p).filter (p.passed < ·.passed)).flatMap (more greedy step n)) p

/-- One round, and further ones unless it passed nothing. -/
def oneOrMore (greedy : Bool) (step : Step) : Step := fun p =>
  (step p).flatMap fun q =>
    if q.passed = p.passed then [q] else more greedy step q.rest.length q

def times (step : Step) : Nat → Step
  | 0, p => [p]
  | n + 1, p => (step p).flatMap (times step n)

def upTo (greedy : Bool) (step : Step) : Nat → Step
  | 0, p => [p]
  | n + 1, p => orStay greedy ((step p).flatMap (upTo greedy step n)) p

def loop (least : Nat) (most : Option Nat) (greedy : Bool) (step : Step) : Step := fun p =>
  match least, most with
  | 0, none => orStay greedy (oneOrMore greedy step p) p
  | n + 1, none => (times step n p).flatMap (oneOrMore greedy step)
  | n, some m => (times step n p).flatMap (upTo greedy step (m - n))

end Step

namespace Node

/-- The places a match from the given place can end at, in the order of preference. -/
def ways : Node → Step
  | empty, p => [p]
  | one set, p =>
    match p.rest with
    | [] => []
    | c :: rest => if set.contains c then [p.advance c rest] else []
  | look condition, p => if condition.holds p.last p.rest.head? then [p] else []
  | group index body, p => (body.ways p).map (Place.close index p.passed)
  | seq a b, p => (a.ways p).flatMap b.ways
  | alt a b, p => a.ways p ++ b.ways p
  | loop least most greedy body, p => Step.loop least most greedy body.ways p

/-- The match at the start of a text. -/
def match? (n : Node) (t : Text) : Option Place :=
  (n.ways (Place.start t)).head?

/-! ### Building patterns -/

def char (c : Char) : Node := one (.single c)

/-- The parts one after the other. -/
def concat : List Node → Node
  | [] => empty
  | [n] => n
  | n :: more => seq n (concat more)

/-- The branches in order of preference; without a branch nothing matches. -/
def choice : List Node → Node
  | [] => one .empty
  | [n] => n
  | n :: more => alt n (choice more)

/-- The characters of a text in order. -/
def literal (t : Text) : Node := concat (t.map char)

/-- Any number of rounds, as many as possible. -/
def many (n : Node) : Node := loop 0 none true n

def some_ (n : Node) : Node := loop 1 none true n

def opt (n : Node) : Node := loop 0 (some 1) true n

/-- The pattern with other numbers for its groups. -/
def shift (k : Nat) : Node → Node
  | empty => empty
  | one set => one set
  | look condition => look condition
  | group index body => group (k + index) (body.shift k)
  | seq a b => seq (a.shift k) (b.shift k)
  | alt a b => alt (a.shift k) (b.shift k)
  | loop least most greedy body => loop least most greedy (body.shift k)

/-- Searches a text for the pattern: as little as possible is passed in front of it. What the
pattern itself matches is the first group, and its own groups follow. -/
def leftmost (n : Node) : Node :=
  seq (loop 0 none false (one .all)) (group 1 (n.shift 1))

theorem ways_empty (p : Place) : ways empty p = [p] := rfl

theorem ways_seq (a b : Node) (p : Place) : ways (seq a b) p = (a.ways p).flatMap b.ways := rfl

theorem ways_alt (a b : Node) (p : Place) : ways (alt a b) p = a.ways p ++ b.ways p := rfl

theorem ways_group (i : Nat) (n : Node) (p : Place) :
    ways (group i n) p = (n.ways p).map (Place.close i p.passed) := rfl

theorem ways_one_nil (s : CharSet) (p : Place) (h : p.rest = []) : ways (one s) p = [] := by
  simp [ways, h]

theorem ways_one_cons (s : CharSet) (p : Place) (c : Char) (r : Text) (h : p.rest = c :: r) :
    ways (one s) p = if s.contains c then [p.advance c r] else [] := by
  simp [ways, h]

end Node

end SettingsScan.Pattern
