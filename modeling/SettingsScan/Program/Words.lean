import SettingsScan.Text.Blank

/-! # Words of a command line

Switches have a long and a short spelling; they count, take a value or ask for a text about the
program. The value of a switch is settled when the next switch begins or the words end, so that of
two faults the later one may be told first.
-/

namespace SettingsScan.Program

/-- What giving a switch does. -/
inductive Effect where
  | count
  | value
  | help
  | version
  deriving DecidableEq, Repr

structure Switch where
  name : Text
  letter : Char
  effect : Effect
  deriving DecidableEq, Repr

/-- A level of the command line: its switches, and the commands which open the next level. -/
structure Level where
  switches : List Switch
  commands : List Text := []
  deriving DecidableEq, Repr

/-- Why a command line is not acted on. The first three are answered with a text. -/
inductive Refusal where
  | help
  | version
  | helpInsteadOfNothing
  | unknownArgument
  | invalidCommand
  | missingCommand
  /-- A switch without its value. -/
  | missingValue
  /-- A value for a switch that takes none. -/
  | unwantedValue
  /-- A second value for a switch. -/
  | repeatedValue
  deriving DecidableEq, Repr

/-- The switches given so far: those that count, once for each time, and those with a value. -/
structure Given where
  counted : List Text := []
  values : List (Text × Text) := []
  deriving DecidableEq, Repr

namespace Given

def isEmpty (g : Given) : Bool :=
  g.counted.isEmpty && g.values.isEmpty

def count (g : Given) (name : Text) : Nat :=
  g.counted.count name

def value? (g : Given) (name : Text) : Option Text :=
  g.values.lookup name

def set (g : Given) (name value : Text) : Except Refusal Given :=
  if (g.value? name).isSome then .error .repeatedValue
  else .ok { g with values := g.values ++ [(name, value)] }

end Given

/-- The state between two words. A pending switch waits for its value, or has it and is not
settled yet. -/
structure Reading where
  given : Given := {}
  pending : Option (Text × Option Text) := none
  deriving DecidableEq, Repr

namespace Reading

def isAwaiting (r : Reading) : Bool :=
  match r.pending with
  | some (_, none) => true
  | _ => false

/-- Settles the pending switch. -/
def settle (r : Reading) : Except Refusal Given :=
  match r.pending with
  | none => .ok r.given
  | some (_, none) => .error .missingValue
  | some (name, some value) => r.given.set name value

/-- Hands a word to the pending switch. -/
def supply (r : Reading) (value : Text) : Reading :=
  { r with pending := r.pending.map fun (name, _) => (name, some value) }

/-- Gives a switch without a value of its own word. -/
def give (r : Reading) (s : Switch) : Except Refusal Reading := do
  let given ← r.settle
  match s.effect with
  | .count => .ok { given := { given with counted := s.name :: given.counted } }
  | .value => .ok { given, pending := some (s.name, none) }
  | .help => .error .help
  | .version => .error .version

/-- Gives a switch together with its value. -/
def giveWith (r : Reading) (s : Switch) (value : Text) : Except Refusal Reading :=
  match s.effect with
  | .value => do
    let given ← r.settle
    return { given := ← given.set s.name value }
  | _ => .error .unwantedValue

end Reading

namespace Level

variable (level : Level)

/-- Reads what follows two dashes: a name, or a name and a value behind an equals sign. -/
def readName (r : Reading) (word : Text) : Except Refusal Reading :=
  let (name, value) : Text × Option Text :=
    match Text.cut? (· = '=') word with
    | some (name, value) => (name, some value)
    | none => (word, none)
  match level.switches.find? (·.name = name), value with
  | none, _ => .error .unknownArgument
  | some s, none => r.give s
  | some s, some value => r.giveWith s value

/-- Reads what follows one dash: letters of switches, the last of which may be followed by its
value, with or without an equals sign. -/
def readLetters (r : Reading) : List Char → Except Refusal Reading
  | [] => .ok r
  | c :: more =>
    match level.switches.find? (·.letter = c) with
    | none => .error .unknownArgument
    | some s =>
      if s.effect = .value ∧ more ≠ [] then
        r.giveWith s ((Text.strip? "=" more).getD more)
      else do
        readLetters (← r.give s) more

/-- The refusal of a word that is no switch, no value and no command. -/
def stray : Refusal :=
  if level.commands.isEmpty then .unknownArgument else .invalidCommand

/-- The refusal of a word behind `--`. -/
def strayBehindDashes (word : Text) : Refusal :=
  if level.commands.contains word then .unknownArgument else level.stray

/-- Where the words of a level end: at the end of all, or at a command, with its words. -/
structure Stop where
  reading : Reading
  next : Option (Text × List Text) := none
  deriving DecidableEq, Repr

/-- Reads words up to the first command. -/
def read (r : Reading) : List Text → Except Refusal Stop
  | [] => .ok { reading := r }
  | word :: more =>
    if !r.isAwaiting && level.commands.contains word then
      .ok { reading := r, next := some (word, more) }
    else
      match word with
      | ['-', '-'] =>
        match more with
        | [] => .ok { reading := r }
        | first :: _ => .error (level.strayBehindDashes first)
      | '-' :: '-' :: name => do read (← level.readName r name) more
      | '-' :: c :: letters => do read (← level.readLetters r (c :: letters)) more
      | _ => if r.isAwaiting then read (r.supply word) more else .error level.stray

end Level

end SettingsScan.Program
