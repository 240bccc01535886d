import SettingsScan.Yaml.Token

/-! # Nodes of a YAML document

The tokens of a document form a tree. Where the tokens end too early or do not fit, a broken leaf
closes every open collection, so that the part in front of the error can still be looked at in its
order.
-/

namespace SettingsScan.Yaml

inductive Node where
  | scalar (tag : Option Text) (style : ScalarStyle) (text : Text)
  | sequence (tag : Option Text) (items : List Node)
  | mapping (tag : Option Text) (pairs : List (Node × Node))
  /-- An alias inside the node that it stands for. -/
  | endless
  | broken
  deriving Repr, Inhabited

namespace Node

/-- The scalar that is meant where nothing is written. -/
def blank : Node := .scalar none .plain []

mutual

/-- Whether there is no broken place in the node. -/
def isWhole : Node → Bool
  | scalar .. => true
  | sequence _ items => areWhole items
  | mapping _ pairs => pairsWhole pairs
  | endless => true
  | broken => false

def areWhole : List Node → Bool
  | [] => true
  | node :: more => node.isWhole && areWhole more

def pairsWhole : List (Node × Node) → Bool
  | [] => true
  | (key, value) :: more => key.isWhole && value.isWhole && pairsWhole more

end

end Node

/-- Where the reading of a document stands. -/
structure TokenReader where
  /-- The tokens left, none after an error. -/
  rest : List Token
  /-- What the handles of tags stand for. -/
  handles : List (Text × Text) := []
  /-- The anchored nodes with their numbers, the last one first. -/
  anchors : List (Text × Nat × Node) := []

abbrev Reading := StateM TokenReader

namespace Reading

def peek : Reading (Option Token) := return (← get).rest.head?

def skip : Reading Unit := modify fun r => { r with rest := r.rest.tail }

/-- Skips the token if it is the next one, and tells whether it was. -/
def skipIf (token : Token) : Reading Bool := do
  if (← peek) = some token then skip; return true else return false

/-- An error: nothing more can be read. -/
def fail : Reading Node := do
  modify fun r => { r with rest := [] }
  return .broken

/-- Whether the next token is one of these. -/
def sees (tokens : List Token) : Reading Bool := do
  match ← peek with
  | some token => return tokens.contains token
  | none => return false

/-- Gives a name to the node that is about to be read, and returns its number. -/
def openAnchor (name : Text) : Reading Nat := do
  let number := (← get).anchors.length
  modify fun r => { r with anchors := (name, number, .endless) :: r.anchors }
  return number

/-- Puts in the node of the anchor with the given number. -/
def closeAnchor (number : Nat) (node : Node) : Reading Unit :=
  modify fun r => { r with anchors := r.anchors.map fun (name, k, old) =>
    (name, k, if k = number then node else old) }

def readAnchor : Reading (Option Text) := do
  match ← peek with
  | some (.anchor name) => skip; return some name
  | _ => return none

def readTag : Reading (Option (Text × Text)) := do
  match ← peek with
  | some (.tag handle suffix) => skip; return some (handle, suffix)
  | _ => return none

/-- The tag that a handle and suffix stand for, if the handle is known. -/
def resolveTag : Option (Text × Text) → Reading (Option (Option Text))
  | none => return some none
  | some ([], suffix) => return some (some suffix)
  | some (handle, suffix) => do
    return ((← get).handles.lookup handle).map fun start => some (start ++ suffix)

/-- The tag of a scalar: a lone exclamation mark says nothing. -/
def scalarTag (tag : Option Text) : Option Text :=
  tag.filter (· ≠ ['!'])

mutual

/-- Reads a node. Block collections are allowed only outside of brackets; a sequence that is not
indented, only as a key or value of a block mapping. -/
def node (block unindented : Bool) : Nat → Reading Node
  | 0 => fail
  | n + 1 => do
    match ← peek with
    | some (.alias name) =>
      match (← get).anchors.lookup name with
      | some (_, target) => skip; return target
      | none => fail
    | _ =>
      let anchor ← readAnchor
      let tag ← readTag
      let anchor ← if anchor.isNone then readAnchor else pure anchor
      match ← resolveTag tag with
      | none => fail
      | some resolved =>
        match anchor with
        | none => content block unindented resolved tag.isSome n
        | some name =>
          let number ← openAnchor name
          let found ← content block unindented resolved true n
          closeAnchor number found
          return found

/-- Reads what follows the anchor and tag of a node, if it has any. -/
def content (block unindented : Bool) (tag : Option Text) (marked : Bool) : Nat → Reading Node
  | 0 => fail
  | n + 1 => do
    match ← peek with
    | some (.scalar style text) =>
      skip
      return .scalar (scalarTag tag) style text
    | some .flowSequenceStart =>
      skip
      return .sequence tag (← flowItems true n)
    | some .flowMappingStart =>
      skip
      return .mapping tag (← flowPairs true n)
    | some .blockEntry =>
      if unindented then return .sequence tag (← unindentedItems n)
      else if marked then return .scalar (scalarTag tag) .plain [] else fail
    | some .blockSequenceStart =>
      if block then do
        skip
        return .sequence tag (← blockItems n)
      else if marked then return .scalar (scalarTag tag) .plain [] else fail
    | some .blockMappingStart =>
      if block then do
        skip
        return .mapping tag (← blockPairs n)
      else if marked then return .scalar (scalarTag tag) .plain [] else fail
    | some _ => if marked then return .scalar (scalarTag tag) .plain [] else fail
    | none => fail

/-- Reads the items of a block sequence, up to its end. -/
def blockItems : Nat → Reading (List Node)
  | 0 => return [← fail]
  | n + 1 => do
    if ← skipIf .blockEntry then
      let item ← if ← sees [.blockEntry, .blockEnd] then pure .blank else node true false n
      return item :: (← blockItems n)
    else if ← skipIf .blockEnd then return []
    else return [← fail]

/-- Reads the items of a sequence that is not indented, up to the first other token. -/
def unindentedItems : Nat → Reading (List Node)
  | 0 => return [← fail]
  | n + 1 => do
    if ← skipIf .blockEntry then
      let item ← if ← sees [.blockEntry, .key, .value, .blockEnd] then pure .blank
        else node true false n
      return item :: (← unindentedItems n)
    else if (← peek).isNone then return [← fail]
    else return []

/-- Reads the pairs of a block mapping, up to its end. -/
def blockPairs : Nat → Reading (List (Node × Node))
  | 0 => return [(← fail, .broken)]
  | n + 1 => do
    if ← skipIf .key then
      let key ← blockOperand n
      let value ← blockValue n
      return (key, value) :: (← blockPairs n)
    else if ← skipIf .blockEnd then return []
    else return [(← fail, .broken)]

/-- Reads what follows the indicator of a key or value in a block mapping. -/
def blockOperand : Nat → Reading Node
  | 0 => fail
  | n + 1 => do
    if ← sees [.key, .value, .blockEnd] then return .blank else node true true n

def blockValue : Nat → Reading Node
  | 0 => fail
  | n + 1 => do
    if ← skipIf .value then blockOperand n
    else if (← peek).isNone then fail
    else return .blank

/-- Reads the items between square brackets. -/
def flowItems (first : Bool) : Nat → Reading (List Node)
  | 0 => return [← fail]
  | n + 1 => do
    if ← skipIf .flowSequenceEnd then return []
    else if first || (← skipIf .flowEntry) then
      if ← skipIf .key then
        let pair ← flowPair n
        return .mapping none [pair] :: (← flowItems false n)
      else if ← skipIf .flowSequenceEnd then return []
      else
        let item ← node false false n
        return item :: (← flowItems false n)
    else return [← fail]

/-- Reads the pair that is an item between square brackets. A key that is left out takes the token
in its place with it. -/
def flowPair : Nat → Reading (Node × Node)
  | 0 => return (← fail, .broken)
  | n + 1 => do
    let key ← if ← sees [.value, .flowEntry, .flowSequenceEnd] then do skip; pure .blank
      else node false false n
    let value ← if ← skipIf .value then
        if ← sees [.flowEntry, .flowSequenceEnd] then pure .blank else node false false n
      else if (← peek).isNone then fail
      else pure .blank
    return (key, value)

/-- Reads the pairs between curly brackets. A node without a key indicator has no value. -/
def flowPairs (first : Bool) : Nat → Reading (List (Node × Node))
  | 0 => return [(← fail, .broken)]
  | n + 1 => do
    if ← skipIf .flowMappingEnd then return []
    else if first || (← skipIf .flowEntry) then
      if ← skipIf .key then
        let key ← if ← sees [.value, .flowEntry, .flowMappingEnd] then pure .blank
          else node false false n
        let value ← if ← skipIf .value then
            if ← sees [.flowEntry, .flowMappingEnd] then pure .blank else node false false n
          else if (← peek).isNone then fail
          else pure .blank
        return (key, value) :: (← flowPairs false n)
      else if ← skipIf .flowMappingEnd then return []
      else
        let key ← node false false n
        return (key, if key.isWhole then .blank else .broken) :: (← flowPairs false n)
    else return [(← fail, .broken)]

end

end Reading

end SettingsScan.Yaml
