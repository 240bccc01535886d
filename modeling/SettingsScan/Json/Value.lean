import SettingsScan.Text.Blank

/-! # JSON values -/

namespace SettingsScan.Json

/-- A number is a natural number of 64 bits, a negative one of 64 bits, or a float by its bits. -/
inductive Number where
  | natural (n : Nat)
  | negative (n : Nat)
  | float (bits : UInt64)
  deriving DecidableEq, Repr

inductive Value where
  | null
  | bool (b : Bool)
  | number (n : Number)
  | string (t : Text)
  | array (items : List Value)
  | object (fields : List (Text × Value))
  deriving Repr

/-- The fields of an object with one more; a later field of the same name takes the place of the
earlier one. -/
def putField (fields : List (Text × Value)) (name : Text) (v : Value) : List (Text × Value) :=
  if fields.any (·.1 = name) then fields.map fun f => if f.1 = name then (name, v) else f
  else fields ++ [(name, v)]

namespace Value

def field? (v : Value) (name : Text) : Option Value :=
  match v with
  | object fields => fields.lookup name
  | _ => none

def text (t : Text) : Value := string t

def nat (n : Nat) : Value := number (.natural n)

end Value

end SettingsScan.Json
