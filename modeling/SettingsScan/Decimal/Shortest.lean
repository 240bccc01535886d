import SettingsScan.Text.Blank

/-! # Shortest decimals

The shortest decimal that reads back as a binary floating point number: of all decimals in the
interval of the reals that round to the number, one with the fewest digits, and of those the
nearest. All arithmetic is exact.
-/

namespace SettingsScan.Decimal

/-- Decimal digits of a natural number. -/
def digits (n : Nat) : Text :=
  Nat.toDigits 10 n

/-- A natural number times a power of ten. -/
structure Scaled where
  coefficient : Nat
  exponent : Int
  deriving DecidableEq, Repr

/-- The reals that round to a floating point number, as fractions over one denominator. -/
structure Interval where
  low : Nat
  value : Nat
  high : Nat
  denominator : Nat
  /-- The ends belong to the interval. -/
  closed : Bool
  deriving Repr

/-- The interval of the positive number `m * 2 ^ e`. The gap below a power of two is half as
wide as the one above. -/
def interval (m : Nat) (e : Int) (narrowBelow : Bool) : Interval :=
  let up := Nat.pow 2 e.toNat
  { low := (4 * m - if narrowBelow then 1 else 2) * up
    value := 4 * m * up
    high := (4 * m + 2) * up
    denominator := 4 * Nat.pow 2 (-e).toNat
    closed := m % 2 = 0 }

namespace Interval

/-- Whether `c * 10 ^ p` is in the interval. -/
def holds (i : Interval) (c : Nat) (p : Int) : Bool :=
  let x := c * Nat.pow 10 p.toNat * i.denominator
  let scale := Nat.pow 10 (-p).toNat
  if i.closed then i.low * scale ≤ x && x ≤ i.high * scale
  else i.low * scale < x && x < i.high * scale

/-- The exponent of the leading digit. -/
def leading (i : Interval) : Int :=
  if i.denominator ≤ i.value then ((digits (i.value / i.denominator)).length : Int) - 1
  else
    let zeros := (digits (i.denominator / i.value)).length
    if i.denominator ≤ i.value * Nat.pow 10 (zeros - 1) then 1 - (zeros : Int) else -(zeros : Int)

/-- The nearest decimal with the given exponent in the interval, if there is one. -/
def onGrid? (i : Interval) (p : Int) : Option Scaled :=
  let num := i.value * Nat.pow 10 (-p).toNat
  let den := i.denominator * Nat.pow 10 p.toNat
  let below := num / den
  match i.holds below p, i.holds (below + 1) p with
  | false, false => none
  | true, false => some ⟨below, p⟩
  | false, true => some ⟨below + 1, p⟩
  | true, true =>
    let twice := 2 * (num % den)
    if twice < den ∨ (twice = den ∧ below % 2 = 0) then some ⟨below, p⟩ else some ⟨below + 1, p⟩

/-- The first grid, from coarse to fine, that has a decimal in the interval. -/
def shortest (i : Interval) : Scaled :=
  let lead := i.leading
  let found := (List.range 18).findSome? fun (n : Nat) => i.onGrid? (lead - n)
  found.getD ⟨i.value / i.denominator, 0⟩

end Interval

/-- Zeros at the end of the coefficient go into the exponent; the fuel is the number of digits. -/
def Scaled.trimZeros (s : Scaled) : Scaled :=
  let rec go : Nat → Nat → Int → Scaled
    | n + 1, c, p => if c ≠ 0 ∧ c % 10 = 0 then go n (c / 10) (p + 1) else ⟨c, p⟩
    | 0, c, p => ⟨c, p⟩
  go (digits s.coefficient).length s.coefficient s.exponent

/-- The shortest decimal of the positive finite number with the given exponent and fraction
bits. -/
def ofBits (exponent fraction : Nat) : Scaled :=
  let i :=
    if exponent = 0 then interval fraction (-1074) false
    else interval (fraction + Nat.pow 2 52) ((exponent : Int) - 1075) (fraction = 0 ∧ 1 < exponent)
  i.shortest.trimZeros

end SettingsScan.Decimal
