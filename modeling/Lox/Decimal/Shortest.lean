/-
The shortest decimal that reads back as a given double. Around every double
lies the interval of numbers that round to it; its ends belong to it when the
significand is even. For one digit, two, and so on, the multiples of a power of
ten form a grid; a grid that meets the interval meets it at one of the two
neighbours of the double, so only these are tried. The first grid with a hit
wins, and of two hits the one nearer to the double.
-/
import Lox.Decimal.Binary

namespace Lox.Decimal

/-- A decimal `digits · 10 ^ exponent`. -/
structure Scaled where
  digits : Nat
  exponent : Int

/-- A positive finite double beside a grid of decimals, all over one denominator: the double is
`value / step` grid steps, and `below` and `above` are the ends of its interval in the same
measure. -/
structure Grid where
  value : Nat
  below : Nat
  above : Nat
  step : Nat
  /-- Whether the ends round to the double themselves. -/
  closed : Bool

/-- The double `units · 2 ^ exponent` beside the multiples of `10 ^ power`. Quarters of a unit
express both ends: the lower one is nearer where the unit below is smaller. -/
def Grid.of (units : Nat) (exponent power : Int) : Grid :=
  let narrow := units == Nat.pow 2 storedBits && leastExponent < exponent
  let quarter := Nat.pow 2 (exponent - 2).toNat * Nat.pow 10 (-power).toNat
  { value := 4 * units * quarter
    below := (4 * units - if narrow then 1 else 2) * quarter
    above := (4 * units + 2) * quarter
    step := Nat.pow 2 (2 - exponent).toNat * Nat.pow 10 power.toNat
    closed := units % 2 == 0 }

/-- Whether grid point `n` rounds to the double. -/
def Grid.hits (grid : Grid) (n : Nat) : Bool :=
  let point := n * grid.step
  if grid.closed then grid.below ≤ point && point ≤ grid.above
  else grid.below < point && point < grid.above

/-- The grid point that stands for the double, if one rounds to it; the nearer of two, and of two
equally near ones the even one. -/
def Grid.choose? (grid : Grid) : Option Nat :=
  let low := grid.value / grid.step
  let high := low + 1
  match grid.hits low, grid.hits high with
  | false, false => none
  | true, false => some low
  | false, true => some high
  | true, true =>
    let toLow := grid.value - low * grid.step
    let toHigh := high * grid.step - grid.value
    if toLow < toHigh || (toLow == toHigh && low % 2 == 0) then some low else some high

-- ================================================================= digits

/-- Whether `10 ^ power` is at most `units · 2 ^ exponent`. -/
def reaches (units : Nat) (exponent power : Int) : Bool :=
  Nat.pow 10 power.toNat * Nat.pow 2 (-exponent).toNat
    ≤ units * Nat.pow 2 exponent.toNat * Nat.pow 10 (-power).toNat

/-- The power of ten of the leading digit of `units · 2 ^ exponent`: three tenths of the power of
two, or one more. -/
def leadingPower (units : Nat) (exponent : Int) : Int :=
  let guess := ((Nat.log2 units : Int) + exponent) * 30103 / 100000
  if reaches units exponent (guess + 1) then guess + 1 else guess

/-- Zeros at the end of a row of digits count in the exponent instead. -/
def Scaled.trimmed (fuel : Nat) (s : Scaled) : Scaled :=
  match fuel with
  | 0 => s
  | fuel + 1 =>
    if s.digits % 10 == 0 && s.digits != 0 then
      Scaled.trimmed fuel ⟨s.digits / 10, s.exponent + 1⟩
    else s

/-- The shortest decimal that rounds to the positive double `units · 2 ^ exponent`. Seventeen
digits tell any two doubles apart, so a grid with a hit is found. -/
def shortest (units : Nat) (exponent : Int) : Scaled :=
  let lead := leadingPower units exponent
  let found : Option Scaled := (List.range 17).findSome? fun more : Nat =>
    let power := lead - more
    ((Grid.of units exponent power).choose?).map (⟨·, power⟩)
  (found.getD ⟨units, exponent⟩).trimmed 20

end Lox.Decimal
