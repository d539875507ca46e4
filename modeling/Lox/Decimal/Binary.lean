/-
The exact value of a double. A finite double is a whole number of units, the
unit a power of two; everything that reads or writes decimals works on that
pair in whole numbers, so nothing is rounded on the way.
-/

namespace Lox.Decimal

/-- A double taken apart: its sign, and what it measures. -/
inductive Magnitude where
  /-- Not a number. -/
  | undefined
  | infinite
  /-- `units` times two to the power `exponent`. -/
  | finite (units : Nat) (exponent : Int)

/-- Bits of a significand that are stored. -/
def storedBits : Nat := 52

/-- The exponent of the smallest unit. -/
def leastExponent : Int := -1074

/-- The stored exponent field of a bit pattern. -/
def exponentField (bits : Nat) : Nat := bits / Nat.pow 2 storedBits % Nat.pow 2 11

/-- The stored part of the significand of a bit pattern. -/
def significandField (bits : Nat) : Nat := bits % Nat.pow 2 storedBits

/-- Whether a bit pattern has its sign bit set. -/
def isNegative (bits : Nat) : Bool := bits / Nat.pow 2 63 % 2 == 1

/-- What a bit pattern measures, its sign aside. Field 0 holds the values below the first normal
one, which share its unit; the last field holds infinity and what is not a number. -/
def Magnitude.ofBits (bits : Nat) : Magnitude :=
  let field := exponentField bits
  let stored := significandField bits
  if field = 2047 then
    if stored = 0 then .infinite else .undefined
  else if field = 0 then .finite stored leastExponent
  else .finite (stored + Nat.pow 2 storedBits) (leastExponent + field - 1)

/-- The bit pattern of a double. -/
def bitsOf (x : Float) : Nat := x.toBits.toNat

/-- The whole number between zero and a double that is nearest to it: the digits behind the point
are dropped. Nothing for what is infinite or no number. -/
def truncate? (x : Float) : Option Int :=
  match Magnitude.ofBits (bitsOf x) with
  | .finite units exponent =>
    let whole : Nat :=
      if 0 ≤ exponent then units * Nat.pow 2 exponent.toNat else units / Nat.pow 2 (-exponent).toNat
    some (if isNegative (bitsOf x) then -whole else whole)
  | _ => none

end Lox.Decimal
