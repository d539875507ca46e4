/-
Reading decimals: the double nearest to a decimal, of two equally near ones the
one with an even significand. The decimal is a fraction of whole numbers, so
the nearest whole number of units is one division.

The bit patterns of the doubles from zero up count them in order, so a bit
pattern is the units added to the patterns below the unit's range, and rounding
up to the next range, or to infinity, needs no case of its own.
-/
import Lox.Decimal.Binary
import Lox.Text.Blank
import Lox.Text.Digit

namespace Lox.Decimal

/-- The whole number nearest to `num / den`; a half goes to the even neighbour. -/
def roundHalfEven (num den : Nat) : Nat :=
  let low := num / den
  let twice := 2 * (num % den)
  if den < twice || (twice == den && low % 2 == 1) then low + 1 else low

/-- Whether `2 ^ power` is at most `num / den`. -/
def reachesBinary (num den : Nat) (power : Int) : Bool :=
  Nat.pow 2 power.toNat * den ≤ num * Nat.pow 2 (-power).toNat

/-- The power of two of the leading bit of `num / den`. -/
def leadingBinary (num den : Nat) : Int :=
  let guess : Int := (Nat.log2 num : Int) - Nat.log2 den
  if reachesBinary num den guess then guess else guess - 1

/-- The bit pattern of infinity. -/
def infinityBits : Nat := 2047 * Nat.pow 2 storedBits

/-- The bit pattern of the double nearest to `num / den`. -/
def nearestBits (num den : Nat) : Nat :=
  if num = 0 then 0
  else
    let exponent := max leastExponent (leadingBinary num den - storedBits)
    let units := roundHalfEven (num * Nat.pow 2 (-exponent).toNat) (den * Nat.pow 2 exponent.toNat)
    min infinityBits ((exponent - leastExponent).toNat * Nat.pow 2 storedBits + units)

/-- The double nearest to `num / den`. -/
def nearest (num den : Nat) : Float := Float.ofBits (UInt64.ofNat (nearestBits num den))

/-- The double nearest to `digits · 10 ^ exponent`. Decimals far outside the range of doubles are
settled by the place of their leading digit alone. -/
def ofScaled (digits : Nat) (exponent : Int) : Float :=
  let lead : Int := Nat.log2 digits * 30103 / 100000 + exponent
  if digits = 0 || lead < -400 then nearest 0 1
  else if 400 < lead then Float.ofBits (UInt64.ofNat infinityBits)
  else nearest (digits * Nat.pow 10 exponent.toNat) (Nat.pow 10 (-exponent).toNat)

/-- The double nearest to a decimal given by its digits before and behind the point. -/
def ofDigits (whole fraction : List Char) : Float :=
  ofScaled (Text.digitsValue (whole ++ fraction)) (-(fraction.length : Int))

-- ========================================================== decimals as text

/-- A row of digits at the start of a text and what follows it. A single underscore may stand
between two digits; `inside` says that a digit stands before the text. -/
def digitRow (inside : Bool) : List Char → List Char × List Char
  | [] => ([], [])
  | '_' :: d :: rest =>
    if inside && Text.isDigit d then
      let (digits, after) := digitRow true rest
      (d :: digits, after)
    else ([], '_' :: d :: rest)
  | c :: rest =>
    if Text.isDigit c then
      let (digits, after) := digitRow true rest
      (c :: digits, after)
    else ([], c :: rest)

/-- A sign at the start of a text: whether it is negative, and what follows it. -/
def sign : List Char → Bool × List Char
  | '-' :: rest => (true, rest)
  | '+' :: rest => (false, rest)
  | cs => (false, cs)

/-- The exponent at the end of a decimal; nothing unless it is well formed. -/
def exponent? : List Char → Option Int
  | [] => some 0
  | c :: rest =>
    if c == 'e' || c == 'E' then
      let (negative, rest) := sign rest
      match digitRow false rest with
      | ([], _) | (_, _ :: _) => none
      | (digits, []) =>
        let value : Int := Text.digitsValue digits
        some (if negative then -value else value)
    else none

/-- A decimal without its sign. -/
def unsigned? (cs : List Char) : Option Float :=
  let word := String.ofList (cs.map Char.toLower)
  if word == "inf" || word == "infinity" then some (Float.ofBits (UInt64.ofNat infinityBits))
  else if word == "nan" then some (Float.ofBits (UInt64.ofNat (infinityBits + Nat.pow 2 51)))
  else
    let (whole, rest) := digitRow false cs
    let (fraction, rest) :=
      match rest with
      | '.' :: rest => digitRow false rest
      | _ => ([], rest)
    if whole.isEmpty && fraction.isEmpty then none
    else (exponent? rest).map fun e =>
      ofScaled (Text.digitsValue (whole ++ fraction)) (e - fraction.length)

/-- The number that a text writes, blanks around it aside: a sign, digits with a point among them
and an exponent, or the words for infinity and what is not a number. -/
def read? (text : String) : Option Float :=
  let (negative, cs) := sign (Text.trim text.toList)
  (unsigned? cs).map fun x => if negative then -x else x

end Lox.Decimal
