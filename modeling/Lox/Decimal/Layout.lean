/-
How a double is written: the digits of `Shortest.lean`, laid out by a style. A
style says from which exponent on the exponent is written out, whether a whole
number keeps a fraction of zero, and how infinity and what is not a number are
spelt.

Two styles are in use. `plain` tells numbers from whole numbers in listings of
the syntax tree; `brief` is how a program prints.
-/
import Lox.Decimal.Shortest

namespace Lox.Decimal

/-- The choices that the digits leave open. -/
structure Style where
  /-- The smallest exponent written with leading zeros. -/
  least : Int
  /-- Exponents from here on are written out. -/
  limit : Int
  /-- Whether a whole number ends in a fraction of zero. -/
  keepsFraction : Bool
  undefined : String
  infinite : String

/-- Positional from four zeros behind the point to sixteen digits before it; whole numbers show
that they are numbers by a fraction of zero. -/
def Style.plain : Style := ⟨-4, 16, true, "nan", "inf"⟩

/-- As `plain`, whole numbers without a fraction. -/
def Style.brief : Style := ⟨-4, 16, false, "NaN", "Infinity"⟩

/-- An exponent has a sign and two digits or more. -/
def exponentText (e : Int) : String :=
  let digits := toString e.natAbs
  (if e < 0 then "-" else "+") ++ (if digits.length < 2 then "0" ++ digits else digits)

def zeros (n : Int) : String := String.ofList (List.replicate n.toNat '0')

/-- A decimal in the given style. -/
def Style.layOut (style : Style) (s : Scaled) : String :=
  let digits := toString s.digits
  let point : Int := digits.length + s.exponent
  let lead := point - 1
  if style.least ≤ lead && lead < style.limit then
    if point ≤ 0 then "0." ++ zeros (-point) ++ digits
    else if point < digits.length then
      String.ofList (digits.toList.take point.toNat) ++ "."
        ++ String.ofList (digits.toList.drop point.toNat)
    else digits ++ zeros (point - digits.length) ++ (if style.keepsFraction then ".0" else "")
  else
    let fraction := digits.toList.drop 1
    String.ofList (digits.toList.take 1)
      ++ (if fraction.isEmpty then "" else "." ++ String.ofList fraction)
      ++ "e" ++ exponentText lead

/-- A double in the given style. -/
def Style.write (style : Style) (x : Float) : String :=
  let bits := bitsOf x
  let sign := if isNegative bits then "-" else ""
  match Magnitude.ofBits bits with
  | .undefined => style.undefined
  | .infinite => sign ++ style.infinite
  | .finite 0 _ => sign ++ style.layOut ⟨0, 0⟩
  | .finite units exponent => sign ++ style.layOut (shortest units exponent)

end Lox.Decimal
