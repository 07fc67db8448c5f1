/-
The text of a double. The digits are the shortest ones that read back; from 10⁻⁴ up to below 10¹⁶
they stand around a point with at least one digit on either side, and otherwise in front of a
power of ten.
-/
import LetLint.Number.Shortest

namespace LetLint.Number

/-- The powers of ten of a first digit that is still written around a point. -/
def positionalFrom : Int := -4

/-- The first power of ten of a first digit that is no longer written around a point. -/
def positionalBelow : Int := 16

/-- Digits with the point after the first `lead + 1` of them; missing places are zeros. -/
def positional (digits : List Char) (lead : Int) : List Char :=
  if lead < 0 then
    ['0', '.'] ++ List.replicate (-lead - 1).toNat '0' ++ digits
  else
    let whole := lead.toNat + 1
    let fraction := digits.drop whole
    digits.take whole ++ List.replicate (whole - digits.length) '0' ++ ['.'] ++
      (if fraction.isEmpty then ['0'] else fraction)

/-- Digits in front of a power of ten, with a point after the first one unless it is alone. -/
def scientific (digits : List Char) (lead : Int) : List Char :=
  digits.take 1 ++ (if digits.length ≤ 1 then [] else '.' :: digits.drop 1) ++
    ['e'] ++ (toString lead).toList

/-- A decimal in the notation that the power of ten of its first digit asks for. -/
def Decimal.text (d : Decimal) : String :=
  let digits := Nat.toDigits 10 d.digits
  let lead := d.exponent + (digits.length : Int) - 1
  String.ofList <|
    if positionalFrom ≤ lead ∧ lead < positionalBelow then positional digits lead
    else scientific digits lead

/-- The text of a double. -/
def Binary64.text : Binary64 → String
  | .infinite => "inf"
  | .finite mantissa exponent =>
    if mantissa = 0 then "0.0" else (shortest mantissa exponent).text

end LetLint.Number
