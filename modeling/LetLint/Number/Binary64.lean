/-
Non-negative binary floating-point numbers of double precision, as the nearest ones to fractions.
All arithmetic is exact, on natural numbers.
-/

namespace LetLint.Number

/-- A non-negative double: `mantissa · 2 ^ exponent`, or infinity. -/
inductive Binary64 where
  | finite (mantissa : Nat) (exponent : Int)
  | infinite
  deriving Repr, DecidableEq

/-- The exponent of the smallest doubles. -/
def leastExponent : Int := -1074

/-- The exponent of the largest doubles. -/
def greatestExponent : Int := 971

/-- The least mantissa of 53 bits. -/
def leastFullMantissa : Nat := 0x10000000000000

/-- The least mantissa of 54 bits, which no double has. -/
def mantissaLimit : Nat := 0x20000000000000

/-- `n · 2 ^ k` for a non-negative `k`, and `n` otherwise. -/
def shiftUp (n : Nat) (k : Int) : Nat := n * Nat.pow 2 k.toNat

/-- The greatest `e` with `2 ^ e ≤ num / den`, for positive `num` and `den`. -/
def floorLog2 (num den : Nat) : Int :=
  let e := (num.log2 : Int) - (den.log2 : Int)
  if shiftUp num (-e) < shiftUp den e then e - 1 else e

/-- The natural number nearest to `num / den`; a half goes to the even neighbour. -/
def roundHalfEven (num den : Nat) : Nat :=
  let whole := num / den
  let twice := 2 * (num % den)
  if twice < den then whole
  else if den < twice then whole + 1
  else whole + whole % 2

namespace Binary64

/-- Zero. -/
def zero : Binary64 := .finite 0 leastExponent

/-- A rounded mantissa of at most 53 bits and one: the carry moves into the exponent, and what is
too large is infinite. -/
def ofRounded (mantissa : Nat) (exponent : Int) : Binary64 :=
  let carried := mantissa = mantissaLimit
  let exponent := if carried then exponent + 1 else exponent
  if greatestExponent < exponent then .infinite
  else .finite (if carried then leastFullMantissa else mantissa) exponent

/-- The double nearest to `num / den`, for a positive `den`. -/
def ofRatio (num den : Nat) : Binary64 :=
  if num = 0 then zero
  else
    let exponent := max leastExponent (floorLog2 num den - 52)
    ofRounded (roundHalfEven (shiftUp num (-exponent)) (shiftUp den exponent)) exponent

end Binary64

/-! ## Decimal numerals -/

/-- The value of a digit. -/
def digitValue (c : Char) : Nat := c.toNat - '0'.toNat

/-- The number that digits denote in base ten. -/
def ofDigits (digits : List Char) : Nat :=
  digits.foldl (fun value c => 10 * value + digitValue c) 0

/-- The double nearest to the numeral with these digits before and after the point. -/
def Binary64.ofNumeral (whole fraction : List Char) : Binary64 :=
  .ofRatio (ofDigits (whole ++ fraction)) (Nat.pow 10 fraction.length)

end LetLint.Number
