/-
The shortest decimal that reads back as a double: of the decimals with the fewest digits inside
the double's rounding interval, the one nearest to it. Of two at the same distance the greater
is taken.
-/
import LetLint.Number.Binary64

namespace LetLint.Number

/-- A decimal `digits · 10 ^ exponent`. -/
structure Decimal where
  digits : Nat
  exponent : Int
  deriving Repr, DecidableEq

/-- The least `k` with `mantissa · 2 ^ exponent < 10 ^ k`, for a positive mantissa. -/
def decimalPlace (mantissa : Nat) (exponent : Int) : Int :=
  let num := shiftUp mantissa exponent
  let den := shiftUp 1 (-exponent)
  if den ≤ num then ((Nat.toDigits 10 (num / den)).length : Int)
  else 1 - ((Nat.toDigits 10 ((den - 1) / num)).length : Int)

/-- The place of a double among the multiples of a power of ten: `value`, `low` and `high` are
the double and the ends of its rounding interval, `step` is the power of ten, all in one unit. -/
structure Grid where
  value : Nat
  low : Nat
  high : Nat
  step : Nat
  /-- The ends of the interval read back as the double. -/
  closed : Bool

/-- The grid of the multiples of `10 ^ place`. A quarter of the double's last place is the unit
of the interval; below a power of two the interval reaches only half as far. -/
def grid (mantissa : Nat) (exponent place : Int) : Grid :=
  let quarter := shiftUp (Nat.pow 10 (-place).toNat) (exponent - 2)
  let below := if mantissa = leastFullMantissa ∧ leastExponent < exponent then 1 else 2
  { value := 4 * mantissa * quarter
    low := (4 * mantissa - below) * quarter
    high := (4 * mantissa + 2) * quarter
    step := shiftUp (Nat.pow 10 place.toNat) (2 - exponent)
    closed := mantissa % 2 = 0 }

namespace Grid

/-- The `n`-th multiple lies in the rounding interval. -/
def holds (g : Grid) (n : Nat) : Bool :=
  if g.closed then g.low ≤ n * g.step && n * g.step ≤ g.high
  else g.low < n * g.step && n * g.step < g.high

/-- The nearest multiple that lies in the rounding interval: one of the double's two neighbours. -/
def nearest? (g : Grid) : Option Nat :=
  let lower := g.value / g.step
  let upper := lower + 1
  match g.holds lower, g.holds upper with
  | true, true =>
    if g.value - lower * g.step < upper * g.step - g.value then some lower else some upper
  | true, false => some lower
  | false, true => some upper
  | false, false => none

end Grid

/-- Moves zeros at the end of the digits into the exponent, at most `bound` of them. -/
def Decimal.trimZeros : Nat → Decimal → Decimal
  | 0, d => d
  | bound + 1, d =>
    if d.digits % 10 = 0 then Decimal.trimZeros bound ⟨d.digits / 10, d.exponent + 1⟩ else d

/-- The shortest decimal for `mantissa · 2 ^ exponent`, for a positive mantissa; seventeen digits
always suffice. -/
def shortest (mantissa : Nat) (exponent : Int) : Decimal :=
  let top := decimalPlace mantissa exponent
  let candidate? (count : Nat) : Option Decimal :=
    let place := top - (count : Int)
    (grid mantissa exponent place).nearest?.map (⟨·, place⟩)
  let found := (List.range 17).findSome? (fun fewer => candidate? (fewer + 1))
  (found.getD ⟨0, 0⟩).trimZeros 17

end LetLint.Number
