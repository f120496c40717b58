import PycListing.Decimal.Binary64

/-! # Shortest decimals

The fewest decimal digits that denote a double: among the decimals that round to it, one on the
coarsest grid of multiples of a power of ten, and the nearest to it on that grid. A tie goes to
the larger magnitude.
-/

namespace PycListing.Decimal

/-- The decimal `coefficient * 10 ^ exponent`. -/
structure Shortest where
  coefficient : Nat
  exponent : Int
  deriving DecidableEq, Repr

/-- A positive double in quarters of its unit, with the ends of the interval of numbers that
round to it; `closed` tells that the ends do so too. -/
structure Interval where
  value : Nat
  low : Nat
  high : Nat
  exponent : Int
  closed : Bool

/-- The interval that rounds to `mantissa * 2 ^ exponent`. -/
def Interval.around (mantissa : Nat) (exponent : Int) (narrow : Bool) : Interval where
  value := 4 * mantissa
  low := 4 * mantissa - (if narrow then 1 else 2)
  high := 4 * mantissa + 2
  exponent := exponent - 2
  closed := mantissa % 2 == 0

namespace Interval

/-- The coefficient of the multiple of `10 ^ grid` that lies in the interval, the nearer to the
value of its two neighbours on that grid if both do. -/
def onGrid? (interval : Interval) (grid : Int) : Option Nat :=
  let scale := Nat.pow 2 interval.exponent.toNat * Nat.pow 10 (-grid).toNat
  let unit := Nat.pow 2 (-interval.exponent).toNat * Nat.pow 10 grid.toNat
  let inside (coefficient : Nat) : Bool :=
    if interval.closed then
      interval.low * scale ≤ coefficient * unit && coefficient * unit ≤ interval.high * scale
    else
      interval.low * scale < coefficient * unit && coefficient * unit < interval.high * scale
  let below := interval.value * scale / unit
  let rest := 2 * (interval.value * scale % unit)
  match inside below, inside (below + 1) with
  | false, false => none
  | true, false => some below
  | false, true => some (below + 1)
  | true, true => if rest < unit then some below else some (below + 1)

/-- The first hit on the grids from `10 ^ grid` downwards. -/
def descend (interval : Interval) : Nat → Int → Shortest
  | 0, grid => ⟨interval.value, grid⟩
  | steps + 1, grid =>
    match interval.onGrid? grid with
    | some coefficient => ⟨coefficient, grid⟩
    | none => interval.descend steps (grid - 1)

end Interval

/-- The shortest decimal of the positive double `mantissa * 2 ^ exponent`. No double reaches
`10 ^ 309`, and every one is within half a unit of some multiple of `10 ^ -326`. -/
def shortest (mantissa : Nat) (exponent : Int) (narrow : Bool) : Shortest :=
  (Interval.around mantissa exponent narrow).descend 640 309

end PycListing.Decimal
