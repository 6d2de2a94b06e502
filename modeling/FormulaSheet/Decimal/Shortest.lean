import FormulaSheet.Decimal.Datum
import FormulaSheet.Decimal.Digits
import FormulaSheet.Decimal.Rounding

/-!
# FormulaSheet — the shortest decimal of a double

Every real number within half a gap of a double reads back as that double. Among the
decimals in that interval `shortest` takes one with the fewest digits, and among those
the nearest to the double. The search walks the decimal grids from coarse to fine and
stops at the first that has a point in the interval: if a grid has one, one of the two
grid points next to the double is in it.
-/

namespace FormulaSheet.Decimal

/-- The decimal `coefficient · 10 ^ exponent`. -/
structure Scientific where
  coefficient : Nat
  exponent : Int
deriving DecidableEq, Repr

/-- The reals that read back as one double, in units of `2 ^ scale`. -/
structure Interval where
  low : Nat
  middle : Nat
  high : Nat
  scale : Int
  /-- Do the two ends belong to the interval? -/
  closed : Bool
deriving Repr

/-- The interval around `m · 2 ^ q`. The gap below a power of two is half as wide, and the
ends round to the double in the middle when its significand is even. -/
def Interval.around (m : Nat) (q : Int) : Interval where
  low := 4 * m - (if m = twoTo fractionBits ∧ leastExponent < q then 1 else 2)
  middle := 4 * m
  high := 4 * m + 2
  scale := q - 2
  closed := m % 2 == 0

/-- Points `c · 10 ^ k` and `n · 2 ^ scale`, as whole multiples of one unit. -/
structure Grid where
  /-- Units per step of the decimal grid. -/
  decimalStep : Nat
  /-- Units per step of the binary grid. -/
  binaryStep : Nat
deriving Repr

/-- The common unit of the grids `10 ^ k` and `2 ^ scale`. -/
def Grid.of (k scale : Int) : Grid where
  decimalStep := tenTo k.toNat * twoTo (-scale).toNat
  binaryStep := tenTo (-k).toNat * twoTo scale.toNat

/-- Is the decimal grid point `c` in the interval? -/
def Interval.contains (i : Interval) (g : Grid) (c : Nat) : Bool :=
  let point := c * g.decimalStep
  if i.closed then i.low * g.binaryStep ≤ point && point ≤ i.high * g.binaryStep
  else i.low * g.binaryStep < point && point < i.high * g.binaryStep

/-- The decimal grid point in the interval that is nearest to its middle, if there is one. -/
def Interval.hit? (tie : Tie) (i : Interval) (g : Grid) : Option Nat :=
  let below := i.middle * g.binaryStep / g.decimalStep
  -- the interval surrounds its middle, so it reaches one of these two points or none
  match i.contains g below, i.contains g (below + 1) with
  | true, true => some (roundDiv tie (i.middle * g.binaryStep) g.decimalStep)
  | true, false => some below
  | false, true => some (below + 1)
  | false, false => none

/-- Tries the grids `10 ^ k`, `10 ^ (k - 1)`, …. On the last one the point next to the middle
is taken as it is. -/
def Interval.search (tie : Tie) (i : Interval) : Nat → Int → Scientific
  | 0, k => ⟨roundDiv tie (i.middle * (Grid.of k i.scale).binaryStep)
      (Grid.of k i.scale).decimalStep, k⟩
  | tries + 1, k =>
    match i.hit? tie (Grid.of k i.scale) with
    | some c => ⟨c, k⟩
    | none => i.search tie tries (k - 1)

/-- The `p` with `10 ^ (p - 1) ≤ m · 2 ^ q < 10 ^ p`, for a positive `m`. -/
def pointPosition (m : Nat) (q : Int) : Int :=
  let num := m * twoTo q.toNat
  let den := twoTo (-q).toNat
  -- the numbers of digits leave two candidates
  let p : Int := (digits num).length - (digits den).length
  if den * tenTo p.toNat ≤ num * tenTo (-p).toNat then p + 1 else p

/-- Seventeen digits tell any two doubles apart. -/
def enoughDigits : Nat := 17

/-- The shortest decimal that reads back as `m · 2 ^ q`. -/
def shortest (tie : Tie) (m : Nat) (q : Int) : Scientific :=
  if m = 0 then ⟨0, 0⟩
  else (Interval.around m q).search tie enoughDigits (pointPosition m q)

end FormulaSheet.Decimal
