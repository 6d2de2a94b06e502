import FormulaSheet.Decimal.Digits

/-!
# FormulaSheet — the exact value of a double

A double is a NaN, an infinity, or a dyadic rational `± m · 2 ^ q`. `Datum.ofFloat`
reads that value off the bits, so that every decimal text of the library is computed
in exact natural-number arithmetic.
-/

namespace FormulaSheet.Decimal

/-- The value that the bits of a double stand for. -/
inductive Datum where
  | nan
  /-- An infinity of the given sign. -/
  | infinite (negative : Bool)
  /-- The number `± significand · 2 ^ exponent`. -/
  | finite (negative : Bool) (significand : Nat) (exponent : Int)
deriving DecidableEq, Repr

/-- Width of the stored fraction of a double. -/
def fractionBits : Nat := 52

/-- The exponent that every subnormal double and the smallest normal ones share. -/
def leastExponent : Int := -1074

/-- Splits the bits of a double into sign, biased exponent and fraction. -/
def Datum.ofBits (bits : Nat) : Datum :=
  let negative : Bool := bits / twoTo 63 % 2 == 1
  let biased : Nat := bits / twoTo fractionBits % twoTo 11
  let fraction : Nat := bits % twoTo fractionBits
  if biased = 2047 then
    if fraction = 0 then .infinite negative else .nan
  else if biased = 0 then
    .finite negative fraction leastExponent
  else
    -- a normal double has a leading bit that is not stored
    .finite negative (twoTo fractionBits + fraction) (leastExponent + biased - 1)

/-- The exact value of a double. -/
def Datum.ofFloat (x : Float) : Datum :=
  Datum.ofBits x.toBits.toNat

/-- A minus sign is shown for everything below zero and for the negative zero. -/
def Datum.isNegative : Datum → Bool
  | .nan => false
  | .infinite negative => negative
  | .finite negative _ _ => negative

end FormulaSheet.Decimal
