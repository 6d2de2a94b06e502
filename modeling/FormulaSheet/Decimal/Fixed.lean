import FormulaSheet.Decimal.Digits
import FormulaSheet.Decimal.Rounding
import FormulaSheet.Decimal.Sign

/-!
# FormulaSheet — doubles with a fixed number of places

The exact value of a double is rounded to a given number of places, a half to the even
neighbour. `formatNumber` is the form in which formulas and listings show a number.
-/

namespace FormulaSheet.Decimal

/-- `m · 2 ^ q` in units of `10 ^ -places`, rounded. -/
def roundedTo (places : Nat) (m : Nat) (q : Int) : Nat :=
  roundDiv .toEven (m * twoTo q.toNat * tenTo places) (twoTo (-q).toNat)

/-- The text of `n · 10 ^ -places` with all its places. -/
def fixedPlaces (places n : Nat) : List Char :=
  digits (n / tenTo places) ++ '.' :: digitsPadded places (n % tenTo places)

/-- A double with `places` places, always with a sign. -/
def writeFixedSigned (places : Nat) (x : Float) : String :=
  signed (fun m q => fixedPlaces places (roundedTo places m q)) x

/-- `n` hundredths; a whole number has no places. -/
def hundredths (n : Nat) : List Char :=
  if n % 100 = 0 then digits (n / 100) else fixedPlaces 2 n

/-- A number as formulas and listings show it: rounded to two places, which a whole
number does not show. -/
def formatNumber (x : Float) : String :=
  withMinus (fun m q => hundredths (roundedTo 2 m q)) x

end FormulaSheet.Decimal
