import FormulaSheet.Decimal.Datum

/-!
# FormulaSheet — what every text of a double has in common

The sign of a double and the words for NaN and the infinities do not depend on how its
digits are chosen. `signed` and `withMinus` put them around a text of the finite doubles.
-/

namespace FormulaSheet.Decimal

/-- The minus sign of what is below zero, and of the negative zero. -/
def minusSign (d : Datum) : List Char :=
  if d.isNegative then ['-'] else []

/-- A sign in front of every number, the zeros and infinities too; a NaN has none. -/
def eitherSign : Datum → List Char
  | .nan => []
  | d => if d.isNegative then ['-'] else ['+']

/-- A double without its sign; `finite` writes `m · 2 ^ q`. -/
def unsigned (finite : Nat → Int → List Char) : Datum → List Char
  | .nan => ['N', 'a', 'N']
  | .infinite _ => ['i', 'n', 'f']
  | .finite _ m q => finite m q

/-- A double, with a sign if it is negative. -/
def withMinus (finite : Nat → Int → List Char) (x : Float) : String :=
  String.ofList (minusSign (.ofFloat x) ++ unsigned finite (.ofFloat x))

/-- A double, always with a sign. -/
def signed (finite : Nat → Int → List Char) (x : Float) : String :=
  String.ofList (eitherSign (.ofFloat x) ++ unsigned finite (.ofFloat x))

end FormulaSheet.Decimal
