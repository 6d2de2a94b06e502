import FormulaSheet.Decimal.Reader

/-!
# FormulaSheet — JSON values

The values of JSON. Objects keep their members as a list of pairs: order and repetitions
are part of what was written.
-/

namespace FormulaSheet.Json

/-- A number. Without point and exponent it is an integer as far as 64 bits reach. -/
inductive Number where
  | integer (n : Int)
  | double (x : Float)
deriving DecidableEq

/-- The double nearest to an integer. -/
def doubleOfInt : Int → Float
  | .ofNat n => Decimal.nearest n 0
  | .negSucc n => -Decimal.nearest (n + 1) 0

/-- The number as a double. -/
def Number.toDouble : Number → Float
  | integer n => doubleOfInt n
  | double x => x

/-- A JSON value. -/
inductive Value where
  | null
  | boolean (b : Bool)
  | number (n : Number)
  | string (s : String)
  | array (items : List Value)
  | object (members : List (String × Value))

namespace Value

/-- An integer. -/
def integer (n : Int) : Value := number (.integer n)

/-- A double. JSON has no infinities and no NaN; `null` stands for them. -/
def double (x : Float) : Value :=
  if x.isFinite then number (.double x) else null

end Value

end FormulaSheet.Json
