import FormulaSheet.Decimal.Digits
import FormulaSheet.Text.Blank

/-!
# FormulaSheet — doubles read from text

A decimal text denotes a real number, and `nearest` takes the double next to it. A text is
a signed numeral with digits before or after its point and perhaps an exponent, or one of
the words for the infinities and NaN.
-/

namespace FormulaSheet.Decimal

open Text (trim)

def infinity : Float := 1.0 / 0.0

/-- The double nearest to `m · 10 ^ e`. Beyond `10 ^ 310` every double is infinite, and
below `10 ^ -330` zero, so powers out of that range are never formed. -/
def nearest (m : Nat) (e : Int) : Float :=
  let position := (digits m).length + e
  if m = 0 then 0.0
  else if 310 < position then infinity
  else if position < -330 then 0.0
  -- from here on the exponent is small, or the coefficient has as many digits
  else Float.ofScientific m (e < 0) e.natAbs

/-- The double that the digits before and after a decimal point denote. -/
def ofDigits (whole fraction : List Char) : Float :=
  nearest (valueOf (whole ++ fraction)) (-(fraction.length : Int))

/-- Splits a leading sign off; `true` stands for a minus. -/
def splitSign : List Char → Bool × List Char
  | '-' :: cs => (true, cs)
  | '+' :: cs => (false, cs)
  | cs => (false, cs)

/-- The exponent that follows the digits of a numeral, and the end of the text. -/
def readExponent? : List Char → Option Int
  | [] => some 0
  | c :: cs =>
    let (negative, ds) := splitSign cs
    if (c = 'e' ∨ c = 'E') ∧ ds ≠ [] ∧ ds.all isDigit then
      some (if negative then -(valueOf ds : Int) else valueOf ds)
    else none

/-- A numeral without its sign. -/
def readNumeral? (cs : List Char) : Option Float :=
  let whole := cs.takeWhile isDigit
  let (fraction, rest) := match cs.dropWhile isDigit with
    | '.' :: cs => (cs.takeWhile isDigit, cs.dropWhile isDigit)
    | cs => ([], cs)
  if whole = [] ∧ fraction = [] then none
  else (readExponent? rest).map fun e =>
    nearest (valueOf (whole ++ fraction)) (e - fraction.length)

/-- A numeral or a word, without its sign. -/
def readUnsigned? (cs : List Char) : Option Float :=
  let word := cs.map Char.toLower
  if word = "inf".toList ∨ word = "infinity".toList then some infinity
  else if word = "nan".toList then some (0.0 / 0.0)
  else readNumeral? cs

/-- The double that a text denotes, if it is a number text. -/
def readDouble? (cs : List Char) : Option Float :=
  let (negative, cs) := splitSign cs
  (readUnsigned? cs).map fun x => if negative then -x else x

/-- Takes `0` for a NaN, and keeps every other number. -/
def numberOrZero (x : Float) : Float :=
  if x.isNaN then 0.0 else x

/-- The number in a text, blanks around it ignored; `0` if the text holds none. -/
def textOrZero (s : String) : Float :=
  numberOrZero ((readDouble? (trim s.toList)).getD 0.0)

end FormulaSheet.Decimal
