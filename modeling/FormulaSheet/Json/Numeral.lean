import FormulaSheet.Decimal.Reader
import FormulaSheet.Json.Error
import FormulaSheet.Json.Value

/-!
# FormulaSheet — JSON numbers

A numeral is first read as characters and then given a value. Values are not always the
nearest doubles: the digits are gathered in a significand of 64 bits, those beyond it are
dropped, and the significand is scaled by one power of ten.
-/

namespace FormulaSheet.Json

open Decimal (isDigit digitValue)

/-! ## Shape -/

/-- The parts of a numeral. -/
structure Numeral where
  negative : Bool
  whole : List Char
  /-- The digits behind the point, if there is one. -/
  fraction : Option (List Char)
  /-- The sign and the digits of the exponent, if there is one; `true` is a minus. -/
  exponent : Option (Bool × List Char)
deriving DecidableEq, Repr

/-- At least one digit; `atEnd` is the error if the text ends before it. -/
def readDigits (atEnd : Error) : List Char → Except Error (List Char × List Char)
  | [] => .error atEnd
  | c :: rest =>
    if isDigit c then .ok (c :: rest.takeWhile isDigit, rest.dropWhile isDigit)
    else .error .malformed

/-- The digits before the point. A leading zero stands alone. -/
def readWhole (atEnd : Error) (cs : List Char) : Except Error (List Char × List Char) :=
  match readDigits atEnd cs with
  | .ok ('0' :: _ :: _, _) => .error .malformed
  | result => result

/-- The point and the digits behind it, if there is a point. -/
def readFraction (atEnd : Error) :
    List Char → Except Error (Option (List Char) × List Char)
  | '.' :: rest => (readDigits atEnd rest).map fun (ds, after) => (some ds, after)
  | cs => .ok (none, cs)

/-- The exponent, if there is one. -/
def readExponent (atEnd : Error) :
    List Char → Except Error (Option (Bool × List Char) × List Char)
  | [] => .ok (none, [])
  | c :: rest =>
    if c = 'e' ∨ c = 'E' then
      let (negative, cs) := Decimal.splitSign rest
      (readDigits atEnd cs).map fun (ds, after) => (some (negative, ds), after)
    else .ok (none, c :: rest)

/-- Reads the characters of a numeral. `atEnd` is the error if the text ends where a digit
has to stand. -/
def Numeral.read (atEnd : Error) (cs : List Char) : Except Error (Numeral × List Char) := do
  let (negative, cs) := match cs with
    | '-' :: rest => (true, rest)
    | cs => (false, cs)
  let (whole, cs) ← readWhole atEnd cs
  let (fraction, cs) ← readFraction atEnd cs
  let (exponent, cs) ← readExponent atEnd cs
  return (⟨negative, whole, fraction, exponent⟩, cs)

/-! ## Value -/

/-- Significands stay below this. -/
def significandLimit : Nat := Decimal.twoTo 64

/-- Appends digits to a significand while it stays below the limit. The result tells how
many digits were dropped; after the first of them all are. -/
def gather (significand : Nat) (ds : List Char) : Nat × Nat :=
  match ds with
  | [] => (significand, 0)
  | d :: rest =>
    let longer := 10 * significand + digitValue d
    if longer < significandLimit then gather longer rest else (significand, ds.length)

/-- The largest power of ten that is taken in one step. -/
def largestPower : Nat := 308

def powerOfTen (e : Nat) : Float := Decimal.nearest 1 e

/-- `x · 10 ^ e`, by one multiplication or division where the power of ten is a double; a
smaller number is brought within reach first. A result out of range is an error. -/
def scale (x : Float) (e : Int) : Except Error Float :=
  if e.natAbs ≤ largestPower then
    if 0 ≤ e then
      let y := x * powerOfTen e.natAbs
      if y.isInf then .error .malformed else .ok y
    else .ok (x / powerOfTen e.natAbs)
  else if x == 0.0 then .ok x
  else if 0 ≤ e then .error .malformed
  else scale (x / powerOfTen largestPower) (e + largestPower)
termination_by (-e).toNat
decreasing_by simp only [largestPower] at *; omega

/-- The double with a sign put in front. -/
def withSign (negative : Bool) (x : Float) : Float := if negative then -x else x

/-- A scaled significand as a number. -/
def scaled (negative : Bool) (significand : Nat) (e : Int) : Except Error Number :=
  (scale (Decimal.nearest significand 0) e).map fun x => .double (withSign negative x)

/-- An integer without digits dropped. What fits neither the unsigned nor the signed range of
64 bits is a double, and so is the negative zero. -/
def ofSignificand (negative : Bool) (significand : Nat) : Number :=
  if negative then
    if significand = 0 ∨ Decimal.twoTo 63 < significand then .double (-Decimal.nearest significand 0)
    else .integer (-(significand : Int))
  else .integer significand

/-- Exponents beyond this make every number zero or infinite. -/
def exponentLimit : Nat := Decimal.twoTo 31

/-- The value of a numeral, if it is in range. -/
def Numeral.value (n : Numeral) : Except Error Number :=
  let (first, dropped) := gather 0 n.whole
  let fraction := n.fraction.getD []
  let (significand, droppedFraction) := gather first fraction
  -- a digit dropped before the point weighs ten, and one kept behind it a tenth
  let shift : Int := dropped - (fraction.length - droppedFraction : Nat)
  match n.fraction, n.exponent with
  | none, none =>
    if dropped = 0 then .ok (ofSignificand n.negative significand)
    else scaled n.negative significand shift
  | _, none => scaled n.negative significand shift
  | _, some (negative, ds) =>
    let e := Decimal.valueOf ds
    if e < exponentLimit then
      -- the power of ten may still be out of range, which `scale` finds out
      scaled n.negative significand (if negative then shift - e else shift + e)
    else if significand ≠ 0 ∧ !negative then .error .malformed
    else .ok (.double (withSign n.negative 0.0))

def readNumber (cs : List Char) : Except Error (Number × List Char) := do
  let (n, rest) ← Numeral.read .truncated cs
  return (← n.value, rest)

end FormulaSheet.Json
