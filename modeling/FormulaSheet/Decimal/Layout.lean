import FormulaSheet.Decimal.Shortest
import FormulaSheet.Decimal.Sign

/-!
# FormulaSheet — decimal texts of doubles

A `Layout` fixes how the shortest digits of a double are written: which magnitudes are
written without an exponent, and whether a whole number keeps its point. The program has
two of them, `plainLayout` for messages and tables and `exchangeLayout` for saved documents.
-/

namespace FormulaSheet.Decimal

/-- The choices that a shortest decimal text leaves open. -/
structure Layout where
  /-- Which of two equally near shortest decimals is taken. -/
  tie : Tie
  /-- Is a number with this scientific exponent written without one? -/
  isPlain : Int → Bool
  /-- Does a whole number end in `.0`? -/
  keepsPoint : Bool

/-- Messages and tables never show an exponent, and whole numbers have no point. -/
def plainLayout : Layout where
  tie := .away
  isPlain := fun _ => true
  keepsPoint := false

/-- Saved numbers show an exponent below `1e-5` and from `1e16` on, and else have a point. -/
def exchangeLayout : Layout where
  tie := .toEven
  isPlain := fun e => -5 ≤ e && e ≤ 15
  keepsPoint := true

/-- Digits with the point after the first `position` of them, zeros filled in. -/
def positional (keepsPoint : Bool) (ds : List Char) (position : Int) : List Char :=
  if position ≤ 0 then
    '0' :: '.' :: (zeros (-position).toNat ++ ds)
  else if ds.length ≤ position.toNat then
    ds ++ zeros (position.toNat - ds.length) ++ (if keepsPoint then ['.', '0'] else [])
  else
    ds.take position.toNat ++ '.' :: ds.drop position.toNat

/-- One digit before the point, and a signed exponent. -/
def scientific (ds : List Char) (exponent : Int) : List Char :=
  let mantissa := match ds with
    | d :: rest@(_ :: _) => d :: '.' :: rest
    | whole => whole
  mantissa ++ 'e' :: (if exponent < 0 then '-' else '+') :: digits exponent.natAbs

/-- The text of a decimal without its sign. -/
def Layout.magnitude (layout : Layout) (s : Scientific) : List Char :=
  let ds := digits s.coefficient
  let position := ds.length + s.exponent
  if layout.isPlain (position - 1) then positional layout.keepsPoint ds position
  else scientific ds (position - 1)

/-- The text of `m · 2 ^ q`. -/
def Layout.finite (layout : Layout) (m : Nat) (q : Int) : List Char :=
  layout.magnitude (shortest layout.tie m q)

/-- The text of a double, with a sign if it is negative. -/
def Layout.write (layout : Layout) (x : Float) : String := withMinus layout.finite x

/-- The text of a double, always with a sign. -/
def Layout.writeSigned (layout : Layout) (x : Float) : String := signed layout.finite x

end FormulaSheet.Decimal
