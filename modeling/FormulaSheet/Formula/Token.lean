import FormulaSheet.Formula.Operator
import FormulaSheet.Decimal.Layout

/-!
# FormulaSheet — tokens

The words of a formula. A token's text is what messages quote of it.
-/

namespace FormulaSheet

/-- A word of a formula. -/
inductive Token where
  | number (value : Float)
  | name (text : String)
  | operator (op : Operator)
  /-- `^`, which no grammar rule takes. -/
  | caret
  | openParen
  | closeParen
  /-- White space. It stands between words and is none of them. -/
  | blank
deriving DecidableEq

namespace Token

/-- The token as messages quote it: a number with its shortest digits, never with an
exponent. -/
def text : Token → String
  | number value => Decimal.plainLayout.write value
  | name text => text
  | operator op => op.text
  | caret => "^"
  | openParen => "("
  | closeParen => ")"
  | blank => ""

/-- The arithmetic operator that a token stands for. -/
def operator? : Token → Option Operator
  | operator op => some op
  | _ => none

end Token

end FormulaSheet
