import FormulaSheet.Buff.Basic
import FormulaSheet.Formula.Error

/-!
# FormulaSheet — sheets

A sheet is a chain of named formulas, each of which may refer to those above it, and the
buffs that may be laid over it.
-/

namespace FormulaSheet

abbrev RowId := String

/-- A named formula. -/
structure Row where
  id : RowId
  /-- The name by which rows below refer to it; names may repeat. -/
  name : String
  /-- The formula as it was written. -/
  expression : String
deriving DecidableEq, Repr

/-- A chain of rows, and the buffs that may be laid over it. -/
structure Sheet where
  rows : List Row
  buffs : List Buff
deriving DecidableEq

/-- Why a row has no value. -/
inductive RowError where
  | missingName
  | missingExpression
  /-- Its formula is none, or refers to a name that is not known above it. -/
  | parse (error : ParseError)
deriving DecidableEq, Repr

def RowError.message : RowError → String
  | missingName => "Name required."
  | missingExpression => "Expression required."
  | parse error => error.message

end FormulaSheet
