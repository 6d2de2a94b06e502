import FormulaSheet.Buff.Totals
import FormulaSheet.Formula.Basic

/-!
# FormulaSheet — laying modifiers over a row

The modifiers of a row change its value, and they show in its tree: a multiplier as a
factor behind the whole formula, a flat sum as a term behind that. The two are built
apart from each other, the value by arithmetic and the tree by wrapping.
-/

namespace FormulaSheet

/-- A row with its modifiers applied. -/
structure Overlaid where
  value : Float
  /-- The tree to show. -/
  display : Formula
  /-- Does an active modifier target the row? -/
  buffed : Bool
deriving DecidableEq

/-- `left op amount`, where a buff brings both the operator and the amount. -/
def Formula.buffed (left : Formula) (op : Operator) (amount : Float) : Formula :=
  .binary op left (.literal amount .buff) .buff

/-- Puts an operator tree in parentheses, so that a factor applies to all of it. -/
def Formula.asFactor (tree : Formula) : Formula :=
  if tree.isBinary then .group tree else tree

namespace Totals

/-- Shows the multiplier, unless it is zero. -/
def showMultiplier (totals : Totals) (tree : Formula) : Formula :=
  if totals.multiplier != 0.0 then tree.asFactor.buffed .mul (1.0 + totals.multiplier) else tree

/-- Shows the flat sum by its sign and magnitude, unless it is zero. -/
def showFlat (totals : Totals) (tree : Formula) : Formula :=
  if totals.flat != 0.0 then
    tree.buffed (if 0.0 < totals.flat then .add else .sub) totals.flat.abs
  else tree

/-- The tree with both sums shown. -/
def display (totals : Totals) (tree : Formula) : Formula :=
  totals.showFlat (totals.showMultiplier tree)

end Totals

/-- Lays the sums for a row over its value and tree. Without any, both stay as they are. -/
def overlay (totals? : Option Totals) (value : Float) (tree : Formula) : Overlaid :=
  match totals? with
  | none => ⟨value, tree, false⟩
  | some totals => ⟨totals.apply value, totals.display tree, totals.isBuffed⟩

end FormulaSheet
