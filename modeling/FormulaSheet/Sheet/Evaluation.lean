import FormulaSheet.Buff.Overlay
import FormulaSheet.Sheet.Basic
import FormulaSheet.Sheet.Context

/-!
# FormulaSheet — evaluating a sheet

The rows of a sheet are evaluated from top to bottom. A row sees the names of the rows
above it that evaluated, and of a repeated name the last one. A row that fails leaves an
error under its id and no entry, so a row that needs it fails in turn and all others
evaluate.
-/

namespace FormulaSheet

/-- Evaluates one row against the names known above it and the active modifiers. -/
def Row.evaluate (row : Row) (sums : Aggregation) (context : Context) : Except RowError Entry :=
  if row.name.isEmpty then .error .missingName
  else if row.expression.isEmpty then .error .missingExpression
  else match context.parse row.expression with
    | .error e => .error (.parse e)
    | .ok tree =>
      let shown := overlay sums[row.name]? (context.evaluate tree) tree
      .ok ⟨tree, shown.display, shown.value, shown.buffed⟩

/-- What became of every row. -/
structure Evaluation where
  /-- The entries of the names that evaluated. -/
  context : Context
  /-- The last error under each row id. -/
  errors : Std.ExtTreeMap RowId RowError

namespace Evaluation

def start : Evaluation := ⟨.empty, ∅⟩

/-- Evaluates one more row. -/
def step (sums : Aggregation) (evaluation : Evaluation) (row : Row) : Evaluation :=
  match row.evaluate sums evaluation.context with
  | .ok entry => { evaluation with context := evaluation.context.insert row.name entry }
  | .error e => { evaluation with errors := evaluation.errors.insert row.id e }

/-- Evaluates rows from the given state on. -/
def run (sums : Aggregation) (evaluation : Evaluation) (rows : List Row) : Evaluation :=
  rows.foldl (step sums) evaluation

/-- The value of a name, and `0` if it has none. -/
def targetValue (evaluation : Evaluation) (name : String) : Float :=
  (evaluation.context.value? name).getD 0.0

/-- Did every row evaluate? -/
def isOk (evaluation : Evaluation) : Bool := evaluation.errors.isEmpty

end Evaluation

/-- Evaluates a sheet with some of its buffs on. -/
def Sheet.evaluate (sheet : Sheet) (active : ActivationSet) : Evaluation :=
  Evaluation.run (.collect sheet.buffs active) .start sheet.rows

end FormulaSheet
