import FormulaSheet.Document.Writing
import FormulaSheet.Main
import FormulaSheet.Proofs.Command.Listing
import FormulaSheet.Proofs.Document.Loosening
import FormulaSheet.Proofs.Document.OwnBuffs
import FormulaSheet.Proofs.Formula.Acceptance
import FormulaSheet.Proofs.Sheet.Slicing
import FormulaSheet.Proofs.Double.Arithmetic
import FormulaSheet.Proofs.Sheet.Equations
import FormulaSheet.Proofs.Sheet.Outline
import FormulaSheet.Proofs.Scenario.Selections
import FormulaSheet.Proofs.Scenario.Toggling
import FormulaSheet.Proofs.Json.Numerals
import FormulaSheet.Proofs.Json.Restoring
import FormulaSheet.Proofs.Document.Resaving
import FormulaSheet.Proofs.Document.Saving
import FormulaSheet.Proofs.Formula.Boundaries
import FormulaSheet.Proofs.Formula.Budget
import FormulaSheet.Proofs.Formula.Completion
import FormulaSheet.Proofs.Formula.MissingNames
import FormulaSheet.Proofs.Formula.Precedence
import FormulaSheet.Proofs.Formula.Printing
import FormulaSheet.Proofs.Formula.Respelling
import FormulaSheet.Proofs.Sheet.Expanding
import FormulaSheet.Proofs.Sheet.Grouping
import FormulaSheet.Proofs.Sheet.MissingNames
import FormulaSheet.Proofs.Sheet.Reordering
import FormulaSheet.Proofs.Buff.Summing
import FormulaSheet.Proofs.Sheet.Marking
import FormulaSheet.Proofs.Sheet.BuffMarks
import FormulaSheet.Proofs.Buff.Orders
import FormulaSheet.Proofs.Sheet.ModOrder
import FormulaSheet.Proofs.Scenario.Comparing
import FormulaSheet.Proofs.Scenario.Undoing
import FormulaSheet.Proofs.Scenario.Forgetting
