import FormulaSheet.Command.Options
import FormulaSheet.Document.Basic
import FormulaSheet.Sheet.Rendering
import FormulaSheet.Text.Column

/-!
# FormulaSheet — what the command reports

The command lists the rows of a document with their values or errors. On demand it shows
the target's tree, its value under all scenarios, and what every buff that is off would
change.
-/

namespace FormulaSheet

open Text (alignLeft alignRight)

/-- How a run of the command ends. -/
inductive Ending where
  | done
  | badUsage
  /-- The document cannot be had. -/
  | noDocument (path : String) (error : DocumentError)
  /-- The document has no scenario of that id. -/
  | unknownScenario (id : ScenarioId)
deriving DecidableEq

namespace Ending

def exitCode : Ending → UInt32
  | done => 0
  | badUsage => 2
  | noDocument .. => 1
  | unknownScenario _ => 1

/-- What the user is told, if not all went well. -/
def message? : Ending → Option String
  | done => none
  | badUsage => some
    "Usage: [-t NAME] [-s ID] [-c] [-w] [--tree] DOCUMENT"
  | noDocument path error => some ("Failed to load '" ++ path ++ "': " ++ error.message)
  | unknownScenario id => some ("Unknown scenario '" ++ id ++ "'.")

end Ending

/-- The lines that a run of the command shows, and how it ends. -/
structure Report where
  lines : List String
  ending : Ending
deriving DecidableEq

/-- Lines as one text, each with its line break. -/
def unlines (lines : List String) : String :=
  String.join (lines.map (· ++ "\n"))

namespace Report

def output (report : Report) : String := unlines report.lines

/-- The line of a row: its error, or else the value under its name. -/
def rowLine? (evaluation : Evaluation) (row : Row) : Option String :=
  match evaluation.errors[row.id]? with
  | some error =>
    let shown := if row.name.isEmpty then "(unnamed)" else row.name
    some (alignLeft 16 shown ++ " error: " ++ error.message)
  | none => (evaluation.context.get? row.name).map fun entry =>
    alignLeft 16 row.name ++ " = " ++ Decimal.formatNumber entry.value
      ++ (if entry.buffed then " *" else "")

/-- A line for every row. -/
def listing (sheet : Sheet) (evaluation : Evaluation) : List String :=
  sheet.rows.filterMap (rowLine? evaluation)

/-- The target with its expanded tree. -/
def treeLines (evaluation : Evaluation) (target : String) : List String :=
  ["", match evaluation.context.get? target with
    | some entry => target ++ " = " ++ entry.display.render evaluation.context .brackets
    | none => target ++ " has no value."]

/-- A value and its change, in columns. -/
def changeColumns (value : Float) (delta : Delta) : String :=
  alignRight 12 (Decimal.formatNumber value) ++ " "
    ++ alignRight 12 (Decimal.plainLayout.writeSigned delta.absolute) ++ " "
    ++ alignRight 8 (Decimal.writeFixedSigned 1 delta.percent) ++ "%"

/-- The target under every scenario. -/
def comparisonLines (sheet : Sheet) (scenarios : ScenarioSet) (target : String) : List String :=
  ["", "Scenarios for " ++ target ++ " (baseline: " ++ scenarios.baseline.name ++ ")"]
    ++ (scenarios.compare sheet target).map fun outcome =>
      "  " ++ alignLeft 20 outcome.name ++ " " ++ changeColumns outcome.value outcome.delta
        ++ (if outcome.isBaseline then " (baseline)" else "")

/-- The name of a buff, which is that of the first one with its id. -/
def buffName (sheet : Sheet) (id : BuffId) : String :=
  ((sheet.buffs.find? fun buff => buff.id == id).map Buff.name).getD id

/-- The target with each buff that is off switched on. -/
def previewLines (sheet : Sheet) (active : ActivationSet) (target : String) : List String :=
  ["", "What if, for " ++ target ++ ":"]
    ++ (sheet.preview active target).map fun preview =>
      "  + " ++ alignLeft 18 (buffName sheet preview.buff) ++ " "
        ++ changeColumns preview.value preview.delta

/-- All that is asked for about the target. -/
def targetLines (options : Options) (sheet : Sheet) (scenarios : ScenarioSet)
    (evaluation : Evaluation) (target : String) : List String :=
  (if options.tree then treeLines evaluation target else [])
    ++ (if options.compare then comparisonLines sheet scenarios target else [])
    ++ (if options.whatIf then previewLines sheet scenarios.active.active target else [])

/-- The report on a document with one of its scenarios active. -/
def ofScenarios (options : Options) (document : Document) (scenarios : ScenarioSet) : Report :=
  let evaluation := document.sheet.evaluate scenarios.active.active
  let target := options.target.or (document.targetRow?.map Row.name)
  { lines := listing document.sheet evaluation
      ++ (target.map (targetLines options document.sheet scenarios evaluation)).getD []
    ending := .done }

/-- The report on a document. -/
def ofDocument (options : Options) (document : Document) : Report :=
  match options.scenario with
  | none => ofScenarios options document document.scenarioSet
  | some id =>
    match document.scenarioSet.selectActive? id with
    | none => ⟨[], .unknownScenario id⟩
    | some scenarios => ofScenarios options document scenarios

/-- The report on what was loaded. -/
def ofLoaded (options : Options) : Except DocumentError Document → Report
  | .error e => ⟨[], .noDocument options.document e⟩
  | .ok document => ofDocument options document

end Report

end FormulaSheet
