import FormulaSheet.Json.Error
import FormulaSheet.Scenario.Set

/-!
# FormulaSheet — documents

A document is what a user edits and saves: a sheet, the buffs that are on, the row that is
looked at, and saved scenarios.
-/

namespace FormulaSheet

/-- The format version that documents are written in. -/
def documentVersion : UInt32 := 1

/-- A sheet with all selections. -/
structure Document where
  version : UInt32
  sheet : Sheet
  /-- The buffs that are on in the live result. -/
  active : ActivationSet
  /-- The id of the row that is looked at. -/
  target : Option RowId
  scenarios : List Scenario
  /-- The id of the scenario that others are compared with. -/
  baseline : Option ScenarioId
deriving DecidableEq

/-- Why a document cannot be had. -/
inductive DocumentError where
  /-- There is no such file, or its bytes are no text. -/
  | unreadable
  /-- The text is not that of a document. -/
  | json (error : Json.Error)
  /-- The document is in another format version. -/
  | unsupportedVersion (version : UInt32)
deriving DecidableEq

def DocumentError.message : DocumentError → String
  | unreadable => "the file cannot be read as text"
  | json .truncated => "invalid document: the text ends too early"
  | json .malformed => "invalid document: the text is not JSON"
  | json (.mismatch reason) => "invalid document: " ++ reason.message
  | unsupportedVersion version =>
    "unsupported document version " ++ toString version ++ ", expected " ++
      toString documentVersion

namespace Document

/-- A document with nothing selected. -/
def ofSheet (sheet : Sheet) : Document :=
  ⟨documentVersion, sheet, ∅, none, [], none⟩

/-- The row that is looked at: the first one of the target id, or else the last of all. -/
def targetRow? (document : Document) : Option Row :=
  (document.target.bind fun id => document.sheet.rows.find? fun row => row.id == id).or
    document.sheet.rows.getLast?

/-- The saved scenarios as an editable set. The active one is the first that has the buffs
on that the document has on; without any scenario there are a baseline and a current one. -/
def scenarioSet (document : Document) : ScenarioSet :=
  let active := document.scenarios.find? fun scenario => decide (scenario.active = document.active)
  (ScenarioSet.ofList? document.scenarios (active.map Scenario.id) document.baseline).getD
    (.baselineAndCurrent document.active)

/-- Evaluates the sheet with the buffs that are on. -/
def evaluate (document : Document) : Evaluation :=
  document.sheet.evaluate document.active

end Document

/-! ## Equal documents

Documents are compared as their numbers are: the zeros are equal, and a NaN equals
nothing. -/

/-- Do two modifiers agree, their values as numbers? -/
def Modifier.agrees (m n : Modifier) : Bool :=
  m.id == n.id && m.target == n.target && m.kind == n.kind && m.value == n.value

/-- Do two lists of the same length agree item by item? -/
def agreesAll {α : Type} (agrees : α → α → Bool) : List α → List α → Bool
  | [], [] => true
  | x :: xs, y :: ys => agrees x y && agreesAll agrees xs ys
  | _, _ => false

def Buff.agrees (b c : Buff) : Bool :=
  b.id == c.id && b.name == c.name && agreesAll Modifier.agrees b.mods c.mods

def Document.agrees (d e : Document) : Bool :=
  d.version == e.version && d.sheet.rows == e.sheet.rows
    && agreesAll Buff.agrees d.sheet.buffs e.sheet.buffs && decide (d.active = e.active)
    && d.target == e.target && decide (d.scenarios = e.scenarios) && d.baseline == e.baseline

end FormulaSheet
