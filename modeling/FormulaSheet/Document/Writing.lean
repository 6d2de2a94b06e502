import FormulaSheet.Document.Basic
import FormulaSheet.Json.Printer

/-!
# FormulaSheet — documents as JSON

The JSON value of a document and of its parts. What is not selected is left out, and so is
an empty list of scenarios.
-/

namespace FormulaSheet

open Json (Value)

/-- Ids in the order of their code points. -/
def ActivationSet.toJson (active : ActivationSet) : Value :=
  .array (active.toList.map Value.string)

def Row.toJson (row : Row) : Value :=
  .object [("id", .string row.id), ("name", .string row.name),
    ("expression", .string row.expression)]

/-- The word for a kind of modifier. -/
def ModifierKind.word : ModifierKind → String
  | multiplicative => "mult"
  | flat => "flat"

def ModifierKind.toJson (kind : ModifierKind) : Value := .string kind.word

def Modifier.toJson (modifier : Modifier) : Value :=
  .object [("id", .string modifier.id), ("targetVar", .string modifier.target),
    ("type", modifier.kind.toJson), ("value", .double modifier.value)]

def Buff.toJson (buff : Buff) : Value :=
  .object [("id", .string buff.id), ("name", .string buff.name),
    ("mods", .array (buff.mods.map Modifier.toJson))]

def Scenario.toJson (scenario : Scenario) : Value :=
  .object [("id", .string scenario.id), ("name", .string scenario.name),
    ("activeBuffIds", scenario.active.toJson)]

namespace Document

/-- A member for what is selected, none for what is not. -/
def optionalMember (key : String) (value : Option String) : List (String × Value) :=
  (value.map fun s => (key, Value.string s)).toList

/-- The saved scenarios, if there are any. -/
def scenariosMember (scenarios : List Scenario) : List (String × Value) :=
  if scenarios.isEmpty then [] else [("scenarios", .array (scenarios.map Scenario.toJson))]

def toJson (document : Document) : Value :=
  .object <|
    [("version", .integer document.version.toNat),
      ("rows", .array (document.sheet.rows.map Row.toJson)),
      ("buffs", .array (document.sheet.buffs.map Buff.toJson)),
      ("activeBuffIds", document.active.toJson)]
    ++ optionalMember "activeTargetId" document.target
    ++ scenariosMember document.scenarios
    ++ optionalMember "baselineScenarioId" document.baseline

/-- The text in which a document is saved. -/
def write (document : Document) : String :=
  String.ofList (document.toJson.pretty 0)

end Document

end FormulaSheet
