import FormulaSheet.Scenario.Basic
import FormulaSheet.Scenario.Delta
import FormulaSheet.Sheet.Evaluation

/-!
# FormulaSheet — comparing scenarios

The value of one target name under each of several scenarios, against a baseline; and
what each buff that is off would change if it were on. Every value comes from an
evaluation of its own.
-/

namespace FormulaSheet

/-- The value of the target under one scenario. -/
structure Outcome where
  id : ScenarioId
  name : String
  value : Float
  /-- The change against the baseline. -/
  delta : Delta
  /-- Is this the baseline itself? -/
  isBaseline : Bool
deriving DecidableEq

/-- The value of the target with one more buff on. -/
structure Preview where
  buff : BuffId
  value : Float
  /-- The change against the value as it is. -/
  delta : Delta
deriving DecidableEq

namespace Sheet

/-- The value of a target under a choice of buffs, `0` if it has none. -/
def valueUnder (sheet : Sheet) (active : ActivationSet) (target : String) : Float :=
  (sheet.evaluate active).targetValue target

/-- The place of the baseline: the first scenario with that id, or else the first of all. -/
def baselineIndex (scenarios : List Scenario) (baseline : ScenarioId) : Nat :=
  (scenarios.findIdx? fun scenario => scenario.id == baseline).getD 0

/-- The value of the target under every scenario, in order. -/
def compare (sheet : Sheet) (scenarios : List Scenario) (baseline : ScenarioId)
    (target : String) : List Outcome :=
  let values := scenarios.map fun scenario => sheet.valueUnder scenario.active target
  let index := baselineIndex scenarios baseline
  match values[index]? with
  | none => []
  | some reference =>
    (scenarios.zip values).mapIdx fun i (scenario, value) =>
      ⟨scenario.id, scenario.name, value, Delta.between reference value, i == index⟩

/-- What switching on each buff that is off would do, in the order of the buffs. -/
def preview (sheet : Sheet) (active : ActivationSet) (target : String) : List Preview :=
  let current := sheet.valueUnder active target
  (sheet.buffs.filter fun buff => !active.contains buff.id).map fun buff =>
    let value := sheet.valueUnder (active.insert buff.id) target
    ⟨buff.id, value, Delta.between current value⟩

end Sheet

end FormulaSheet
