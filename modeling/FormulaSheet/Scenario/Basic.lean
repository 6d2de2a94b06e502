import FormulaSheet.Buff.Basic

/-!
# FormulaSheet — scenarios

A scenario is a named choice of the buffs that are on.
-/

namespace FormulaSheet

abbrev ScenarioId := String

/-- A named activation set. -/
structure Scenario where
  id : ScenarioId
  name : String
  active : ActivationSet
deriving DecidableEq

namespace Scenario

/-- Is the buff on? If so switch it off, and else on. -/
def toggle (scenario : Scenario) (buff : BuffId) : Scenario :=
  { scenario with active :=
      if scenario.active.contains buff then scenario.active.erase buff
      else scenario.active.insert buff }

/-- Switches a buff off for good. -/
def forget (scenario : Scenario) (buff : BuffId) : Scenario :=
  { scenario with active := scenario.active.erase buff }

/-- The same choice under a new id. -/
def copyAs (scenario : Scenario) (id : ScenarioId) : Scenario :=
  { scenario with id := id, name := scenario.name ++ " (Copy)" }

end Scenario

end FormulaSheet
