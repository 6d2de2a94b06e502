import FormulaSheet.Scenario.Comparison

/-!
# FormulaSheet — an editable set of scenarios

A list of scenarios that is never empty, with one of them selected as the active one and
one as the baseline. Ids may repeat; then the first scenario of an id is meant. An edit
that names no scenario answers so and changes nothing.
-/

namespace FormulaSheet

/-- Scenarios with their two selections. -/
structure ScenarioSet where
  scenarios : List Scenario
  /-- The id of the scenario that drives the live result. -/
  activeId : ScenarioId
  /-- The id of the scenario that others are compared with. -/
  baselineId : ScenarioId
  scenarios_ne_nil : scenarios ≠ []

namespace ScenarioSet

/-- Applies `f` to the first scenario with an id. -/
def updateFirst (id : ScenarioId) (f : Scenario → Scenario) : List Scenario → List Scenario
  | [] => []
  | scenario :: rest =>
    if scenario.id == id then f scenario :: rest else scenario :: updateFirst id f rest

/-- Takes out the first scenario with an id. -/
def removeFirst (id : ScenarioId) : List Scenario → List Scenario
  | [] => []
  | scenario :: rest =>
    if scenario.id == id then rest else scenario :: removeFirst id rest

theorem updateFirst_ne_nil {id : ScenarioId} {f : Scenario → Scenario} {scenarios : List Scenario}
    (h : scenarios ≠ []) : updateFirst id f scenarios ≠ [] := by
  cases scenarios with
  | nil => exact absurd rfl h
  | cons scenario rest => rw [updateFirst]; split <;> simp

/-- Keeps a wanted id that some scenario has, and takes that of the first scenario else. -/
def pick (scenarios : List Scenario) (first : ScenarioId) (wanted : Option ScenarioId) :
    ScenarioId :=
  (wanted.filter fun id => scenarios.any fun scenario => scenario.id == id).getD first

/-- An id of the list is picked when it is wanted. -/
theorem pick_of_mem {scenarios : List Scenario} {first : ScenarioId} {scenario : Scenario}
    (h : scenario ∈ scenarios) : pick scenarios first (some scenario.id) = scenario.id := by
  have hany : (scenarios.any fun other => other.id == scenario.id) = true :=
    List.any_eq_true.mpr ⟨scenario, h, beq_self_eq_true _⟩
  rw [pick, Option.filter_some, if_pos hany]
  rfl

/-- A set of the given scenarios, if there are any. -/
def ofList? (scenarios : List Scenario) (active baseline : Option ScenarioId) :
    Option ScenarioSet :=
  match scenarios with
  | [] => none
  | first :: rest =>
    some ⟨first :: rest, pick (first :: rest) first.id active,
      pick (first :: rest) first.id baseline, List.cons_ne_nil _ _⟩

/-- An empty baseline beside a current scenario, which is the active one. -/
def baselineAndCurrent (active : ActivationSet) : ScenarioSet where
  scenarios := [⟨"baseline", "Baseline", ∅⟩, ⟨"current", "Current", active⟩]
  activeId := "current"
  baselineId := "baseline"
  scenarios_ne_nil := List.cons_ne_nil _ _

/-- The first scenario with an id. -/
def get? (set : ScenarioSet) (id : ScenarioId) : Option Scenario :=
  set.scenarios.find? fun scenario => scenario.id == id

/-- The first scenario of all. -/
def first (set : ScenarioSet) : Scenario := set.scenarios.head set.scenarios_ne_nil

/-- The scenario that drives the live result. -/
def active (set : ScenarioSet) : Scenario := (set.get? set.activeId).getD set.first

/-- The scenario that others are compared with. -/
def baseline (set : ScenarioSet) : Scenario := (set.get? set.baselineId).getD set.first

/-- Selects the active scenario; `none` if no scenario has the id. -/
def selectActive? (set : ScenarioSet) (id : ScenarioId) : Option ScenarioSet :=
  (set.get? id).map fun _ => { set with activeId := id }

/-- Selects the baseline; `none` if no scenario has the id. -/
def selectBaseline? (set : ScenarioSet) (id : ScenarioId) : Option ScenarioSet :=
  (set.get? id).map fun _ => { set with baselineId := id }

def push (set : ScenarioSet) (scenario : Scenario) : ScenarioSet :=
  { set with
    scenarios := set.scenarios ++ [scenario]
    scenarios_ne_nil := by simp }

/-- Toggles a buff in a scenario, and tells whether it is on afterwards. -/
def toggle? (set : ScenarioSet) (id : ScenarioId) (buff : BuffId) : Option (Bool × ScenarioSet) :=
  (set.get? id).map fun scenario =>
    (!scenario.active.contains buff,
      { set with
        scenarios := updateFirst id (·.toggle buff) set.scenarios
        scenarios_ne_nil := updateFirst_ne_nil set.scenarios_ne_nil })

/-- Adds a copy of a scenario under a new id, and gives the copy. -/
def duplicate? (set : ScenarioSet) (id newId : ScenarioId) : Option (Scenario × ScenarioSet) :=
  (set.get? id).map fun scenario =>
    (scenario.copyAs newId, set.push (scenario.copyAs newId))

/-- A selection after the removal of an id: the first scenario stands in for it. -/
def reselect (removed first selected : ScenarioId) : ScenarioId :=
  if selected == removed then first else selected

/-- Takes a scenario out, and gives it. The last one stays. -/
def remove? (set : ScenarioSet) (id : ScenarioId) : Option (Scenario × ScenarioSet) :=
  -- a removal that would leave nothing is refused
  match set.get? id, removeFirst id set.scenarios with
  | some removed, first :: rest =>
    some (removed, ⟨first :: rest, reselect id first.id set.activeId,
      reselect id first.id set.baselineId, List.cons_ne_nil _ _⟩)
  | _, _ => none

/-- Switches a buff off in every scenario. -/
def forget (set : ScenarioSet) (buff : BuffId) : ScenarioSet :=
  { set with
    scenarios := set.scenarios.map (·.forget buff)
    scenarios_ne_nil := by simpa using set.scenarios_ne_nil }

/-- Compares every scenario with the baseline. -/
def compare (set : ScenarioSet) (sheet : Sheet) (target : String) : List Outcome :=
  sheet.compare set.scenarios set.baselineId target

end ScenarioSet

end FormulaSheet
