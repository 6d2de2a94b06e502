import FormulaSheet.Proofs.Buff.Summing
import FormulaSheet.Proofs.Scenario.Selections
import FormulaSheet.Proofs.Scenario.Toggling
import FormulaSheet.Proofs.Scenario.Undoing

/-!
# FormulaSheet — deleting a buff

A buff that is deleted goes out of the sheet and is forgotten by all scenarios. An id that names no
buff does nothing to an evaluation, and neither does a buff that is off. So the scenarios have the
same values whether the buff is forgotten or not, and those that had it off have the values that they
had before.

* `Sheet.deleteBuff`, `Sheet.evaluate_congr` — the sheet without a buff, and when two sheets with the
  same rows evaluate to the same.
* `Sheet.evaluate_deleteBuff_erase`, `Sheet.evaluate_deleteBuff_of_off` — the two ways in which a buff
  is inert.
* `Sheet.compare_map` — a comparison sees no more of the scenarios than their ids, names and values.
* `forget_leaves_no_trace` — the headline.
-/

namespace FormulaSheet

variable {buff : BuffId} {active : ActivationSet}

/-! ## Inert buffs -/

namespace Sheet

/-- The sheet without any buff of an id. -/
def deleteBuff (sheet : Sheet) (buff : BuffId) : Sheet :=
  { sheet with buffs := sheet.buffs.filter fun other => other.id != buff }

/-- Evaluation asks for the rows and the modifiers that are on only. -/
theorem evaluate_congr {sheet sheet' : Sheet} {active' : ActivationSet} (hrows : sheet.rows = sheet'.rows)
    (h : activeModifiers sheet.buffs active = activeModifiers sheet'.buffs active') :
    sheet.evaluate active = sheet'.evaluate active' := by
  rw [evaluate, evaluate, Aggregation.collect, Aggregation.collect, h, hrows]

end Sheet

namespace Sheet

variable (sheet : Sheet)

/-- An id that names no buff of the sheet may be on or off. -/
theorem evaluate_deleteBuff_erase (buff : BuffId) (active : ActivationSet) :
    (sheet.deleteBuff buff).evaluate (active.erase buff) = (sheet.deleteBuff buff).evaluate active := by
  refine evaluate_congr rfl (Aggregation.activeModifiers_congr fun other hmem => ?_)
  have hother : (other.id != buff) = true := (List.mem_filter.mp hmem).2
  rw [contains_erase, hother, Bool.true_and]

/-- A buff that is off may be in the sheet or not. -/
theorem evaluate_deleteBuff_of_off (hoff : active.contains buff = false) :
    (sheet.deleteBuff buff).evaluate active = sheet.evaluate active := by
  refine evaluate_congr rfl ?_
  have hon : ∀ other ∈ sheet.buffs, (active.contains other.id && other.id != buff)
      = active.contains other.id := by
    intro other _
    by_cases hid : other.id = buff
    · rw [hid, hoff, Bool.false_and]
    · rw [bne_iff_ne.mpr hid, Bool.and_true]
  rw [deleteBuff, activeModifiers, activeModifiers, List.filter_filter, List.filter_congr hon]

/-- A comparison sees no more of the scenarios than their ids, names and values. -/
theorem compare_map {scenarios : List Scenario} {f : Scenario → Scenario} (target : String)
    (hid : ∀ scenario, (f scenario).id = scenario.id)
    (hname : ∀ scenario, (f scenario).name = scenario.name)
    (hvalue : ∀ scenario, sheet.valueUnder (f scenario).active target
      = sheet.valueUnder scenario.active target) (baseline : ScenarioId) :
    sheet.compare (scenarios.map f) baseline target = sheet.compare scenarios baseline target := by
  by_cases hne : scenarios = []
  · rw [hne, List.map_nil]
  · -- ids stay, so the baseline is found at the same index
    have hindex : baselineIndex (scenarios.map f) baseline = baselineIndex scenarios baseline := by
      rw [baselineIndex, baselineIndex, List.findIdx?_map]
      simp only [Function.comp_def, hid]
    obtain ⟨standard, hstandard⟩ := exists_standard hne baseline
    have hmapped : (scenarios.map f)[baselineIndex (scenarios.map f) baseline]?
        = some (f standard) := by
      rw [hindex, List.getElem?_map, hstandard, Option.map_some]
    refine List.ext_getElem? fun i => ?_
    rw [getElem?_compare sheet target hmapped, getElem?_compare sheet target hstandard,
      List.getElem?_map, Option.map_map, hindex]
    simp only [Function.comp_def, hid, hname, hvalue]

end Sheet

/-! ## Forgetting -/

namespace ScenarioSet

variable {set : ScenarioSet} {sheet : Sheet} {target : String}

theorem compare_forget (set : ScenarioSet) (sheet : Sheet) (buff : BuffId) (target : String) :
    (set.forget buff).compare (sheet.deleteBuff buff) target
      = set.compare (sheet.deleteBuff buff) target := by
  have hvalue : ∀ scenario : Scenario,
      (sheet.deleteBuff buff).valueUnder (scenario.forget buff).active target
        = (sheet.deleteBuff buff).valueUnder scenario.active target := fun scenario =>
    congrArg (Evaluation.targetValue · target) (sheet.evaluate_deleteBuff_erase buff scenario.active)
  have hid : ∀ scenario : Scenario, (scenario.forget buff).id = scenario.id := fun _ => rfl
  have hname : ∀ scenario : Scenario, (scenario.forget buff).name = scenario.name := fun _ => rfl
  exact Sheet.compare_map _ target hid hname hvalue set.baselineId

/-- A scenario that had the buff off has the value that it had. -/
theorem map_value_compare_of_off {i : Nat} {scenario : Scenario}
    (hscenario : set.scenarios[i]? = some scenario)
    (hoff : scenario.active.contains buff = false) :
    ((set.forget buff).compare (sheet.deleteBuff buff) target)[i]?.map Outcome.value
      = (set.compare sheet target)[i]?.map Outcome.value := by
  rw [compare_forget, compare, compare, Sheet.map_value_compare, Sheet.map_value_compare, hscenario,
    Option.map_some, Option.map_some, Sheet.valueUnder, Sheet.valueUnder,
    Sheet.evaluate_deleteBuff_of_off _ hoff]

/-- **A deleted buff leaves no trace.** Once a buff is forgotten, no scenario has it on. The scenarios
keep their ids, names and order, the set its selections, and every other buff stays on or off. In the
sheet without the buff the scenarios compare as they did before it was forgotten, and a scenario that
had it off has the value which it had in the sheet with the buff. -/
theorem forget_leaves_no_trace (set : ScenarioSet) (sheet : Sheet) (target : String)
    (buff : BuffId) :
    (∀ scenario ∈ (set.forget buff).scenarios, scenario.active.contains buff = false)
    ∧ (set.forget buff).scenarios.map (fun scenario => (scenario.id, scenario.name))
      = set.scenarios.map (fun scenario => (scenario.id, scenario.name))
    ∧ (set.forget buff).activeId = set.activeId ∧ (set.forget buff).baselineId = set.baselineId
    ∧ (∀ other, other ≠ buff →
        (set.forget buff).scenarios.map (fun scenario => scenario.active.contains other)
          = set.scenarios.map fun scenario => scenario.active.contains other)
    ∧ (set.forget buff).compare (sheet.deleteBuff buff) target
      = set.compare (sheet.deleteBuff buff) target
    ∧ ∀ (i : Nat) (scenario : Scenario), set.scenarios[i]? = some scenario →
        scenario.active.contains buff = false →
        ((set.forget buff).compare (sheet.deleteBuff buff) target)[i]?.map Outcome.value
          = (set.compare sheet target)[i]?.map Outcome.value := by
  have hforget : (set.forget buff).scenarios = set.scenarios.map (·.forget buff) := rfl
  refine ⟨?_, ?_, rfl, rfl, ?_, set.compare_forget sheet buff target, fun i scenario hscenario hoff =>
    map_value_compare_of_off hscenario hoff⟩
  · intro forgotten hmem
    obtain ⟨scenario, -, rfl⟩ := List.mem_map.mp hmem
    rw [Scenario.forget, contains_erase, bne_self_eq_false, Bool.false_and]
  · rw [hforget, List.map_map]
    rfl
  · intro other hother
    rw [hforget, List.map_map]
    refine List.map_congr_left fun scenario _ => ?_
    show (scenario.active.erase buff).contains other = scenario.active.contains other
    -- erasing a buff leaves the others as they are
    rw [contains_erase, bne_iff_ne.mpr hother, Bool.true_and]

end ScenarioSet

/-- Two buffs share the id that is deleted, and one of the scenarios has it on, beside an id that
names no buff. The first scenario had it off. -/
theorem shared_id_forgotten :
    let sheet : Sheet := ⟨[⟨"r", "A", "10"⟩, ⟨"s", "B", "A * 2"⟩],
      [⟨"x", "Low", [⟨"m", "A", .flat, -1.0⟩]⟩, ⟨"y", "High", [⟨"m", "A", .flat, 5.0⟩]⟩,
        ⟨"x", "Lower", [⟨"m", "B", .flat, -3.0⟩]⟩]⟩
    let scenario : Scenario := ⟨"a", "Plain", .ofList ["y"]⟩
    let set : ScenarioSet := ⟨[scenario, ⟨"b", "Now", .ofList ["x", "y", "z"]⟩], "b", "a",
      List.cons_ne_nil _ _⟩
    set.scenarios[0]? = some scenario ∧ scenario.active.contains "x" = false ∧ "y" ≠ "x"
      ∧ (set.compare sheet "B").map Outcome.value = [30.0, 25.0]
      ∧ ((set.forget "x").compare (sheet.deleteBuff "x") "B").map Outcome.value = [30.0, 30.0]
      ∧ (set.forget "x").scenarios.map (fun scenario => scenario.active.contains "y")
        = set.scenarios.map (fun scenario => scenario.active.contains "y")
      ∧ ((set.forget "x").compare (sheet.deleteBuff "x") "B")[0]?.map Outcome.value
        = (set.compare sheet "B")[0]?.map Outcome.value := by
  intro sheet scenario set
  have hoff : scenario.active.contains "x" = false := by with_unfolding_all decide
  have hother : "y" ≠ "x" := by decide
  obtain ⟨-, -, -, -, hothers, -, hvalues⟩ := set.forget_leaves_no_trace sheet "B" "x"
  exact ⟨rfl, hoff, hother, by with_unfolding_all decide, by with_unfolding_all decide,
    hothers "y" hother, hvalues 0 scenario rfl hoff⟩

end FormulaSheet
