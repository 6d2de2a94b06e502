import FormulaSheet.Proofs.Scenario.Toggling

/-!
# FormulaSheet — the baseline of a comparison

A comparison looks the baseline up by its place in the list, and a scenario set by its id. Either
search stops at the first scenario with the id and falls back to the first of all, so the outcome
that is marked is that of the scenario which the set gives.

* `IsStandard`, `isStandard_baselineIndex` — the place at which a comparison finds its baseline.
* `Sheet.map_compare`, `Sheet.compare_against_standard` — the outcomes, and their mark and change.
* `ScenarioSet.getElem?_baselineIndex` — the set has its baseline at that place.
* `compare_agrees_on_baseline` — the headline.
-/

namespace FormulaSheet

/-- The place of the scenario that stands for the baseline: the first one with its id, or the first
of all if there is none. -/
def IsStandard (scenarios : List Scenario) (baseline : ScenarioId) (i : Nat) : Prop :=
  (∃ before standard after, scenarios = before ++ standard :: after ∧ before.length = i
    ∧ standard.id = baseline ∧ ∀ other ∈ before, other.id ≠ baseline)
  ∨ (i = 0 ∧ ∀ scenario ∈ scenarios, scenario.id ≠ baseline)

variable {scenarios : List Scenario} {baseline : ScenarioId}

theorem isStandard_baselineIndex (scenarios : List Scenario) (baseline : ScenarioId) :
    IsStandard scenarios baseline (Sheet.baselineIndex scenarios baseline) := by
  rw [Sheet.baselineIndex]
  cases hfind : scenarios.findIdx? fun scenario => scenario.id == baseline with
  | none =>
    -- no scenario has the id of the baseline, so the first one is taken
    refine .inr ⟨rfl, fun scenario hmem => ?_⟩
    simpa using List.findIdx?_eq_none_iff.mp hfind scenario hmem
  | some index =>
    -- the first scenario with the id, and the ones in front of it
    obtain ⟨hlt, hid, hbefore⟩ := List.findIdx?_eq_some_iff_getElem.mp hfind
    refine .inl ⟨scenarios.take index, scenarios[index], scenarios.drop (index + 1), ?_, ?_, ?_, ?_⟩
    · rw [← List.drop_eq_getElem_cons hlt, List.take_append_drop]
    · rw [List.length_take_of_le (Nat.le_of_lt hlt)]
      rfl
    · exact beq_iff_eq.mp hid
    · intro other hmem
      obtain ⟨j, hj, rfl⟩ := List.mem_take_iff_getElem.mp hmem
      simpa using hbefore j (by omega)

/-! ## Outcomes -/

namespace Sheet

/-- There is an outcome for each scenario, with its id, its name and its value. -/
theorem map_compare (sheet : Sheet) (scenarios : List Scenario) (baseline : ScenarioId)
    (target : String) :
    (sheet.compare scenarios baseline target).map
        (fun outcome => (outcome.id, outcome.name, outcome.value))
      = scenarios.map fun scenario =>
        (scenario.id, scenario.name, sheet.valueUnder scenario.active target) := by
  by_cases hne : scenarios = []
  · subst hne
    rfl
  · obtain ⟨standard, hstandard⟩ := exists_standard hne baseline
    refine List.ext_getElem? fun i => ?_
    rw [List.getElem?_map, getElem?_compare sheet target hstandard, Option.map_map,
      List.getElem?_map]
    rfl

/-- The outcome of the baseline, and how the others are marked and measured by it. -/
theorem compare_against_standard (sheet : Sheet) (target : String) {standard : Scenario}
    (h : scenarios[baselineIndex scenarios baseline]? = some standard) :
    (sheet.compare scenarios baseline target)[baselineIndex scenarios baseline]?.map Outcome.value
        = some (sheet.valueUnder standard.active target)
      ∧ ∀ j outcome, (sheet.compare scenarios baseline target)[j]? = some outcome →
          (outcome.isBaseline = true ↔ j = baselineIndex scenarios baseline)
          ∧ outcome.delta = .between (sheet.valueUnder standard.active target) outcome.value := by
  constructor
  · rw [map_value_compare, h, Option.map_some]
  · intro j outcome houtcome
    rw [getElem?_compare sheet target h] at houtcome
    -- an outcome is made at its own place, against the one value of the standard
    obtain ⟨scenario, -, rfl⟩ := Option.map_eq_some_iff.mp houtcome
    exact ⟨beq_iff_eq, rfl⟩

end Sheet

/-! ## The set's own baseline -/

/-- The set's baseline stands at the place at which a comparison looks for it. -/
theorem ScenarioSet.getElem?_baselineIndex (set : ScenarioSet) :
    set.scenarios[Sheet.baselineIndex set.scenarios set.baselineId]? = some set.baseline := by
  rw [Sheet.baselineIndex, ScenarioSet.baseline, get?]
  cases hfind : set.scenarios.findIdx? fun scenario => scenario.id == set.baselineId with
  | none =>
    -- neither search finds the id, and both fall back to the first scenario
    have hnone : set.scenarios.find? (fun scenario => scenario.id == set.baselineId) = none :=
      List.find?_eq_none.mpr fun scenario hmem => by
        simpa using List.findIdx?_eq_none_iff.mp hfind scenario hmem
    rw [hnone, Option.getD_none, Option.getD_none, first, ← List.head?_eq_getElem?,
      List.head?_eq_some_head]
  | some index =>
    obtain ⟨hlt, -⟩ := List.findIdx?_eq_some_iff_getElem.mp hfind
    rw [List.find?_eq_bind_findIdx?_getElem?, hfind, Option.getD_some, Option.bind_some,
      List.getElem?_eq_getElem hlt, Option.getD_some]

/-- **A comparison and a scenario set agree on the baseline.** A comparison has one outcome for each
scenario, in their order, with the value of the target under the buffs of that scenario alone, which
is `0` if the target has none. If there is any scenario, just one outcome is marked, that of the
first scenario with the id of the baseline, or of the first one of all if none has it, and each
change is that from the value of the marked outcome. In the comparison of a scenario set the marked
outcome is that of the set's baseline. Ids may repeat. -/
theorem compare_agrees_on_baseline (sheet : Sheet) (target : String) :
    (∀ scenarios baseline,
      (sheet.compare scenarios baseline target).map
          (fun outcome => (outcome.id, outcome.name, outcome.value))
        = scenarios.map (fun scenario => (scenario.id, scenario.name,
            ((sheet.evaluate scenario.active).context.value? target).getD 0.0))
      ∧ (scenarios ≠ [] → ∃ i marked, IsStandard scenarios baseline i
          ∧ (sheet.compare scenarios baseline target)[i]? = some marked
          ∧ ∀ j outcome, (sheet.compare scenarios baseline target)[j]? = some outcome →
              (outcome.isBaseline = true ↔ j = i)
              ∧ outcome.delta = .between marked.value outcome.value))
    ∧ ∀ set : ScenarioSet, ∃ i marked, set.scenarios[i]? = some set.baseline
        ∧ IsStandard set.scenarios set.baselineId i
        ∧ (set.compare sheet target)[i]? = some marked
        ∧ (marked.id, marked.name, marked.value)
          = (set.baseline.id, set.baseline.name, sheet.valueUnder set.baseline.active target)
        ∧ ∀ j outcome, (set.compare sheet target)[j]? = some outcome →
            (outcome.isBaseline = true ↔ j = i) := by
  refine ⟨fun scenarios baseline => ⟨sheet.map_compare scenarios baseline target, fun hne => ?_⟩,
    fun set => ?_⟩
  · obtain ⟨standard, hstandard⟩ := Sheet.exists_standard hne baseline
    obtain ⟨hvalue, hall⟩ := sheet.compare_against_standard target hstandard
    -- the marked outcome has the value that the others are compared with
    obtain ⟨marked, hmarked, hvalue⟩ := Option.map_eq_some_iff.mp hvalue
    refine ⟨_, marked, isStandard_baselineIndex scenarios baseline, hmarked, ?_⟩
    rw [hvalue]
    exact hall
  · have hbaseline := set.getElem?_baselineIndex
    obtain ⟨-, hall⟩ := sheet.compare_against_standard target hbaseline
    have hmarked := Sheet.getElem?_compare sheet target hbaseline
      (Sheet.baselineIndex set.scenarios set.baselineId)
    rw [hbaseline, Option.map_some] at hmarked
    exact ⟨_, _, hbaseline, isStandard_baselineIndex _ _, hmarked, rfl, fun j outcome houtcome =>
      (hall j outcome houtcome).1⟩

/-- The id of the baseline is that of two scenarios, neither of them the first of all. The first of
the two is the baseline of the comparison and of the set. -/
theorem twin_baselines_compared :
    let sheet : Sheet := ⟨[⟨"r", "A", "10"⟩], [⟨"x", "High", [⟨"m", "A", .flat, 5.0⟩]⟩]⟩
    let scenarios : List Scenario :=
      [⟨"a", "Plain", ∅⟩, ⟨"b", "Now", .ofList ["x"]⟩, ⟨"b", "Then", ∅⟩]
    let outcomes : List Outcome := [⟨"a", "Plain", 10.0, .between 15.0 10.0, false⟩,
      ⟨"b", "Now", 15.0, .between 15.0 15.0, true⟩, ⟨"b", "Then", 10.0, .between 15.0 10.0, false⟩]
    scenarios ≠ [] ∧ sheet.compare scenarios "b" "A" = outcomes
      ∧ ∃ i marked, IsStandard scenarios "b" i
          ∧ (sheet.compare scenarios "b" "A")[i]? = some marked
          ∧ ∀ j outcome, (sheet.compare scenarios "b" "A")[j]? = some outcome →
              (outcome.isBaseline = true ↔ j = i)
              ∧ outcome.delta = .between marked.value outcome.value := by
  intro sheet scenarios outcomes
  have hne : scenarios ≠ [] := List.cons_ne_nil _ _
  exact ⟨hne, by with_unfolding_all decide,
    ((compare_agrees_on_baseline sheet "A").1 scenarios "b").2 hne⟩

end FormulaSheet
