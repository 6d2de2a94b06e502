import FormulaSheet.Proofs.Scenario.Selections

/-!
# FormulaSheet — what a toggle changes

Previewing a buff, switching it on and comparing the scenarios each find a scenario and choose its
buffs in their own way. They agree, though ids may repeat: a toggle moves the value of one scenario
only, and where it switches a buff on, it moves it to the value that was previewed.

* `Sheet.getElem?_compare` — what a comparison says of each scenario.
* `updateFirst_eq_modify` — updating the first scenario with an id is updating the one at its place.
* `toggle?_of_off`, `map_value_compare_of_modify` — a buff that is off is switched on, and the values
  after that.
* `toggle_delivers_preview` — the headline.
-/

namespace FormulaSheet

/-! ## Comparisons, scenario by scenario -/

namespace Sheet

variable {scenarios : List Scenario} {standard : Scenario}

/-- Some scenario is the baseline, if there is any scenario at all. -/
theorem exists_standard (h : scenarios ≠ []) (baseline : ScenarioId) :
    ∃ standard, scenarios[baselineIndex scenarios baseline]? = some standard := by
  rw [baselineIndex]
  cases hfind : scenarios.findIdx? fun scenario => scenario.id == baseline with
  | none =>
    have hpos := List.length_pos_iff.mpr h
    exact ⟨scenarios[0], List.getElem?_eq_getElem hpos⟩
  | some index =>
    obtain ⟨hlt, -⟩ := List.findIdx?_eq_some_iff_getElem.mp hfind
    exact ⟨scenarios[index], List.getElem?_eq_getElem hlt⟩

/-- A comparison says of each scenario its value under its own buffs and the change against that
of the baseline. -/
theorem getElem?_compare (sheet : Sheet) (target : String) {baseline : ScenarioId}
    (h : scenarios[baselineIndex scenarios baseline]? = some standard) (i : Nat) :
    (sheet.compare scenarios baseline target)[i]? = scenarios[i]?.map fun scenario =>
      ⟨scenario.id, scenario.name, sheet.valueUnder scenario.active target,
        .between (sheet.valueUnder standard.active target)
          (sheet.valueUnder scenario.active target), i == baselineIndex scenarios baseline⟩ := by
  rw [compare]
  dsimp only
  rw [List.getElem?_map, h, Option.map_some]
  dsimp only
  -- the outcomes are the scenarios with their values, numbered from the first
  rw [← List.map_prod_left_eq_zip, List.getElem?_mapIdx, List.getElem?_map, Option.map_map]
  rfl

theorem map_value_compare (sheet : Sheet) (scenarios : List Scenario) (baseline : ScenarioId)
    (target : String) (i : Nat) :
    (sheet.compare scenarios baseline target)[i]?.map Outcome.value
      = scenarios[i]?.map fun scenario => sheet.valueUnder scenario.active target := by
  by_cases hne : scenarios = []
  · subst hne
    rfl
  · obtain ⟨standard, hstandard⟩ := exists_standard hne baseline
    rw [getElem?_compare sheet target hstandard, Option.map_map]
    rfl

end Sheet

namespace ScenarioSet

/-! ## The place of a scenario -/

variable {set : ScenarioSet} {id : ScenarioId}

theorem updateFirst_eq_modify (id : ScenarioId) (f : Scenario → Scenario)
    (scenarios : List Scenario) :
    updateFirst id f scenarios
      = scenarios.modify (scenarios.findIdx fun scenario => scenario.id == id) f := by
  induction scenarios with
  | nil => rfl
  | cons scenario rest ih =>
    rw [updateFirst, List.findIdx_cons, ih]
    cases scenario.id == id <;> rfl

/-- The place of the scenario that drives the live result. -/
def activeIndex (set : ScenarioSet) : Nat :=
  set.scenarios.findIdx fun scenario => scenario.id == set.active.id

/-- The active scenario is the first one with its id, also where it stands in for a selection that
no scenario has. -/
theorem get?_id_active (set : ScenarioSet) : set.get? set.active.id = some set.active := by
  cases hget : set.get? set.activeId with
  | some scenario =>
    have hactive : set.active = scenario := by
      rw [active, hget]
      rfl
    rw [hactive, id_of_get?_eq_some hget, hget]
  | none =>
    have hactive : set.active = set.first := by
      rw [active, hget]
      rfl
    -- the first scenario is the first with its own id
    obtain ⟨_ | ⟨first, rest⟩, activeId, baselineId, hne⟩ := set
    · exact absurd rfl hne
    · rw [hactive]
      exact List.find?_cons_of_pos (beq_self_eq_true _)

theorem getElem?_activeIndex (set : ScenarioSet) :
    set.scenarios[set.activeIndex]? = some set.active := by
  have hget := set.get?_id_active
  rw [get?, List.find?_eq_getElem?_findIdx] at hget
  exact hget

/-! ## Switching a buff on -/

variable {buff : BuffId} {on : ScenarioSet}

theorem active_toggle_of_off {scenario : Scenario} (hoff : scenario.active.contains buff = false) :
    (scenario.toggle buff).active = scenario.active.insert buff := by
  rw [Scenario.toggle, hoff]
  rfl

/-- A buff that is off in the active scenario is switched on there, and the list is else the same. -/
theorem toggle?_of_off (hoff : set.active.active.contains buff = false) :
    ∃ on, set.toggle? set.active.id buff = some (true, on)
      ∧ on.scenarios = set.scenarios.modify set.activeIndex (·.toggle buff) := by
  refine ⟨{ set with
    scenarios := updateFirst set.active.id (·.toggle buff) set.scenarios
    scenarios_ne_nil := updateFirst_ne_nil set.scenarios_ne_nil }, ?_, ?_⟩
  · rw [toggle?, get?_id_active, Option.map_some, hoff]
    rfl
  · exact updateFirst_eq_modify _ _ _

/-- After that the active scenario has the value under its buffs and this one, and every other
scenario the value it had. -/
theorem map_value_compare_of_modify (sheet : Sheet) (target : String)
    (hoff : set.active.active.contains buff = false)
    (hon : on.scenarios = set.scenarios.modify set.activeIndex (·.toggle buff)) (i : Nat) :
    (on.compare sheet target)[i]?.map Outcome.value
      = if i = set.activeIndex then
          some (sheet.valueUnder (set.active.active.insert buff) target)
        else (set.compare sheet target)[i]?.map Outcome.value := by
  rw [compare, compare, Sheet.map_value_compare, Sheet.map_value_compare, hon]
  -- only the scenario at the active place has changed
  by_cases hi : i = set.activeIndex
  · rw [if_pos hi, hi, List.getElem?_modify_eq, getElem?_activeIndex]
    show some (sheet.valueUnder (set.active.toggle buff).active target) = _
    rw [active_toggle_of_off hoff]
  · rw [if_neg hi, List.getElem?_modify_ne _ _ (Ne.symm hi)]

/-- **A preview is what toggling delivers.** There is one preview for each buff that is off in the
active scenario, in the order of the buffs. To toggle that buff switches it on, and a comparison then
gives the active scenario the value that was previewed, and every other scenario the value it had.
The previewed change is that from the value before to the value after. Ids may repeat, among the
scenarios and among the buffs. -/
theorem toggle_delivers_preview (set : ScenarioSet) (sheet : Sheet) (target : String) :
    (sheet.preview set.active.active target).map Preview.buff
        = (sheet.buffs.filter fun buff => !set.active.active.contains buff.id).map Buff.id
      ∧ set.scenarios[set.activeIndex]? = some set.active
      ∧ ∀ preview ∈ sheet.preview set.active.active target,
          ∃ on before after, set.toggle? set.active.id preview.buff = some (true, on)
            ∧ (set.compare sheet target)[set.activeIndex]? = some before
            ∧ (on.compare sheet target)[set.activeIndex]? = some after
            ∧ after.value = preview.value
            ∧ preview.delta = .between before.value after.value
            ∧ ∀ i, i ≠ set.activeIndex →
                (on.compare sheet target)[i]?.map Outcome.value
                  = (set.compare sheet target)[i]?.map Outcome.value := by
  refine ⟨?_, set.getElem?_activeIndex, ?_⟩
  · rw [Sheet.preview, List.map_map]
    rfl
  · intro preview hpreview
    obtain ⟨buff, hbuff, rfl⟩ := List.mem_map.mp hpreview
    have hoff : set.active.active.contains buff.id = false := by
      simpa using (List.mem_filter.mp hbuff).2
    obtain ⟨on, htoggle, hon⟩ := toggle?_of_off hoff
    have hvalues := map_value_compare_of_modify sheet target hoff hon
    -- the value before is that of the selected scenario as it is
    have hbefore : (set.compare sheet target)[set.activeIndex]?.map Outcome.value
        = some (sheet.valueUnder set.active.active target) := by
      rw [compare, Sheet.map_value_compare, getElem?_activeIndex, Option.map_some]
    -- the value after is at the same index, the only one that changes
    have hafter := hvalues set.activeIndex
    rw [if_pos rfl] at hafter
    obtain ⟨before, hbefore, hvalueBefore⟩ := Option.map_eq_some_iff.mp hbefore
    obtain ⟨after, hafter, hvalueAfter⟩ := Option.map_eq_some_iff.mp hafter
    refine ⟨on, before, after, htoggle, hbefore, hafter, hvalueAfter, ?_, fun i hi => ?_⟩
    · rw [hvalueBefore, hvalueAfter]
    · rw [hvalues i, if_neg hi]

end ScenarioSet

/-- Two buffs share the id that is previewed, and two scenarios that of the active one. Both buffs
go on, in the first of these scenarios only. -/
theorem shared_ids_preview :
    let sheet : Sheet := ⟨[⟨"r", "A", "10"⟩, ⟨"s", "B", "A * 2"⟩],
      [⟨"x", "Low", [⟨"m", "A", .flat, -1.0⟩]⟩, ⟨"y", "High", [⟨"m", "A", .flat, 5.0⟩]⟩,
        ⟨"y", "Higher", [⟨"m", "B", .multiplicative, 1.0⟩]⟩]⟩
    let set : ScenarioSet := ⟨[⟨"a", "Plain", ∅⟩, ⟨"b", "Now", .ofList ["x"]⟩, ⟨"b", "Then", ∅⟩],
      "b", "a", List.cons_ne_nil _ _⟩
    let preview : Preview := ⟨"y", 56.0, .between 18.0 56.0⟩
    preview ∈ sheet.preview set.active.active "B"
      ∧ ∃ on before after, set.toggle? set.active.id preview.buff = some (true, on)
          ∧ (set.compare sheet "B")[set.activeIndex]? = some before
          ∧ (on.compare sheet "B")[set.activeIndex]? = some after
          ∧ after.value = preview.value
          ∧ preview.delta = .between before.value after.value
          ∧ ∀ i, i ≠ set.activeIndex →
              (on.compare sheet "B")[i]?.map Outcome.value
                = (set.compare sheet "B")[i]?.map Outcome.value := by
  intro sheet set preview
  have hpreview : preview ∈ sheet.preview set.active.active "B" := by decide +kernel
  exact ⟨hpreview, (set.toggle_delivers_preview sheet "B").2.2 preview hpreview⟩

end FormulaSheet
