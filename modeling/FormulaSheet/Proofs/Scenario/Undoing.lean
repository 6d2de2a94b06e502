import FormulaSheet.Proofs.Scenario.Selections

/-!
# FormulaSheet — undoing edits of a scenario set

An edit that is refused changes nothing, and an edit that was made can be taken back: a toggle by
the same toggle, and a scenario that was added by its removal. Ids may repeat, but an edit and the
one that takes it back mean the same scenario.

* `Scenario.contains_toggle` — a toggle is an exclusive or, so toggles cancel and commute.
* `find?_updateFirst`, `updateFirst_updateFirst`, `updateFirst_comm` — what an update of the first
  scenario with an id leaves to a search and to another update.
* `edit?_eq_none_iff` — which edits are refused.
* `edit_toggle_toggle`, `edit_toggle_comm`, `Sound.remove?_push` — what takes an edit back, and which
  edits do not touch each other.
* `edits_undone` — the headline.
-/

namespace FormulaSheet

/-! ## Toggles of one scenario -/

theorem compare_beq_eq (buff other : BuffId) : (compare buff other == .eq) = (buff == other) := by
  rw [Bool.eq_iff_iff, beq_iff_eq, beq_iff_eq, Std.LawfulEqCmp.compare_eq_iff_eq]

theorem contains_erase (active : ActivationSet) (buff other : BuffId) :
    (active.erase buff).contains other = (other != buff && active.contains other) := by
  rw [Std.ExtTreeSet.contains_erase, bne, compare_beq_eq, bne, Bool.beq_comm]

namespace Scenario

variable {scenario : Scenario} {buff : BuffId}

theorem id_toggle (buff : BuffId) (scenario : Scenario) : (scenario.toggle buff).id = scenario.id := rfl

/-- A toggle turns its own buff over and no other. -/
theorem contains_toggle (scenario : Scenario) (buff other : BuffId) :
    (scenario.toggle buff).active.contains other
      = ((buff == other) ^^ scenario.active.contains other) := by
  rw [toggle]
  split
  · next hon =>
    -- a buff that is on is taken out
    rw [contains_erase]
    by_cases hother : buff = other
    · rw [← hother, hon, beq_self_eq_true, bne_self_eq_false]
      rfl
    · rw [beq_false_of_ne hother, Bool.false_xor, bne_iff_ne.mpr (Ne.symm hother), Bool.true_and]
  · next hoff =>
    -- one that is off is put in
    rw [Std.ExtTreeSet.contains_insert, compare_beq_eq]
    by_cases hother : buff = other
    · rw [← hother, Bool.eq_false_iff.mpr hoff, beq_self_eq_true]
      rfl
    · rw [beq_false_of_ne hother, Bool.false_xor, Bool.false_or]

/-- A scenario is determined by its id, its name and the buffs that are on. -/
theorem eq_of_contains {other : Scenario} (hid : scenario.id = other.id)
    (hname : scenario.name = other.name)
    (h : ∀ buff, scenario.active.contains buff = other.active.contains buff) :
    scenario = other := by
  obtain ⟨id, name, active⟩ := scenario
  obtain rfl : id = other.id := hid
  obtain rfl : name = other.name := hname
  obtain rfl : active = other.active := Std.ExtTreeSet.ext_contains h
  rfl

theorem toggle_toggle (scenario : Scenario) (buff : BuffId) :
    (scenario.toggle buff).toggle buff = scenario := by
  refine eq_of_contains rfl rfl fun other => ?_
  rw [contains_toggle, contains_toggle, ← Bool.xor_assoc, Bool.xor_self, Bool.false_xor]

/-- Two toggles may be made in either order, of the same buff as well. -/
theorem toggle_comm (scenario : Scenario) (buff other : BuffId) :
    (scenario.toggle buff).toggle other = (scenario.toggle other).toggle buff := by
  refine eq_of_contains rfl rfl fun third => ?_
  rw [contains_toggle, contains_toggle, contains_toggle, contains_toggle, Bool.xor_left_comm]

end Scenario

namespace ScenarioSet

variable {set : ScenarioSet} {id other : ScenarioId} {buff : BuffId}

/-! ## Updates of the first scenario with an id -/

section Updates

variable {f g : Scenario → Scenario} {scenarios : List Scenario}

/-- A search finds the scenario that it found before, updated if it has the id of the update. -/
theorem find?_updateFirst (hf : ∀ scenario, (f scenario).id = scenario.id) (id other : ScenarioId)
    (scenarios : List Scenario) :
    (updateFirst id f scenarios).find? (fun scenario => scenario.id == other)
      = (scenarios.find? fun scenario => scenario.id == other).map
        fun scenario => if other = id then f scenario else scenario := by
  induction scenarios with
  | nil => rfl
  | cons scenario rest ih =>
    rw [updateFirst]
    by_cases hid : scenario.id = id
    · -- the update is made here, and the id it is found by is kept
      subst hid
      by_cases hother : scenario.id = other
      · simp [hf, hother]
      · simp [hf, hother, Ne.symm hother]
    · by_cases hother : scenario.id = other
      · subst hother
        simp [hid]
      · simp [hid, hother, ih]

/-- Two updates of the scenario with an id are one, if the first keeps the id. -/
theorem updateFirst_updateFirst (hf : ∀ scenario, (f scenario).id = scenario.id)
    (id : ScenarioId) (scenarios : List Scenario) :
    updateFirst id g (updateFirst id f scenarios) = updateFirst id (g ∘ f) scenarios := by
  induction scenarios with
  | nil => rfl
  | cons scenario rest ih =>
    by_cases hid : (scenario.id == id) = true
    · have hupdated : ((f scenario).id == id) = true := by rw [hf, hid]
      rw [updateFirst, if_pos hid, updateFirst, if_pos hupdated, updateFirst, if_pos hid]
      rfl
    · rw [updateFirst, if_neg hid, updateFirst, if_neg hid, updateFirst, if_neg hid, ih]

theorem updateFirst_self (id : ScenarioId) (scenarios : List Scenario) :
    updateFirst id (fun scenario => scenario) scenarios = scenarios := by
  induction scenarios with
  | nil => rfl
  | cons scenario rest ih => rw [updateFirst, ih, ite_self]

/-- Updates of scenarios with different ids do not touch each other. -/
theorem updateFirst_comm (hf : ∀ scenario, (f scenario).id = scenario.id)
    (hg : ∀ scenario, (g scenario).id = scenario.id) (h : id ≠ other) (scenarios : List Scenario) :
    updateFirst other g (updateFirst id f scenarios)
      = updateFirst id f (updateFirst other g scenarios) := by
  induction scenarios with
  | nil => rfl
  | cons scenario rest ih =>
    -- each scenario is changed by one of the two updates at most
    by_cases hid : scenario.id = id
    · simp [updateFirst, hid, hf, h]
    · by_cases hother : scenario.id = other
      · simp [updateFirst, hother, hg, Ne.symm h]
      · simp [updateFirst, hid, hother, ih]

theorem updateFirst_of_not_mem (h : id ∉ scenarios.map Scenario.id) :
    updateFirst id f scenarios = scenarios := by
  induction scenarios with
  | nil => rfl
  | cons scenario rest ih =>
    rw [List.map_cons, List.mem_cons, not_or] at h
    rw [updateFirst, if_neg (by simpa using Ne.symm h.1), ih h.2]

end Updates

/-! ## Refused edits -/

/-- The set after an edit, if the edit is not refused. -/
def edit? (set : ScenarioSet) : Edit → Option ScenarioSet
  | .selectActive id => set.selectActive? id
  | .selectBaseline id => set.selectBaseline? id
  | .push scenario => some (set.push scenario)
  | .toggle id buff => (set.toggle? id buff).map Prod.snd
  | .duplicate id newId => (set.duplicate? id newId).map Prod.snd
  | .remove id => (set.remove? id).map Prod.snd
  | .forget buff => some (set.forget buff)

/-- The edit names no scenario of the set, or it would leave none. -/
def Refuses (set : ScenarioSet) : Edit → Prop
  | .selectActive id | .selectBaseline id | .toggle id _ | .duplicate id _ => id ∉ set.ids
  | .remove id => id ∉ set.ids ∨ set.scenarios.length = 1
  | .push _ | .forget _ => False

/-- An edit is the one that may be refused, with the set kept where it is. -/
theorem edit_eq_getD (set : ScenarioSet) (e : Edit) : set.edit e = (set.edit? e).getD set := by
  cases e <;> rfl

theorem get?_eq_none_iff : set.get? id = none ↔ id ∉ set.ids := by
  rw [← isSome_get?_iff, Option.not_isSome_iff_eq_none]

/-- The scenario that is removed is one of the list. -/
theorem length_removeFirst {scenarios : List Scenario} (h : id ∈ scenarios.map Scenario.id) :
    (removeFirst id scenarios).length + 1 = scenarios.length := by
  induction scenarios with
  | nil => cases h
  | cons scenario rest ih =>
    rw [removeFirst]
    split
    · rfl
    · next hid =>
      have hrest : id ∈ rest.map Scenario.id := by
        rw [List.map_cons, List.mem_cons] at h
        exact h.resolve_left fun heq => hid (beq_iff_eq.mpr heq.symm)
      rw [List.length_cons, ih hrest, List.length_cons]

/-- A removal is refused for an id that is missing and for the last scenario. -/
theorem remove?_eq_none_iff :
    set.remove? id = none ↔ id ∉ set.ids ∨ set.scenarios.length = 1 := by
  rw [remove?]
  by_cases hmem : id ∈ set.ids
  · obtain ⟨removed, hget⟩ := Option.isSome_iff_exists.mp (isSome_get?_iff.mpr hmem)
    have hlength := length_removeFirst hmem
    -- a list of one has nothing left without it
    cases hleft : removeFirst id set.scenarios with
    | nil =>
      rw [hleft] at hlength
      simp [hget, hmem, ← hlength]
    | cons first rest =>
      rw [hleft, List.length_cons] at hlength
      simp only [hget, reduceCtorEq, hmem, not_true_eq_false, false_or, false_iff]
      omega
  · simp [get?_eq_none_iff.mpr hmem, hmem]

/-- The refused edits are those that `Refuses` lists. One case for each edit. -/
theorem edit?_eq_none_iff {e : Edit} : set.edit? e = none ↔ set.Refuses e := by
  cases e with
  | selectActive id => rw [edit?, selectActive?, Option.map_eq_none_iff, get?_eq_none_iff, Refuses]
  | selectBaseline id =>
    rw [edit?, selectBaseline?, Option.map_eq_none_iff, get?_eq_none_iff, Refuses]
  | push scenario => simp [edit?, Refuses]
  | toggle id buff =>
    rw [edit?, toggle?, Option.map_map, Option.map_eq_none_iff, get?_eq_none_iff, Refuses]
  | duplicate id newId =>
    rw [edit?, duplicate?, Option.map_map, Option.map_eq_none_iff, get?_eq_none_iff, Refuses]
  | remove id => rw [edit?, Option.map_eq_none_iff, remove?_eq_none_iff, Refuses]
  | forget buff => simp [edit?, Refuses]

/-! ## Toggles -/

theorem eq_of_parts {set' : ScenarioSet} (hscenarios : set.scenarios = set'.scenarios)
    (hactive : set.activeId = set'.activeId) (hbaseline : set.baselineId = set'.baselineId) :
    set = set' := by
  obtain ⟨scenarios, activeId, baselineId, hne⟩ := set
  obtain rfl : scenarios = set'.scenarios := hscenarios
  obtain rfl : activeId = set'.activeId := hactive
  obtain rfl : baselineId = set'.baselineId := hbaseline
  rfl

/-- A toggle that is not refused answers for the scenario that is found, and is the edit. -/
theorem toggle?_eq (set : ScenarioSet) (id : ScenarioId) (buff : BuffId) :
    set.toggle? id buff = (set.get? id).map fun scenario =>
      (!scenario.active.contains buff, set.edit (.toggle id buff)) := by
  rw [edit, toggle?]
  cases set.get? id <;> rfl

/-- A toggle that is refused would change nothing, either. -/
theorem scenarios_edit_toggle (set : ScenarioSet) (id : ScenarioId) (buff : BuffId) :
    (set.edit (.toggle id buff)).scenarios = updateFirst id (·.toggle buff) set.scenarios := by
  rw [edit, toggle?]
  cases hget : set.get? id with
  | none => exact (updateFirst_of_not_mem (get?_eq_none_iff.mp hget)).symm
  | some scenario => rfl

theorem activeId_edit_toggle (set : ScenarioSet) (id : ScenarioId) (buff : BuffId) :
    (set.edit (.toggle id buff)).activeId = set.activeId := by
  rw [edit, toggle?]
  cases set.get? id <;> rfl

theorem baselineId_edit_toggle (set : ScenarioSet) (id : ScenarioId) (buff : BuffId) :
    (set.edit (.toggle id buff)).baselineId = set.baselineId := by
  rw [edit, toggle?]
  cases set.get? id <;> rfl

/-- After a toggle every id finds the scenario it found before, and the one that is toggled has its
buff turned over. -/
theorem get?_edit_toggle (set : ScenarioSet) (id other : ScenarioId) (buff : BuffId) :
    (set.edit (.toggle id buff)).get? other
      = (set.get? other).map fun scenario =>
        if other = id then scenario.toggle buff else scenario := by
  rw [get?, scenarios_edit_toggle]
  exact find?_updateFirst (Scenario.id_toggle buff) id other set.scenarios

/-- A set is as it was after the same toggle twice. -/
theorem edit_toggle_toggle (set : ScenarioSet) (id : ScenarioId) (buff : BuffId) :
    (set.edit (.toggle id buff)).edit (.toggle id buff) = set := by
  refine eq_of_parts ?_ ?_ ?_
  · have hcancel : (Scenario.toggle · buff) ∘ (Scenario.toggle · buff) = fun scenario => scenario :=
      funext fun scenario => scenario.toggle_toggle buff
    rw [scenarios_edit_toggle, scenarios_edit_toggle, updateFirst_updateFirst (Scenario.id_toggle buff),
      hcancel, updateFirst_self]
  · rw [activeId_edit_toggle, activeId_edit_toggle]
  · rw [baselineId_edit_toggle, baselineId_edit_toggle]

/-- Toggles may be made in either order, of the same scenario as well. -/
theorem edit_toggle_comm (set : ScenarioSet) (id id' : ScenarioId) (buff buff' : BuffId) :
    (set.edit (.toggle id buff)).edit (.toggle id' buff')
      = (set.edit (.toggle id' buff')).edit (.toggle id buff) := by
  refine eq_of_parts ?_ ?_ ?_
  · rw [scenarios_edit_toggle, scenarios_edit_toggle, scenarios_edit_toggle, scenarios_edit_toggle]
    by_cases hid : id = id'
    · subst hid
      -- two toggles of one scenario are made to it one after the other
      have hcomm : (Scenario.toggle · buff') ∘ (Scenario.toggle · buff)
          = (Scenario.toggle · buff) ∘ (Scenario.toggle · buff') :=
        funext fun scenario => scenario.toggle_comm buff buff'
      rw [updateFirst_updateFirst (Scenario.id_toggle buff), hcomm,
        updateFirst_updateFirst (Scenario.id_toggle buff')]
    · exact updateFirst_comm (Scenario.id_toggle buff) (Scenario.id_toggle buff') hid set.scenarios
  · rw [activeId_edit_toggle, activeId_edit_toggle, activeId_edit_toggle, activeId_edit_toggle]
  · rw [baselineId_edit_toggle, baselineId_edit_toggle, baselineId_edit_toggle, baselineId_edit_toggle]

/-- A toggle is undone by itself, and answers the opposite then. -/
theorem toggle?_edit_toggle (h : id ∈ set.ids) (buff : BuffId) :
    ∃ on once, set.toggle? id buff = some (on, once) ∧ once.toggle? id buff = some (!on, set) := by
  obtain ⟨scenario, hget⟩ := Option.isSome_iff_exists.mp (isSome_get?_iff.mpr h)
  refine ⟨_, set.edit (.toggle id buff), by rw [toggle?_eq, hget, Option.map_some], ?_⟩
  rw [toggle?_eq, get?_edit_toggle, hget, edit_toggle_toggle, Option.map_some, if_pos rfl,
    Option.map_some, Scenario.contains_toggle, beq_self_eq_true, Bool.true_xor]

/-- The answer to a toggle does not depend on toggles of another scenario or another buff. -/
theorem map_fst_toggle?_edit {id' : ScenarioId} {buff' : BuffId} (h : (id, buff) ≠ (id', buff')) :
    ((set.edit (.toggle id buff)).toggle? id' buff').map Prod.fst
      = (set.toggle? id' buff').map Prod.fst := by
  -- the answer is that of the buff of the second toggle, which the first has not changed
  have hanswer : ∀ scenario : Scenario,
      (if id' = id then scenario.toggle buff else scenario).active.contains buff'
        = scenario.active.contains buff' := by
    intro scenario
    split
    · next hid =>
      have hbuff : buff ≠ buff' := fun heq => h (by rw [hid, heq])
      rw [Scenario.contains_toggle, beq_false_of_ne hbuff, Bool.false_xor]
    · rfl
  rw [toggle?_eq, toggle?_eq, get?_edit_toggle, Option.map_map, Option.map_map, Option.map_map]
  exact congrArg (fun answer => (set.get? id').map answer)
    (funext fun scenario => congrArg not (hanswer scenario))

/-! ## Additions -/

/-- A scenario with an id of its own is taken out again by this id, and neither selection moves. -/
theorem Sound.remove?_push (h : Sound set) {added : Scenario} (hnew : added.id ∉ set.ids) :
    (set.push added).remove? added.id = some (added, set) := by
  have hothers : ∀ scenario ∈ set.scenarios, scenario.id ≠ added.id := fun scenario hmem heq =>
    hnew (heq ▸ List.mem_map_of_mem hmem)
  have hfound : (set.push added).get? added.id = some added := by
    show (set.scenarios ++ [added]).find? (fun scenario => scenario.id == added.id) = some added
    have hnone : set.scenarios.find? (fun scenario => scenario.id == added.id) = none :=
      List.find?_eq_none.mpr fun scenario hmem => by simpa using hothers scenario hmem
    rw [List.find?_append, hnone, Option.none_or]
    exact List.find?_cons_of_pos (beq_self_eq_true _)
  have hleft : removeFirst added.id (set.push added).scenarios = set.scenarios := by
    show removeFirst added.id (set.scenarios ++ added :: []) = set.scenarios
    rw [removeFirst_append hothers, List.append_nil]
  -- both selections are ids that were there before
  have hkept : ∀ first, ∀ selected ∈ set.ids, reselect added.id first selected = selected := by
    intro first selected hmem
    refine if_neg fun heq => ?_
    obtain rfl : selected = added.id := beq_iff_eq.mp heq
    exact hnew hmem
  obtain ⟨first, rest, hcons⟩ := List.exists_cons_of_ne_nil set.scenarios_ne_nil
  rw [remove?, hfound, hleft, hcons]
  refine congrArg (fun left => some (added, left)) (eq_of_parts hcons.symm ?_ ?_)
  · exact hkept first.id _ h.active
  · exact hkept first.id _ h.baseline

/-- The copy that was added last is the one that is removed again, and the set is as it was. -/
theorem Sound.remove?_duplicate (h : Sound set) (hid : id ∈ set.ids) {newId : ScenarioId}
    (hnew : newId ∉ set.ids) : ∃ copy more, set.duplicate? id newId = some (copy, more)
      ∧ copy.id = newId ∧ more.remove? newId = some (copy, set) := by
  obtain ⟨scenario, hget⟩ := Option.isSome_iff_exists.mp (isSome_get?_iff.mpr hid)
  exact ⟨scenario.copyAs newId, set.push (scenario.copyAs newId),
    by rw [duplicate?, hget, Option.map_some], rfl, h.remove?_push hnew⟩

/-- **Edits of a scenario set can be undone.** An edit is refused if it names no scenario of the set
or would leave none, and then the set stays as it is. A toggle that is made twice restores the set,
with opposite answers. Toggles commute, and those of different scenarios or different buffs do not
change each other's answers. A scenario that is added under an id which is not in the set, be it new
or a copy, is what a removal of this id gives back, and the set is then as it was before, with its
selections. -/
theorem edits_undone (set : ScenarioSet) (h : Reachable set) :
    (∀ e : Edit, (set.edit? e = none ↔ set.Refuses e) ∧ (set.edit? e = none → set.edit e = set))
    ∧ (∀ id ∈ set.ids, ∀ buff, ∃ on once, set.toggle? id buff = some (on, once)
        ∧ once.toggle? id buff = some (!on, set))
    ∧ (∀ id id' buff buff',
        (set.edit (.toggle id buff)).edit (.toggle id' buff')
          = (set.edit (.toggle id' buff')).edit (.toggle id buff)
        ∧ ((id, buff) ≠ (id', buff') →
            ((set.edit (.toggle id buff)).toggle? id' buff').map Prod.fst
              = (set.toggle? id' buff').map Prod.fst))
    ∧ (∀ added : Scenario, added.id ∉ set.ids →
        (set.push added).remove? added.id = some (added, set))
    ∧ (∀ id ∈ set.ids, ∀ newId, newId ∉ set.ids →
        ∃ copy more, set.duplicate? id newId = some (copy, more) ∧ copy.id = newId
          ∧ more.remove? newId = some (copy, set)) := by
  have hsound := h.sound
  refine ⟨fun e => ⟨edit?_eq_none_iff, fun hnone => ?_⟩, fun id hid buff => toggle?_edit_toggle hid buff,
    fun id id' buff buff' => ?_, fun added => hsound.remove?_push,
    fun id hid newId => hsound.remove?_duplicate hid⟩
  · rw [edit_eq_getD, hnone, Option.getD_none]
  · exact ⟨set.edit_toggle_comm id id' buff buff', map_fst_toggle?_edit⟩

end ScenarioSet

/-- The id of both selections is that of two scenarios. A toggle of the first of the two is undone,
with another one in between, and so are additions behind them. -/
theorem twins_edits_undone :
    let set : ScenarioSet := ⟨[⟨"a", "First", ∅⟩, ⟨"b", "Second", .ofList ["x"]⟩, ⟨"b", "Third", ∅⟩],
      "b", "b", List.cons_ne_nil _ _⟩
    let added : Scenario := ⟨"d", "Fourth", .ofList ["x"]⟩
    let both := (set.edit (.toggle "b" "x")).edit (.toggle "b" "y")
    set.Reachable ∧ "b" ∈ set.ids ∧ added.id ∉ set.ids ∧ ("b", "x") ≠ ("b", "y")
      ∧ set.edit? (.remove "c") = none ∧ set.edit (.remove "c") = set
      ∧ (∃ on once, set.toggle? "b" "x" = some (on, once) ∧ once.toggle? "b" "x" = some (!on, set))
      ∧ both = (set.edit (.toggle "b" "y")).edit (.toggle "b" "x")
      ∧ both.scenarios.map (fun scenario => scenario.active.toList) = [[], ["y"], []]
      ∧ ((set.edit (.toggle "b" "x")).toggle? "b" "y").map Prod.fst
        = (set.toggle? "b" "y").map Prod.fst
      ∧ (set.push added).remove? "d" = some (added, set)
      ∧ ∃ copy more, set.duplicate? "b" "d" = some (copy, more) ∧ copy.id = "d"
          ∧ more.remove? "d" = some (copy, set) := by
  intro set added both
  have hbuilt : ScenarioSet.ofList? set.scenarios (some "b") (some "b") = some set := rfl
  have hreachable : set.Reachable := ⟨set, [], .ofList hbuilt, rfl⟩
  have hb : "b" ∈ set.ids := by decide
  have hd : added.id ∉ set.ids := by decide
  have hpairs : ("b", "x") ≠ ("b", "y") := by decide
  obtain ⟨hrefused, htoggle, hcomm, hpush, hduplicate⟩ := ScenarioSet.edits_undone set hreachable
  have hnone : set.edit? (.remove "c") = none :=
    (hrefused (.remove "c")).1.mpr (.inl (by decide))
  obtain ⟨horder, hanswer⟩ := hcomm "b" "b" "x" "y"
  exact ⟨hreachable, hb, hd, hpairs, hnone, (hrefused _).2 hnone, htoggle "b" hb "x", horder,
    by decide, hanswer hpairs, hpush added hd, hduplicate "b" hb "d" hd⟩

end FormulaSheet
