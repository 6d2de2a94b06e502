import FormulaSheet.Command.Report
import FormulaSheet.Document.Reading

/-!
# FormulaSheet — a document's own buffs and its scenarios

A document says which buffs are on, and so does the scenario that its scenario set selects. The
command evaluates with the second, and a document on its own with the first. The two are the same
in some documents only:

* `active_scenarioSet_cons` — the scenario that is selected, if any are saved: the first of the
  id of the first one with the document's buffs, or else the first of all.
* `active_scenarioSet_iff` — the headline: it has the document's buffs on if and only if none are
  saved, or the first saved one with these buffs is also the first of its id.
* `saved_scenario_displaces_own_buffs` — a text that is read as a document in which it has not.
-/

namespace FormulaSheet

namespace Document

variable {document : Document}

/-- The document's own buffs are those that its scenarios select: none are saved, or the first
saved one with these buffs on is also the first of its id. -/
def SelectsOwnBuffs (document : Document) : Prop :=
  document.scenarios = [] ∨ ∃ before saved after,
    document.scenarios = before ++ saved :: after ∧ saved.active = document.active
      ∧ ∀ other ∈ before, other.active ≠ document.active ∧ other.id ≠ saved.id

/-! ## The selected scenario -/

theorem active_scenarioSet_nil (h : document.scenarios = []) :
    document.scenarioSet.active = ⟨"current", "Current", document.active⟩ := by
  rw [scenarioSet, h]
  rfl

/-- The selected scenario of a document that has some saved. The search by buffs yields an id,
and the search by this id the scenario. -/
theorem active_scenarioSet_cons {first : Scenario} {rest : List Scenario}
    (h : document.scenarios = first :: rest) :
    document.scenarioSet.active =
      match document.scenarios.find? fun scenario => decide (scenario.active = document.active) with
      | none => first
      | some saved => (document.scenarios.find? fun scenario => scenario.id == saved.id).getD first := by
  rw [scenarioSet, h]
  cases hfind : (first :: rest).find? fun scenario => decide (scenario.active = document.active) with
  | none =>
    -- no scenario has the same buffs, so the first one is selected
    show (List.find? (fun scenario => scenario.id == first.id) (first :: rest)).getD first = first
    simp only [List.find?_cons, beq_self_eq_true, Option.getD_some]
  | some saved =>
    -- the one that has them is selected by its id, which finds the first with that id
    have hpick : ScenarioSet.pick (first :: rest) first.id (some saved.id) = saved.id :=
      ScenarioSet.pick_of_mem (List.mem_of_find?_eq_some hfind)
    show (List.find? (fun scenario =>
      scenario.id == ScenarioSet.pick (first :: rest) first.id (some saved.id)) _).getD first = _
    rw [hpick]
    rfl

/-- The scenario that is selected has the document's buffs on, if the document selects them. -/
theorem SelectsOwnBuffs.active_eq (h : document.SelectsOwnBuffs) :
    document.scenarioSet.active.active = document.active := by
  rcases h with hnil | ⟨before, saved, after, hsplit, hsaved, hbefore⟩
  · rw [active_scenarioSet_nil hnil]
  · -- both searches stop at the same scenario
    have hbuffs : document.scenarios.find?
        (fun scenario => decide (scenario.active = document.active)) = some saved := by
      rw [List.find?_eq_some_iff_append]
      exact ⟨by simpa using hsaved, before, after, hsplit,
        fun other hmem => by simpa using (hbefore other hmem).1⟩
    have hid : document.scenarios.find? (fun scenario => scenario.id == saved.id) = some saved := by
      rw [List.find?_eq_some_iff_append]
      exact ⟨beq_self_eq_true _, before, after, hsplit,
        fun other hmem => by simpa using (hbefore other hmem).2⟩
    cases hcons : document.scenarios with
    | nil => simp [hcons] at hsplit
    | cons first rest =>
      rw [active_scenarioSet_cons hcons, hbuffs]
      simp only [hid, Option.getD_some]
      exact hsaved

/-- If the scenario that is selected has the document's buffs on, the document selects them. -/
theorem selectsOwnBuffs_of_active_eq
    (h : document.scenarioSet.active.active = document.active) : document.SelectsOwnBuffs := by
  cases hcons : document.scenarios with
  | nil => exact .inl hcons
  | cons first rest =>
    rw [active_scenarioSet_cons hcons] at h
    cases hfind : document.scenarios.find?
        fun scenario => decide (scenario.active = document.active) with
    | none =>
      -- no scenario has the document's buffs, the first one included
      have hfirst := List.find?_eq_none.mp hfind first (by rw [hcons]; exact List.mem_cons_self)
      rw [hfind] at h
      exact absurd h (by simpa using hfirst)
    | some saved =>
      obtain ⟨hsaved, before, after, hsplit, hbefore⟩ := List.find?_eq_some_iff_append.mp hfind
      refine .inr ⟨before, saved, after, hsplit, by simpa using hsaved, fun other hmem => ?_⟩
      have hother : ∀ scenario ∈ before, scenario.active ≠ document.active :=
        fun scenario hscenario => by simpa using hbefore scenario hscenario
      refine ⟨hother other hmem, fun hid => ?_⟩
      -- otherwise the search by id ends before the saved scenario
      obtain ⟨displacing, hdisplacing⟩ : ∃ scenario,
          before.find? (fun scenario => scenario.id == saved.id) = some scenario :=
        Option.isSome_iff_exists.mp (List.find?_isSome.mpr ⟨other, hmem, by simpa using hid⟩)
      rw [hfind] at h
      simp only [hsplit, List.find?_append, hdisplacing, Option.some_or, Option.getD_some] at h
      exact hother displacing (List.mem_of_find?_eq_some hdisplacing) h

/-! ## What the command evaluates -/

/-- Without a choice of its own, the command lists the rows as they evaluate under the selected
scenario. -/
theorem ofLoaded_lines {options : Options} (h : options.scenario = none) (document : Document) :
    ∃ more, (Report.ofLoaded options (.ok document)).lines
      = Report.listing document.sheet (document.sheet.evaluate document.scenarioSet.active.active)
        ++ more := by
  rw [Report.ofLoaded, Report.ofDocument, h]
  exact ⟨_, rfl⟩

/-- **When the command evaluates with the document's own buffs.** The selected scenario has them
on if and only if the document selects them, and then its evaluation is that of the document.
What the command lists, given the text of the document and no choice of a scenario, is the
evaluation under the selected one. -/
theorem active_scenarioSet_iff (document : Document) :
    (document.scenarioSet.active.active = document.active ↔ document.SelectsOwnBuffs)
    ∧ (document.SelectsOwnBuffs →
        document.sheet.evaluate document.scenarioSet.active.active = document.evaluate)
    ∧ ∀ (source : String) (options : Options), read source = .ok document →
        options.scenario = none → ∃ more, (Report.ofLoaded options (read source)).lines
          = Report.listing document.sheet (document.sheet.evaluate document.scenarioSet.active.active)
            ++ more := by
  refine ⟨⟨selectsOwnBuffs_of_active_eq, SelectsOwnBuffs.active_eq⟩, fun h => ?_, ?_⟩
  · rw [h.active_eq, evaluate]
  · -- the listing is that of the selected scenario
    intro source options hread hnone
    rw [hread]
    exact ofLoaded_lines hnone document

/-- A document with a buff on and one saved scenario, which has none on. -/
def displacedBuffs : String :=
  "\x7b\"rows\": [[\"r\", \"A\", \"1\"]], \"buffs\": [[\"b\", \"B\", [[\"m\", \"A\", \"flat\", 1]]]],
    \"activeBuffIds\": [\"b\"], \"scenarios\": [[\"s\", \"S\", []]]\x7d"

/-- A saved scenario with other buffs on displaces those of the document: the text is read, the
scenario that it selects has other buffs on, and the row has another value under it. -/
theorem saved_scenario_displaces_own_buffs :
    ∃ document, Document.read displacedBuffs = .ok document
      ∧ document.scenarioSet.active.active ≠ document.active
      ∧ document.evaluate.targetValue "A" = 2.0
      ∧ (document.sheet.evaluate document.scenarioSet.active.active).targetValue "A" = 1.0 := by
  let document : Document :=
    ⟨1, ⟨[⟨"r", "A", "1"⟩], [⟨"b", "B", [⟨"m", "A", .flat, 1.0⟩]⟩]⟩, .ofList ["b"], none,
      [⟨"s", "S", ∅⟩], none⟩
  have hread : (Document.read displacedBuffs).toOption = some document := by decide +kernel
  refine ⟨document, ?_, by decide +kernel, by decide +kernel, by decide +kernel⟩
  cases hresult : Document.read displacedBuffs with
  | error e => rw [hresult] at hread; exact nomatch hread
  | ok found => rw [hresult] at hread; exact congrArg Except.ok (Option.some.inj hread)

end Document

end FormulaSheet
