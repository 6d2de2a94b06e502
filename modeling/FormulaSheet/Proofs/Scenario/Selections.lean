import FormulaSheet.Document.Basic

/-!
# FormulaSheet — the selections of an edited scenario set

A scenario set selects two of its scenarios by id. Ids may repeat, and scenarios come and go, but
the two ids are those of scenarios in the set all along.

* `Sound.edit`, `Sound.run` — one edit keeps the selections sound, and so does a list of them.
* `takesOut_remove_iff` — a removal takes out of the list what it gives back.
* `follows_edit` — where a selection is after an edit that does not select.
* `reachable_selections` — the headline, for every set that is built and edited.
-/

namespace FormulaSheet

namespace ScenarioSet

/-! ## Edits -/

/-- An edit of a scenario set. -/
inductive Edit where
  | selectActive (id : ScenarioId)
  | selectBaseline (id : ScenarioId)
  | push (scenario : Scenario)
  | toggle (id : ScenarioId) (buff : BuffId)
  | duplicate (id newId : ScenarioId)
  | remove (id : ScenarioId)
  | forget (buff : BuffId)

/-- Is it an edit of a selection only? -/
def Edit.selects : Edit → Bool
  | selectActive _ | selectBaseline _ => true
  | _ => false

/-- The set after an edit. One that is refused leaves it as it is. -/
def edit (set : ScenarioSet) : Edit → ScenarioSet
  | .selectActive id => (set.selectActive? id).getD set
  | .selectBaseline id => (set.selectBaseline? id).getD set
  | .push scenario => set.push scenario
  | .toggle id buff => ((set.toggle? id buff).map Prod.snd).getD set
  | .duplicate id newId => ((set.duplicate? id newId).map Prod.snd).getD set
  | .remove id => ((set.remove? id).map Prod.snd).getD set
  | .forget buff => set.forget buff

/-- The set after a run of edits. -/
def run (set : ScenarioSet) (edits : List Edit) : ScenarioSet :=
  edits.foldl edit set

/-- A set as it is before any edit. -/
inductive Built : ScenarioSet → Prop
  | ofList {scenarios : List Scenario} {active baseline : Option ScenarioId} {set : ScenarioSet}
      (h : ofList? scenarios active baseline = some set) : Built set
  | baselineAndCurrent (active : ActivationSet) : Built (.baselineAndCurrent active)
  | ofDocument (document : Document) : Built document.scenarioSet

/-- A set after any edits. -/
def Reachable (set : ScenarioSet) : Prop :=
  ∃ start edits, Built start ∧ start.run edits = set

def ids (set : ScenarioSet) : List ScenarioId :=
  set.scenarios.map Scenario.id

variable {set : ScenarioSet} {scenarios : List Scenario} {id first selected : ScenarioId}

/-- An id finds a scenario exactly when it is one of the set. -/
theorem isSome_get?_iff : (set.get? id).isSome = true ↔ id ∈ set.ids := by
  rw [get?, List.find?_isSome, ids, List.mem_map]
  simp only [beq_iff_eq]

theorem id_of_get?_eq_some {scenario : Scenario} (h : set.get? id = some scenario) :
    scenario.id = id := by
  rw [get?] at h
  have hfound := List.find?_some h
  exact beq_iff_eq.mp hfound

/-- An update that keeps the ids keeps their list. -/
theorem map_id_updateFirst {f : Scenario → Scenario}
    (hf : ∀ scenario, (f scenario).id = scenario.id) :
    (updateFirst id f scenarios).map Scenario.id = scenarios.map Scenario.id := by
  induction scenarios with
  | nil => rfl
  | cons scenario rest ih =>
    rw [updateFirst]
    split
    · rw [List.map_cons, List.map_cons, hf]
    · rw [List.map_cons, List.map_cons, ih]

/-- The first scenario with an id is the one that is taken out. -/
theorem removeFirst_append {before after : List Scenario} {removed : Scenario}
    (hbefore : ∀ other ∈ before, other.id ≠ removed.id) :
    removeFirst removed.id (before ++ removed :: after) = before ++ after := by
  induction before with
  | nil => rw [List.nil_append, removeFirst, if_pos (beq_self_eq_true _), List.nil_append]
  | cons other before ih =>
    have hother : ¬ (other.id == removed.id) = true := fun heq =>
      hbefore other List.mem_cons_self (beq_iff_eq.mp heq)
    rw [List.cons_append, removeFirst, if_neg hother,
      ih fun scenario hmem => hbefore scenario (List.mem_cons_of_mem other hmem), List.cons_append]

/-- What a removal takes out, what it leaves, and where it leaves the selections. -/
theorem remove?_eq_some {removed : Scenario} {left : ScenarioSet}
    (h : set.remove? id = some (removed, left)) :
    removed.id = id
      ∧ (∃ before after, set.scenarios = before ++ removed :: after
        ∧ left.scenarios = before ++ after)
      ∧ left.activeId = reselect id left.first.id set.activeId
      ∧ left.baselineId = reselect id left.first.id set.baselineId := by
  rw [remove?] at h
  split at h
  · next found first rest hget hleft =>
    obtain ⟨rfl, rfl⟩ := Prod.mk.inj (Option.some.inj h)
    obtain rfl := id_of_get?_eq_some hget
    -- the scenario that is found is the first with its id, and so is the one that is taken out
    obtain ⟨-, before, after, hsplit, hbefore⟩ := List.find?_eq_some_iff_append.mp hget
    refine ⟨rfl, ⟨before, after, hsplit, ?_⟩, rfl, rfl⟩
    show first :: rest = before ++ after
    rw [← hleft, hsplit]
    exact removeFirst_append fun other hmem => by simpa using hbefore other hmem
  · cases h

/-! ## Sound selections -/

/-- Both selections are ids of scenarios in the set. -/
structure Sound (set : ScenarioSet) : Prop where
  active : set.activeId ∈ set.ids
  baseline : set.baselineId ∈ set.ids

/-- A wanted id is picked where there is one, so that the pick is one of the list. -/
theorem pick_mem {wanted : Option ScenarioId} (hfirst : first ∈ scenarios.map Scenario.id) :
    pick scenarios first wanted ∈ scenarios.map Scenario.id := by
  rw [pick]
  cases hwanted : wanted.filter fun id => scenarios.any fun scenario => scenario.id == id with
  | none => exact hfirst
  | some id =>
    obtain ⟨-, hany⟩ := Option.filter_eq_some_iff.mp hwanted
    obtain ⟨scenario, hmem, hid⟩ := List.any_eq_true.mp hany
    exact List.mem_map.mpr ⟨scenario, hmem, beq_iff_eq.mp hid⟩

namespace Sound

/-- A set that is made of a list selects scenarios of the list. -/
theorem of_ofList? {active baseline : Option ScenarioId}
    (h : ofList? scenarios active baseline = some set) : Sound set := by
  cases scenarios with
  | nil => cases h
  | cons first rest =>
    obtain rfl := Option.some.inj h
    exact ⟨pick_mem List.mem_cons_self, pick_mem List.mem_cons_self⟩

/-- Every way to build a set makes sound selections. -/
theorem of_built (h : Built set) : Sound set := by
  have hdefault : ∀ active, Sound (.baselineAndCurrent active) := fun _ =>
    ⟨List.mem_cons_of_mem _ List.mem_cons_self, List.mem_cons_self⟩
  cases h with
  | ofList h => exact of_ofList? h
  | baselineAndCurrent active => exact hdefault active
  | ofDocument document =>
    rw [Document.scenarioSet]
    cases hset : ofList? document.scenarios _ document.baseline with
    | none => exact hdefault document.active
    | some set => exact of_ofList? hset

variable (h : Sound set)
include h

/-- A set that keeps the selections and has no id less is sound, too. -/
theorem of_subset {set' : ScenarioSet} (hactive : set'.activeId = set.activeId)
    (hbaseline : set'.baselineId = set.baselineId) (hids : set.ids ⊆ set'.ids) : Sound set' :=
  ⟨hactive ▸ hids h.active, hbaseline ▸ hids h.baseline⟩

theorem push (scenario : Scenario) : Sound (set.push scenario) := by
  refine h.of_subset rfl rfl ?_
  show set.ids ⊆ (set.scenarios ++ [scenario]).map Scenario.id
  rw [List.map_append]
  exact List.subset_append_left _ _

/-- A removal may take the only scenario of a selected id, and then the selection is moved to an id
that is left. -/
theorem of_remove? {removed : Scenario} {left : ScenarioSet}
    (hremove : set.remove? id = some (removed, left)) : Sound left := by
  obtain ⟨rfl, ⟨before, after, hset, hleft⟩, hactive, hbaseline⟩ := remove?_eq_some hremove
  have hfirst : left.first.id ∈ left.ids :=
    List.mem_map_of_mem (List.head_mem left.scenarios_ne_nil)
  have hmoved : ∀ selected ∈ set.ids, reselect removed.id left.first.id selected ∈ left.ids := by
    intro selected hmem
    rw [reselect]
    split
    · exact hfirst
    · next hne =>
      -- a selection that is not moved has another id than the scenario taken out
      rw [ids, hset, List.map_append, List.mem_append, List.map_cons, List.mem_cons] at hmem
      rw [ids, hleft, List.map_append, List.mem_append]
      exact hmem.imp_right fun hcons =>
        hcons.resolve_left fun heq => hne (beq_iff_eq.mpr heq)
  constructor
  · rw [hactive]
    exact hmoved _ h.active
  · rw [hbaseline]
    exact hmoved _ h.baseline

/-- **One edit** keeps the selections sound. -/
theorem edit (e : Edit) : Sound (set.edit e) := by
  cases e with
  | selectActive id =>
    rw [ScenarioSet.edit, selectActive?]
    cases hget : set.get? id with
    | none => exact h
    | some scenario =>
      have hid : id ∈ set.ids := isSome_get?_iff.mp (Option.isSome_of_eq_some hget)
      exact ⟨hid, h.baseline⟩
  | selectBaseline id =>
    rw [ScenarioSet.edit, selectBaseline?]
    cases hget : set.get? id with
    | none => exact h
    | some scenario =>
      have hid : id ∈ set.ids := isSome_get?_iff.mp (Option.isSome_of_eq_some hget)
      exact ⟨h.active, hid⟩
  | push scenario => exact h.push scenario
  | toggle id buff =>
    rw [ScenarioSet.edit, toggle?]
    cases hget : set.get? id with
    | none => exact h
    | some scenario =>
      -- a scenario keeps its id when its buffs change
      refine h.of_subset rfl rfl ?_
      show set.ids ⊆ (updateFirst id (·.toggle buff) set.scenarios).map Scenario.id
      rw [map_id_updateFirst (f := (·.toggle buff)) fun _ => rfl]
      exact List.Subset.refl _
  | duplicate id newId =>
    rw [ScenarioSet.edit, duplicate?]
    cases hget : set.get? id with
    | none => exact h
    | some scenario => exact h.push _
  | remove id =>
    rw [ScenarioSet.edit]
    cases hremove : set.remove? id with
    | none => exact h
    | some result => exact h.of_remove? hremove
  | forget buff =>
    refine h.of_subset rfl rfl ?_
    show set.ids ⊆ (set.scenarios.map (·.forget buff)).map Scenario.id
    rw [List.map_map]
    exact List.Subset.refl _

/-- Any run of edits keeps the selections sound. Induction on the edits. -/
theorem run (edits : List Edit) : Sound (set.run edits) := by
  induction edits generalizing set with
  | nil => exact h
  | cons e rest ih => exact ih (h.edit e)

/-! ### What soundness gives -/

theorem get?_activeId : set.get? set.activeId = some set.active := by
  obtain ⟨scenario, hget⟩ := Option.isSome_iff_exists.mp (isSome_get?_iff.mpr h.active)
  rw [ScenarioSet.active, hget]
  rfl

/-- The baseline is found by its id, so no fallback is taken for it. -/
theorem get?_baselineId : set.get? set.baselineId = some set.baseline := by
  obtain ⟨scenario, hget⟩ := Option.isSome_iff_exists.mp (isSome_get?_iff.mpr h.baseline)
  rw [ScenarioSet.baseline, hget]
  rfl

/-- The set is the one of its own parts. -/
theorem ofList?_parts :
    ofList? set.scenarios (some set.activeId) (some set.baselineId) = some set := by
  -- both selections are ids of the list, so they are picked as wanted
  have hpick : ∀ first, ∀ selected ∈ set.ids,
      pick set.scenarios first (some selected) = selected := by
    intro first selected hmem
    obtain ⟨scenario, hscenario, rfl⟩ := List.mem_map.mp hmem
    exact pick_of_mem hscenario
  obtain ⟨_ | ⟨first, rest⟩, activeId, baselineId, hne⟩ := set
  · exact absurd rfl hne
  · have hactive := hpick first.id activeId h.active
    have hbaseline := hpick first.id baselineId h.baseline
    dsimp only at hactive hbaseline
    rw [ofList?]
    simp only [hactive, hbaseline]

end Sound

/-- Every set that is reached has sound selections. -/
theorem Reachable.sound (h : Reachable set) : Sound set := by
  obtain ⟨start, edits, hbuilt, rfl⟩ := h
  exact (Sound.of_built hbuilt).run edits

/-! ## Edits that do not select -/

/-- The edit is a removal, and it takes a scenario of the id out of the list. -/
def TakesOut (set : ScenarioSet) (e : Edit) (id : ScenarioId) : Prop :=
  (∃ wanted, e = .remove wanted) ∧ ∃ before removed after,
    set.scenarios = before ++ removed :: after ∧ (set.edit e).scenarios = before ++ after
      ∧ removed.id = id

/-- A selection moves if a scenario of its id is taken out, and then to the first one left. Else it
stays. -/
structure Follows (set : ScenarioSet) (e : Edit) (selection : ScenarioSet → ScenarioId) : Prop where
  moved : set.TakesOut e (selection set) → selection (set.edit e) = (set.edit e).first.id
  kept : ¬ set.TakesOut e (selection set) → selection (set.edit e) = selection set

/-- An edit other than a removal takes nothing out. -/
theorem Follows.of_eq {e : Edit} {selection : ScenarioSet → ScenarioId}
    (he : ∀ wanted, e ≠ .remove wanted) (h : selection (set.edit e) = selection set) :
    Follows set e selection :=
  ⟨fun ⟨⟨wanted, hremove⟩, _⟩ => absurd hremove (he wanted), fun _ => h⟩

/-- A list tells which of its items has been taken out, if the list that is left is known. -/
theorem eq_of_append_eq_append {before after before' after' : List Scenario}
    {removed removed' : Scenario} (h : before ++ removed :: after = before' ++ removed' :: after')
    (hleft : before ++ after = before' ++ after') : removed = removed' := by
  have hperm : (removed :: (before ++ after)).Perm (removed' :: (before' ++ after')) :=
    (List.perm_middle.symm.trans (List.Perm.of_eq h)).trans List.perm_middle
  have hcount := hperm.count_eq removed
  rw [hleft, List.count_cons_self, List.count_cons] at hcount
  by_cases heq : removed' = removed
  · exact heq.symm
  · rw [if_neg (by simpa using heq)] at hcount
    omega

/-- A removal takes out what it gives back, and nothing if it is refused. -/
theorem takesOut_remove_iff :
    set.TakesOut (.remove id) selected ↔
      ∃ removed left, set.remove? id = some (removed, left) ∧ removed.id = selected := by
  constructor
  · rintro ⟨-, before, removed, after, hset, hleft, rfl⟩
    rw [edit] at hleft
    cases hremove : set.remove? id with
    | none =>
      -- the list has not become shorter
      rw [hremove] at hleft
      have hlength := congrArg List.length (hset.symm.trans hleft)
      simp at hlength
    | some result =>
      obtain ⟨removed', left⟩ := result
      rw [hremove] at hleft
      obtain ⟨-, ⟨before', after', hset', hleft'⟩, -⟩ := remove?_eq_some hremove
      have heq : removed' = removed :=
        eq_of_append_eq_append (hset'.symm.trans hset) (hleft'.symm.trans hleft)
      exact ⟨removed', left, rfl, congrArg Scenario.id heq⟩
  · rintro ⟨removed, left, hremove, hid⟩
    obtain ⟨-, ⟨before, after, hset, hleft⟩, -⟩ := remove?_eq_some hremove
    refine ⟨⟨id, rfl⟩, before, removed, after, hset, ?_, hid⟩
    rw [edit, hremove]
    exact hleft

/-- A selection that is only reselected when its scenario is removed moves only then. -/
theorem Follows.of_reselect {selection : ScenarioSet → ScenarioId}
    (h : ∀ removed left, set.remove? id = some (removed, left) → removed.id = id
      ∧ selection left = reselect id left.first.id (selection set)) :
    Follows set (.remove id) selection := by
  constructor
  · intro htakes
    obtain ⟨removed, left, hremove, hid⟩ := takesOut_remove_iff.mp htakes
    obtain ⟨hremoved, hselection⟩ := h removed left hremove
    rw [edit, hremove]
    show selection left = left.first.id
    rw [hselection, reselect, if_pos (beq_iff_eq.mpr (hid.symm.trans hremoved))]
  · intro hnot
    rw [edit]
    cases hremove : set.remove? id with
    | none => rfl
    | some result =>
      obtain ⟨removed, left⟩ := result
      obtain ⟨hremoved, hselection⟩ := h removed left hremove
      show selection left = selection set
      -- the scenario taken out has the id of the removal, so the selection has another one
      have hne : selection set ≠ id := fun heq =>
        hnot (takesOut_remove_iff.mpr ⟨removed, left, hremove, hremoved.trans heq.symm⟩)
      rw [hselection, reselect, if_neg (fun heq => hne (beq_iff_eq.mp heq))]

/-- Edits that do not select move a selection only when its scenario is taken out. One case for each
edit. -/
theorem follows_edit {e : Edit} (h : e.selects = false) :
    Follows set e activeId ∧ Follows set e baselineId := by
  have hsame : (∀ wanted, e ≠ .remove wanted) → (set.edit e).activeId = set.activeId →
      (set.edit e).baselineId = set.baselineId →
      Follows set e activeId ∧ Follows set e baselineId :=
    fun he hactive hbaseline => ⟨.of_eq he hactive, .of_eq he hbaseline⟩
  cases e with
  | selectActive id => cases h
  | selectBaseline id => cases h
  | push scenario => exact hsame nofun rfl rfl
  | toggle id buff =>
    -- whether the id is found or not, the selections are kept
    refine hsame nofun ?_ ?_ <;> rw [edit, toggle?] <;> cases set.get? id <;> rfl
  | duplicate id newId =>
    refine hsame nofun ?_ ?_ <;> rw [edit, duplicate?] <;> cases set.get? id <;> rfl
  | remove id =>
    constructor
    · refine .of_reselect fun removed left hremove => ?_
      obtain ⟨hid, -, hactive, -⟩ := remove?_eq_some hremove
      exact ⟨hid, hactive⟩
    · refine .of_reselect fun removed left hremove => ?_
      obtain ⟨hid, -, -, hbaseline⟩ := remove?_eq_some hremove
      exact ⟨hid, hbaseline⟩
  | forget buff => exact hsame nofun rfl rfl

/-! ## Every reachable set -/

/-- **The selections of a scenario set never dangle.** Scenarios make a set if there are any, and in
every set that is built and edited both selections are ids of scenarios in it. So the scenarios they
select are found, and the set can be built from its parts. An edit that does not select moves a
selection only if it takes the scenario out, and then to the first one left. -/
theorem reachable_selections :
    (∀ scenarios active baseline, scenarios ≠ [] →
      ∃ set, ofList? scenarios active baseline = some set ∧ set.scenarios = scenarios)
    ∧ ∀ set, Reachable set →
        set.scenarios ≠ []
        ∧ (set.activeId ∈ set.ids ∧ set.get? set.activeId = some set.active)
        ∧ (set.baselineId ∈ set.ids ∧ set.get? set.baselineId = some set.baseline)
        ∧ ofList? set.scenarios (some set.activeId) (some set.baselineId) = some set
        ∧ ∀ e : Edit, e.selects = false → Follows set e activeId ∧ Follows set e baselineId := by
  refine ⟨fun scenarios active baseline hne => ?_, fun set hset => ?_⟩
  · cases scenarios with
    | nil => exact absurd rfl hne
    | cons first rest => exact ⟨_, rfl, rfl⟩
  · have hsound := hset.sound
    exact ⟨set.scenarios_ne_nil, ⟨hsound.active, hsound.get?_activeId⟩,
      ⟨hsound.baseline, hsound.get?_baselineId⟩, hsound.ofList?_parts, fun _ => follows_edit⟩

end ScenarioSet

/-- Scenarios among which an id repeats. -/
def repetitive : List Scenario :=
  [⟨"a", "First", ∅⟩, ⟨"b", "Second", .ofList ["x"]⟩, ⟨"a", "Third", .ofList ["y"]⟩]

/-- A set of these, with `a` selected, is edited until `b` is the baseline and the scenario that `a`
selects is taken out. The active selection then moves to `b`, though another `a` is left. -/
theorem repetitive_selections :
    let built : ScenarioSet := ⟨repetitive, "a", "a", List.cons_ne_nil _ _⟩
    let set := built.run [.selectBaseline "b", .selectActive "c", .duplicate "a" "b",
      .toggle "b" "z", .push ⟨"d", "Fourth", ∅⟩, .remove "d", .forget "x"]
    let left := set.edit (.remove "a")
    repetitive ≠ [] ∧ set.Reachable ∧ ScenarioSet.Edit.selects (.remove "a") = false
      ∧ (∃ set, ScenarioSet.ofList? repetitive (some "a") none = some set
        ∧ set.scenarios = repetitive)
      ∧ (set.ids = ["a", "b", "a", "b"] ∧ set.activeId = "a" ∧ set.baselineId = "b")
      ∧ (left.ids = ["b", "a", "b"] ∧ left.activeId = "b" ∧ left.baselineId = "b")
      ∧ (set.activeId ∈ set.ids ∧ set.get? set.activeId = some set.active)
      ∧ (set.baselineId ∈ set.ids ∧ set.get? set.baselineId = some set.baseline)
      ∧ ScenarioSet.ofList? set.scenarios (some set.activeId) (some set.baselineId) = some set
      ∧ set.Follows (.remove "a") ScenarioSet.activeId
      ∧ set.Follows (.remove "a") ScenarioSet.baselineId := by
  intro built set left
  have hne : repetitive ≠ [] := List.cons_ne_nil _ _
  have hbuilt : ScenarioSet.ofList? repetitive (some "a") none = some built := rfl
  have hreachable : set.Reachable := ⟨built, _, .ofList hbuilt, rfl⟩
  have hset : set.ids = ["a", "b", "a", "b"] ∧ set.activeId = "a" ∧ set.baselineId = "b" := by
    decide
  have hleft : left.ids = ["b", "a", "b"] ∧ left.activeId = "b" ∧ left.baselineId = "b" := by
    decide
  obtain ⟨-, hactive, hbaseline, hparts, hfollows⟩ :=
    ScenarioSet.reachable_selections.2 set hreachable
  exact ⟨hne, hreachable, rfl, ScenarioSet.reachable_selections.1 repetitive _ _ hne, hset, hleft,
    hactive, hbaseline, hparts, hfollows _ rfl⟩

end FormulaSheet
