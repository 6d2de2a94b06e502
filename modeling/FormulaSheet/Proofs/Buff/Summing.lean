import FormulaSheet.Buff.Totals

/-!
# FormulaSheet — the sums for one name

The active modifiers are walked over once, and the sums for all names grow side by side. What comes out
for one name can be said without the others: its own modifiers, by kind, are added up from left to right.

* `Aggregation.getElem?_foldl_insertModifier` — the sums of different names do not bear on each other.
  The invariant of the walk: the sums for a name so far are those of its own modifiers so far, whatever
  other names came in between.
* `Totals.foldl_add` — neither do the sums of the two kinds.
* `Aggregation.getElem?_collect` — the sums for one name.
* `Aggregation.collect_filters_and_sums` — the headline.
-/

namespace FormulaSheet

/-! ## The modifiers of a name -/

/-- The modifiers that target a name, in their order. -/
def targeting (name : String) (modifiers : List Modifier) : List Modifier :=
  modifiers.filter fun modifier => modifier.target == name

/-- The values of the modifiers of one kind, in their order. -/
def valuesOf (kind : ModifierKind) (modifiers : List Modifier) : List Float :=
  (modifiers.filter fun modifier => modifier.kind == kind).map Modifier.value

/-- The sum of some values from left to right. -/
def leftSum (values : List Float) : Float := values.foldl (· + ·) 0.0

/-- The sums of some modifiers, whatever they target. -/
def Totals.of (modifiers : List Modifier) : Totals where
  multiplier := leftSum (valuesOf .multiplicative modifiers)
  flat := leftSum (valuesOf .flat modifiers)
  count := (valuesOf .multiplicative modifiers).length + (valuesOf .flat modifiers).length

/-- The active modifiers are those of the active buffs. -/
theorem forall_mem_activeModifiers {buffs : List Buff} {active : ActivationSet} {p : Modifier → Prop} :
    (∀ modifier ∈ activeModifiers buffs active, p modifier)
      ↔ ∀ buff ∈ buffs, active.contains buff.id = true → ∀ modifier ∈ buff.mods, p modifier := by
  simp only [activeModifiers, List.mem_flatMap, List.mem_filter]
  constructor
  · exact fun h buff hbuff hon modifier hmem => h modifier ⟨buff, ⟨hbuff, hon⟩, hmem⟩
  · rintro h modifier ⟨buff, ⟨hbuff, hon⟩, hmem⟩
    exact h buff hbuff hon modifier hmem

theorem targeting_eq_nil_iff {name : String} {modifiers : List Modifier} :
    targeting name modifiers = [] ↔ ∀ modifier ∈ modifiers, modifier.target ≠ name := by
  simp [targeting]

/-! ## The walk -/

/-- The two sums and the count of some modifiers, from what they were in front of these. -/
theorem Totals.foldl_add (modifiers : List Modifier) (totals : Totals) :
    modifiers.foldl add totals = {
      multiplier := (valuesOf .multiplicative modifiers).foldl (· + ·) totals.multiplier
      flat := (valuesOf .flat modifiers).foldl (· + ·) totals.flat
      count := totals.count
        + ((valuesOf .multiplicative modifiers).length + (valuesOf .flat modifiers).length) } := by
  induction modifiers generalizing totals with
  | nil => rfl
  | cons modifier rest ih =>
    obtain ⟨id, target, kind, value⟩ := modifier
    rw [List.foldl_cons, ih]
    -- each modifier goes into one of the two sums, and is counted
    cases kind with
    | multiplicative => simp [add, valuesOf, Nat.add_assoc, Nat.add_comm 1]
    | flat => simp [add, valuesOf, Nat.add_assoc, Nat.add_comm 1]

namespace Aggregation

variable {name : String} {modifiers : List Modifier}

/-- The sums for a name behind some modifiers. By induction on these: one of another name leaves the
sums for the name as they are, and one of the name goes on with them. -/
theorem getElem?_foldl_insertModifier (modifiers : List Modifier) (sums : Aggregation) :
    (modifiers.foldl insertModifier sums)[name]?
      = if targeting name modifiers = [] then sums[name]?
        else some ((targeting name modifiers).foldl Totals.add (sums[name]?.getD .zero)) := by
  induction modifiers generalizing sums with
  | nil => rfl
  | cons modifier rest ih =>
    rw [List.foldl_cons, ih, getElem?_insertModifier]
    by_cases htarget : modifier.target = name
    · -- the first modifier of the name starts its totals, and a further one adds to them
      have hown : targeting name (modifier :: rest) = modifier :: targeting name rest :=
        List.filter_cons_of_pos (beq_iff_eq.mpr htarget)
      rw [if_pos htarget, hown, if_neg (List.cons_ne_nil _ _), List.foldl_cons, Option.getD_some]
      split
      · next hnone => rw [hnone, List.foldl_nil]
      · rfl
    · have hother : targeting name (modifier :: rest) = targeting name rest :=
        List.filter_cons_of_neg (by simpa using htarget)
      rw [if_neg htarget, hother]

/-- **The sums for one name** are those of the active modifiers that target it, if there are any. -/
theorem getElem?_collect (buffs : List Buff) (active : ActivationSet) (name : String) :
    (collect buffs active)[name]?
      = if targeting name (activeModifiers buffs active) = [] then none
        else some (.of (targeting name (activeModifiers buffs active))) := by
  have hempty : (∅ : Aggregation)[name]? = none := Std.ExtTreeMap.getElem?_empty
  rw [collect, ofModifiers, getElem?_foldl_insertModifier, hempty, Option.getD_none, Totals.foldl_add]
  simp only [Totals.zero, Nat.zero_add]
  rfl

/-- The totals are empty exactly when no modifier is active. -/
theorem isEmpty_collect_iff {buffs : List Buff} {active : ActivationSet} :
    (collect buffs active).isEmpty = true ↔ activeModifiers buffs active = [] := by
  rw [Std.ExtTreeMap.isEmpty_iff]
  constructor
  · intro hempty
    refine List.eq_nil_iff_forall_not_mem.mpr fun modifier hmem => ?_
    -- a modifier would have given totals to its own target
    have hnone := getElem?_collect buffs active modifier.target
    rw [hempty, Std.ExtTreeMap.getElem?_empty] at hnone
    split at hnone
    · next hnil => exact targeting_eq_nil_iff.mp hnil modifier hmem rfl
    · cases hnone
  · intro hnil
    rw [collect, hnil]
    rfl

/-! ## What contributes -/

/-- The buff with only those of its modifiers that target a name. -/
def onlyTargeting (name : String) (buff : Buff) : Buff :=
  { buff with mods := targeting name buff.mods }

/-- The active modifiers depend only on which of the buffs are on. -/
theorem activeModifiers_congr {buffs : List Buff} {active other : ActivationSet}
    (h : ∀ buff ∈ buffs, active.contains buff.id = other.contains buff.id) :
    activeModifiers buffs active = activeModifiers buffs other := by
  rw [activeModifiers, List.filter_congr h, activeModifiers]

/-- Buffs that are off add no modifier. -/
theorem activeModifiers_filter (buffs : List Buff) (active : ActivationSet) :
    activeModifiers (buffs.filter fun buff => active.contains buff.id) active
      = activeModifiers buffs active := by
  rw [activeModifiers, List.filter_filter]
  simp only [Bool.and_self]
  rfl

/-- Modifiers of other targets do not matter for a name. -/
theorem targeting_activeModifiers (name : String) (buffs : List Buff) (active : ActivationSet) :
    targeting name (activeModifiers (buffs.map (onlyTargeting name)) active)
      = targeting name (activeModifiers buffs active) := by
  -- a buff without its other modifiers has the same id
  have hon : (fun buff : Buff => active.contains buff.id) ∘ onlyTargeting name
      = fun buff => active.contains buff.id := rfl
  have hown : activeModifiers (buffs.map (onlyTargeting name)) active
      = targeting name (activeModifiers buffs active) := by
    rw [activeModifiers, activeModifiers, List.filter_map, hon, List.flatMap_map, targeting,
      List.filter_flatMap]
    rfl
  rw [hown, targeting, targeting, List.filter_filter]
  simp only [Bool.and_self]

/-- **Aggregation filters by name and sums from left to right.** A name has sums if some modifier of a
buff that is on targets it. They are the sums of these modifiers, of each kind in the order of the buffs
and then of their modifiers, and the number of both. Nothing else contributes: no id that names no buff,
no buff that is off, and no modifier of another name. There are no sums at all if no buff that is on has
a modifier. -/
theorem collect_filters_and_sums (buffs : List Buff) (active : ActivationSet) (name : String) :
    let own := targeting name ((buffs.filter fun buff => active.contains buff.id).flatMap Buff.mods)
    ((collect buffs active)[name]? = none ↔ ∀ buff ∈ buffs, active.contains buff.id = true →
        ∀ modifier ∈ buff.mods, modifier.target ≠ name)
    ∧ (∀ totals, (collect buffs active)[name]? = some totals →
        totals.multiplier = leftSum (valuesOf .multiplicative own)
        ∧ totals.flat = leftSum (valuesOf .flat own)
        ∧ totals.count = (valuesOf .multiplicative own).length + (valuesOf .flat own).length)
    ∧ (∀ other : ActivationSet,
        (∀ buff ∈ buffs, active.contains buff.id = other.contains buff.id) →
          collect buffs active = collect buffs other)
    ∧ collect (buffs.filter fun buff => active.contains buff.id) active = collect buffs active
    ∧ (collect (buffs.map (onlyTargeting name)) active)[name]? = (collect buffs active)[name]?
    ∧ ((collect buffs active).isEmpty = true ↔ ∀ buff ∈ buffs, active.contains buff.id = true →
        buff.mods = []) := by
  intro own
  have hsums := getElem?_collect buffs active name
  refine ⟨?_, ?_, ?_, ?_, ?_, ?_⟩
  · rw [hsums, ← forall_mem_activeModifiers, ← targeting_eq_nil_iff]
    simp
  · intro totals htotals
    rw [hsums] at htotals
    split at htotals
    · cases htotals
    · -- the totals are those of the modifiers that target the name, in their order
      obtain rfl := Option.some.inj htotals
      exact ⟨rfl, rfl, rfl⟩
  · intro other hother
    rw [collect, activeModifiers_congr hother, collect]
  · rw [collect, activeModifiers_filter, collect]
  · rw [getElem?_collect, targeting_activeModifiers, hsums]
  · simp only [isEmpty_collect_iff, List.eq_nil_iff_forall_not_mem]
    exact forall_mem_activeModifiers

/-- Two buffs with one id are on together, and their modifiers of other names do not interfere. -/
example :
    let buffs : List Buff := [
      ⟨"b", "First", [⟨"m1", "A", .flat, 0.1⟩, ⟨"m2", "B", .flat, 9.0⟩, ⟨"m3", "A", .multiplicative, 2.0⟩]⟩,
      ⟨"c", "Off", [⟨"m4", "A", .flat, 7.0⟩]⟩,
      ⟨"b", "Second", [⟨"m5", "A", .flat, 0.2⟩, ⟨"m6", "A", .flat, 0.3⟩]⟩]
    (collect buffs (.ofList ["b", "missing"]))["A"]? = some ⟨2.0, 0.1 + 0.2 + 0.3, 4⟩ := by
  decide

end Aggregation

end FormulaSheet
