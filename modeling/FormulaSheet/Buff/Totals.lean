import Std.Data.ExtTreeMap
import FormulaSheet.Buff.Basic

/-!
# FormulaSheet — summed modifiers

One walk over the active modifiers sums them up for all their targets at once. Sums run
from left to right and start at zero, which is part of their meaning: doubles do not add
up to the same in another order. A name has sums if some modifier targets it
(`isSome_ofModifiers_iff`).
-/

namespace FormulaSheet

/-- The sums of the modifiers with one target. -/
structure Totals where
  multiplier : Float
  flat : Float
  count : Nat
deriving DecidableEq

namespace Totals

def zero : Totals := ⟨0.0, 0.0, 0⟩

def add (totals : Totals) (modifier : Modifier) : Totals :=
  match modifier.kind with
  | .multiplicative =>
    { totals with multiplier := totals.multiplier + modifier.value, count := totals.count + 1 }
  | .flat => { totals with flat := totals.flat + modifier.value, count := totals.count + 1 }

/-- A row is buffed if some modifier targets it, even if all of them sum up to nothing. -/
def isBuffed (totals : Totals) : Bool :=
  totals.multiplier != 0.0 || totals.flat != 0.0 || 0 < totals.count

/-- The adjusted value: scaled first, then shifted. -/
def apply (totals : Totals) (value : Float) : Float :=
  value * (1.0 + totals.multiplier) + totals.flat

end Totals

/-- The sums for every target. -/
abbrev Aggregation := Std.ExtTreeMap String Totals

namespace Aggregation

def insertModifier (sums : Aggregation) (modifier : Modifier) : Aggregation :=
  sums.alter modifier.target fun totals => some ((totals.getD .zero).add modifier)

/-- The sums over a list of modifiers. -/
def ofModifiers (modifiers : List Modifier) : Aggregation :=
  modifiers.foldl insertModifier ∅

/-- The sums over the modifiers of the buffs that are on. -/
def collect (buffs : List Buff) (active : ActivationSet) : Aggregation :=
  ofModifiers (activeModifiers buffs active)

/-! ## Targets -/

theorem getElem?_insertModifier (sums : Aggregation) (modifier : Modifier) (name : String) :
    (sums.insertModifier modifier)[name]?
      = if modifier.target = name then some ((sums[name]?.getD .zero).add modifier)
        else sums[name]? := by
  rw [insertModifier, Std.ExtTreeMap.getElem?_alter]
  simp only [Std.LawfulEqCmp.compare_eq_iff_eq]
  by_cases h : modifier.target = name
  · rw [if_pos h, if_pos h, h]
  · rw [if_neg h, if_neg h]

theorem isSome_foldl_insertModifier_iff {name : String} {modifiers : List Modifier} :
    ∀ {sums : Aggregation}, (modifiers.foldl insertModifier sums)[name]?.isSome = true
      ↔ sums[name]?.isSome = true ∨ ∃ modifier ∈ modifiers, modifier.target = name := by
  induction modifiers with
  | nil => simp
  | cons modifier rest ih =>
    intro sums
    rw [List.foldl_cons, ih, getElem?_insertModifier]
    by_cases h : modifier.target = name
    · simp [h]
    · simp [h]

/-- A name has totals exactly when a modifier targets it. -/
theorem isSome_ofModifiers_iff {name : String} {modifiers : List Modifier} :
    (ofModifiers modifiers)[name]?.isSome = true
      ↔ ∃ modifier ∈ modifiers, modifier.target = name := by
  have hempty : (∅ : Aggregation)[name]?.isSome = false := by
    rw [Std.ExtTreeMap.getElem?_empty]
    rfl
  rw [ofModifiers, isSome_foldl_insertModifier_iff, hempty]
  simp

end Aggregation

end FormulaSheet
