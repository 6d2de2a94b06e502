import FormulaSheet.Proofs.Buff.Summing
import FormulaSheet.Proofs.Double.Sums

/-!
# FormulaSheet — the order of the values in a sum

Values are added up from left to right, and each addition rounds. The order is of no account where
nothing is rounded before the last addition, since the one rounding that is left is that of the exact
sum.

* `RoundsLast.leftSum_eq` — such a sum is the double nearest to the exact one. By induction on the
  additions: what there is in front of the last one is exact.
* `leftSum_perm` — so two orders that round last have one sum.
* `roundsLast_of_length`, `OnGrid.roundsLast` — which values round last in every order: two of them, or
  multiples of one power of two that are not too many.
-/

namespace FormulaSheet

open Double

/-! ## Sums that are rounded once -/

/-- Only the last addition may have something to round: before it, the values add up to doubles. -/
def RoundsLast (values : List Float) : Prop :=
  ∀ front rest, values = front ++ rest → rest ≠ [] → (front.map amount).sum.IsDouble

section RoundsLast

variable {values values' front : List Float} {value : Float}

theorem leftSum_concat (front : List Float) (value : Float) :
    leftSum (front ++ [value]) = leftSum front + value := List.foldl_concat ..

theorem sum_amount_concat (front : List Float) (value : Float) :
    ((front ++ [value]).map amount).sum = (front.map amount).sum + amount value := by
  rw [List.map_append, List.sum_append, List.map_singleton, List.sum_singleton]

/-- Values that leave only the last addition to be rounded do so without the last of them. -/
theorem RoundsLast.of_concat (h : RoundsLast (front ++ [value])) : RoundsLast front := by
  rintro front rest rfl hrest
  exact h front (rest ++ [value]) (List.append_assoc ..) (by simp)

/-- **The sum of values is the double nearest to their exact sum**, if only the last addition rounds. -/
theorem RoundsLast.leftSum_eq (h : RoundsLast values) :
    leftSum values = (values.map amount).sum.nearest := by
  induction values using List.reverseRecOn with
  | nil => rfl
  | append_singleton front value ih =>
    have hdouble : (front.map amount).sum.IsDouble := h front [value] rfl (List.cons_ne_nil _ _)
    obtain ⟨hexact, hplus⟩ := hdouble.nearest
    -- the sum in front is exact by the induction, and the last addition is the only one to round
    rw [leftSum_concat, ih h.of_concat, add_eq_nearest hplus, hexact, sum_amount_concat]

/-- Two orders in which only the last addition rounds have one sum. -/
theorem leftSum_perm (hperm : values.Perm values') (h : RoundsLast values) (h' : RoundsLast values') :
    leftSum values = leftSum values' := by
  rw [h.leftSum_eq, h'.leftSum_eq, (hperm.map amount).sum_eq]

/-- Two values are added in one step, the only one that may be rounded. -/
theorem roundsLast_of_length (h : values.length ≤ 2) : RoundsLast values := by
  rintro front rest rfl hrest
  have hlength : 0 < rest.length := List.length_pos_iff.mpr hrest
  rw [List.length_append] at h
  match front with
  | [] => exact isDouble_zero
  | [value] => exact ⟨value, (List.sum_singleton).symm⟩
  | _ :: _ :: _ =>
    rw [List.length_cons, List.length_cons] at h
    omega

end RoundsLast

/-! ## Values on a grid -/

/-- The values are multiples of one power of two, and whatever their signs are, 53 bits are enough to
count them. -/
structure OnGrid (place : Nat) (values : List Float) : Prop where
  multiples : ∀ value ∈ values, (amount value).IsMultiple place
  room : ((values.map amount).map Amount.magnitude).sum < 2 ^ 53 * 2 ^ place

instance (place : Nat) (values : List Float) : Decidable (OnGrid place values) :=
  decidable_of_iff (_ ∧ _) ⟨fun h => ⟨h.1, h.2⟩, fun h => ⟨h.multiples, h.room⟩⟩

namespace OnGrid

variable {place : Nat} {values values' : List Float}

theorem perm (h : OnGrid place values) (hperm : values.Perm values') : OnGrid place values' where
  multiples value hvalue := h.multiples value (hperm.mem_iff.mpr hvalue)
  room := ((hperm.map amount).map Amount.magnitude).sum_eq ▸ h.room

/-- Whatever is added first, nothing is rounded. -/
theorem roundsLast (h : OnGrid place values) (hplace : place ≤ 2045) : RoundsLast values := by
  rintro front rest rfl -
  have hmultiple : (front.map amount).sum.IsMultiple place :=
    Amount.isMultiple_sum (List.forall_mem_map.mpr fun value hvalue =>
      h.multiples value (List.mem_append_left rest hvalue))
  have hroom := h.room
  rw [List.map_append, List.map_append, List.sum_append] at hroom
  -- signs may cancel out in the whole sum, but no partial one goes beyond the sum of the magnitudes
  have hbound := Amount.magnitude_sum_le (front.map amount)
  exact hmultiple.isDouble hplace (by omega)

end OnGrid

end FormulaSheet
