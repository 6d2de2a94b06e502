import FormulaSheet.Json.Numeral
import FormulaSheet.Proofs.Decimal.Digits
import FormulaSheet.Proofs.Double.Rounding

/-!
# FormulaSheet — numerals in range

A numeral is out of range if its significand is scaled up to an infinity. Scaling down is always
possible (`exists_scale_of_neg`). A shortest decimal of a double can be scaled up too
(`exists_scale`), though both factors of the product are rounded: near the largest double the
significands are short enough to be exact, and the few powers of ten there are checked one by one.

* `gather_append` — the significand, if there is room for all digits.
* `exists_value_positional`, `exists_value_scientific` — numerals without and with an exponent.
-/

namespace FormulaSheet.Json

open Decimal (digits digitValue le_valueFrom nearest valueFrom valueOf)
open Double (AtMost Reached)

/-! ## Scaling -/

/-- A number is scaled down in any case. -/
theorem exists_scale_of_neg (x : Float) {e : Int} (he : e < 0) : ∃ y, scale x e = .ok y := by
  obtain ⟨n, hn⟩ : ∃ n : Nat, e = -n := ⟨(-e).toNat, by omega⟩
  induction n using Nat.strongRecOn generalizing x e with
  | _ n ih =>
    rw [scale]
    split
    · exact ⟨_, if_neg (by omega)⟩
    · next hlarge =>
      -- the exponent is larger than any power of the table, and is used up in rounds
      simp only [largestPower] at hlarge ⊢
      split
      · exact ⟨x, rfl⟩
      · rw [if_neg (by omega)]
        exact ih (n - 308) (by omega) _ (by omega) (by omega)

/-- The largest significands that shortest decimals have with a power of ten. -/
def ceiling (k : Nat) : Nat :=
  if k ≤ 291 then 15 * 10 ^ 16 else (2 ^ 54 - 3) * 2 ^ 970 / 10 ^ k

/-- A short significand that stays below the largest double stays below the ceiling of its power. -/
theorem le_ceiling {c k : Nat} (hshort : c ≤ 15 * 10 ^ 16)
    (h : c * 10 ^ k ≤ (2 ^ 54 - 3) * 2 ^ 970) : c ≤ ceiling k := by
  rw [ceiling]
  split
  · exact hshort
  · exact (Nat.le_div_iff_mul_le (Nat.pow_pos (by decide))).mpr h

/-- Near the largest double the significands are exact, and no power of ten is too large for them. -/
theorem ceiling_table : ∀ i < 20,
    (∃ j < 17, ceiling (289 + i) / 2 ^ j < 2 ^ 53 ∧ ceiling (289 + i) % 2 ^ j = 0)
      ∧ AtMost ((2 ^ 53 - 1) * 2 ^ 971 / ceiling (289 + i)) (powerOfTen (289 + i)) := by
  decide +kernel

/-- The powers of ten of the table are far below the limit. -/
theorem small_powers : ∀ k < 23, AtMost (2 ^ 957) (powerOfTen k) := by
  decide +kernel

/-- The powers of two and of ten that are compared with each other. -/
theorem power_bounds : 10 ^ 288 ≤ 2 ^ 957 ∧ (2 ^ 54 - 3) * 2 ^ 970 < 10 ^ 309
    ∧ 15 * 10 ^ 16 * 2 ^ 957 ≤ (2 ^ 53 - 1) * 2 ^ 971 := by
  decide +kernel

/-- Within the range of doubles the nearest one is found without the early exits. -/
theorem nearest_eq {m e p : Nat} (hm : 0 < m) (h : m * 10 ^ e < 10 ^ p) (hp : p ≤ 310) :
    nearest m e = Float.ofScientific m false e := by
  have hlength : (digits m).length + e ≤ p := by
    have hle := Nat.mul_le_mul_right (10 ^ e) ((Decimal.length_digits_bounds m).2 hm)
    rw [← Nat.pow_add] at hle
    have := (Nat.pow_lt_pow_iff_right (show 1 < 10 by decide)).mp (Nat.lt_of_le_of_lt hle h)
    omega
  rw [nearest, if_neg (Nat.ne_of_gt hm), if_neg (by omega), if_neg (by omega), Int.natAbs_natCast,
    decide_eq_false (by omega)]

/-- A short significand is not read above a limit that is itself a double. -/
theorem atMost_nearest {c limit : Nat} (hlimit : Reached limit) (hc : 0 < c)
    (hshort : c ≤ 15 * 10 ^ 16) (h : c ≤ limit) : AtMost limit (nearest c 0) := by
  -- the significand has too few digits for the early exits
  have hnearest : nearest c (0 : Nat) = Float.ofScientific c false 0 := by
    refine nearest_eq hc ?_ (show 18 ≤ 310 by decide)
    calc c * 10 ^ 0 ≤ 15 * 10 ^ 16 := by rwa [Nat.pow_zero, Nat.mul_one]
      _ < 10 ^ 18 := by decide
  rw [show (0 : Int) = (0 : Nat) from rfl, hnearest]
  by_cases hexact : c < 2 ^ 53
  · -- few digits are exact as they are, and are multiplied with one
    have hone : Float.ofScientific c false 0 = c.toUInt64.toFloat * 1.0 := by
      rw [Float.ofScientific, dif_pos ⟨hexact, by decide⟩]
      rfl
    rw [hone, Double.mul_one]
    exact Double.atMost_toFloat hc hexact h
  · refine Double.atMost_ofScientific hlimit hc (by decide) (fun hand => hexact hand.1) ?_
    rwa [Nat.pow_zero, Nat.mul_one]

/-- The powers of ten up to the 288th are below the limit that leaves room for any short
significand. -/
theorem atMost_powerOfTen {k : Nat} (hk : k ≤ 288) : AtMost (2 ^ 957) (powerOfTen k) := by
  by_cases hsmall : k < 23
  · exact small_powers k hsmall
  · have hle : 10 ^ k ≤ 2 ^ 957 :=
      (pow_le_pow_right₀ (show 1 ≤ 10 by decide) hk).trans power_bounds.1
    -- a power that is not in the table of exact ones is rounded
    have hnearest : powerOfTen k = Float.ofScientific 1 false k := by
      refine nearest_eq (by decide) ?_ (show k + 1 ≤ 310 by omega)
      rw [Nat.one_mul]
      exact Nat.pow_lt_pow_right (by decide) (Nat.lt_succ_self k)
    rw [hnearest]
    refine Double.atMost_ofScientific ⟨1, 957, by decide, by decide, (Nat.one_mul _).symm⟩
      (by decide) (by omega) (fun hand => by omega) ?_
    rwa [Nat.one_mul]

/-- A number below the largest double has no larger power of ten than the last of the table. -/
theorem exponent_le {c k : Nat} (hc : 0 < c) (h : c * 10 ^ k ≤ (2 ^ 54 - 3) * 2 ^ 970) :
    k ≤ 308 := by
  have hlt : 10 ^ k < 10 ^ 309 :=
    Nat.lt_of_le_of_lt (Nat.le_trans (Nat.le_mul_of_pos_left _ hc) h) power_bounds.2.1
  have := (Nat.pow_lt_pow_iff_right (show 1 < 10 by decide)).mp hlt
  omega

/-- A short significand is scaled without overflow where the number it stands for is no larger than
the largest double. -/
theorem exists_scale {c k : Nat} (hc : 0 < c) (hshort : c ≤ 15 * 10 ^ 16)
    (h : c * 10 ^ k ≤ (2 ^ 54 - 3) * 2 ^ 970) : ∃ y, scale (nearest c 0) k = .ok y := by
  have hk := exponent_le hc h
  -- the product is no larger than the product of the limits, so it does not overflow
  have hfinite : (nearest c 0 * powerOfTen k).isInf = false := by
    by_cases hloose : k ≤ 288
    · -- a power far below the largest leaves room for any short significand
      have hlimit : Reached (15 * 10 ^ 16) :=
        ⟨15 * 10 ^ 16 / 2 ^ 16, 16, by decide, by decide, by decide⟩
      exact Double.isInf_mul (atMost_nearest hlimit hc hshort hshort) (atMost_powerOfTen hloose)
        (Nat.le_refl 971) power_bounds.2.2
    · -- a large power has its own ceiling in the table
      obtain ⟨i, rfl⟩ : ∃ i, k = 289 + i := ⟨k - 289, by omega⟩
      obtain ⟨⟨j, hj, hlt, hmod⟩, hpower⟩ := ceiling_table i (by omega)
      have hlimit : Reached (ceiling (289 + i)) :=
        ⟨_, j, hlt, by omega, (Nat.div_mul_cancel (Nat.dvd_of_mod_eq_zero hmod)).symm⟩
      exact Double.isInf_mul (atMost_nearest hlimit hc hshort (le_ceiling hshort h)) hpower
        (Nat.le_refl 971) (Nat.mul_div_le _ _)
  rw [scale, Int.natAbs_natCast, if_pos (show k ≤ largestPower from hk),
    if_pos (Int.natCast_nonneg k)]
  exact ⟨_, if_neg (by rw [hfinite]; exact nofun)⟩

/-! ## Values of numerals -/

/-- No digit is dropped as long as the significand has room. -/
theorem gather_of_lt {acc : Nat} {ds : List Char} (h : valueFrom acc ds < significandLimit) :
    gather acc ds = (valueFrom acc ds, 0) := by
  induction ds generalizing acc with
  | nil => rfl
  | cons d rest ih =>
    rw [gather, if_pos (Nat.lt_of_le_of_lt (le_valueFrom _ rest) h)]
    exact ih h

/-- A significand that fits is gathered from the digits on both sides of the point. -/
theorem gather_append {whole fraction : List Char}
    (h : valueOf (whole ++ fraction) < significandLimit) :
    gather 0 whole = (valueOf whole, 0)
      ∧ gather (valueOf whole) fraction = (valueOf (whole ++ fraction), 0) := by
  have happend : valueOf (whole ++ fraction) = valueFrom (valueOf whole) fraction :=
    Decimal.valueFrom_append 0 whole fraction
  rw [happend] at h ⊢
  exact ⟨gather_of_lt (Nat.lt_of_le_of_lt (le_valueFrom _ fraction) h), gather_of_lt h⟩

section Values

variable {negative : Bool} {whole : List Char}

/-- A numeral with a point and no exponent is in range. -/
theorem exists_value_positional {fraction : List Char} (hfraction : fraction ≠ [])
    (h : valueOf (whole ++ fraction) < significandLimit) :
    ∃ y, Numeral.value ⟨negative, whole, some fraction, none⟩ = .ok y := by
  obtain ⟨hwhole, hall⟩ := gather_append h
  have hlength : 0 < fraction.length := List.length_pos_iff.mpr hfraction
  obtain ⟨x, hx⟩ := exists_scale_of_neg (nearest (valueOf (whole ++ fraction)) 0)
    (show ((0 : Nat) : Int) - ((fraction.length - 0 : Nat) : Int) < 0 by omega)
  simp only [Numeral.value, hwhole, Option.getD_some, hall, scaled, hx]
  exact ⟨_, rfl⟩

/-- A numeral with an exponent is in range, if it is scaled down or the power of ten has room. -/
theorem exists_value_scientific {fraction : Option (List Char)} {down : Bool} {ds : List Char}
    {k : Nat}
    (hpositive : 0 < valueOf (whole ++ fraction.getD []))
    (hshort : valueOf (whole ++ fraction.getD []) ≤ 15 * 10 ^ 16)
    (hdown : down = true → 0 < valueOf ds)
    (hup : down = false → valueOf ds < exponentLimit ∧
      (valueOf ds < (fraction.getD []).length ∨ valueOf ds = (fraction.getD []).length + k
        ∧ valueOf (whole ++ fraction.getD []) * 10 ^ k ≤ (2 ^ 54 - 3) * 2 ^ 970)) :
    ∃ y, Numeral.value ⟨negative, whole, fraction, some (down, ds)⟩ = .ok y := by
  have hlimit : valueOf (whole ++ fraction.getD []) < significandLimit :=
    Nat.lt_of_le_of_lt hshort (by decide)
  obtain ⟨hwhole, hall⟩ := gather_append hlimit
  -- the sign plays no part in whether there is a value
  have hscaled : ∀ e : Int,
      (∃ x, scale (nearest (valueOf (whole ++ fraction.getD [])) 0) e = .ok x) →
      ∃ y, scaled negative (valueOf (whole ++ fraction.getD [])) e = .ok y := by
    rintro e ⟨x, hx⟩
    exact ⟨_, by rw [scaled, hx]; rfl⟩
  simp only [Numeral.value, hwhole, hall, Nat.sub_zero]
  cases down with
  | true =>
    split
    · refine hscaled _ (exists_scale_of_neg _ ?_)
      have := hdown rfl
      simp only [reduceIte]
      omega
    · -- an exponent too large to hold gives zero, if it is negative
      exact ⟨_, if_neg fun hand => nomatch hand.2⟩
  | false =>
    obtain ⟨hexponent, hfits⟩ := hup rfl
    rw [if_pos hexponent]
    refine hscaled _ ?_
    rcases hfits with hlt | ⟨heq, hle⟩
    · exact exists_scale_of_neg _ (by simp only [Bool.false_eq_true, reduceIte]; omega)
    · have hshift :
          ((0 : Nat) : Int) - ((fraction.getD []).length : Int) + (valueOf ds : Int) = k := by omega
      simp only [Bool.false_eq_true, reduceIte, hshift]
      exact exists_scale hpositive hshort hle

end Values

end FormulaSheet.Json
