import FormulaSheet.Decimal.Reader
import FormulaSheet.Proofs.Decimal.Digits
import FormulaSheet.Proofs.Double.Nearest
import FormulaSheet.Proofs.Double.Sign

/-!
# FormulaSheet — decimals near a double

A decimal `c · 10 ^ k` is read by one multiplication or division. Where the coefficient and the power of
ten are doubles themselves (`IsExactly`), that is one of doubles, else one of significands that have not
been rounded. Either way the number is rounded once, so it becomes the double to which it is nearest.

* `IsExactly.mul_of_isNearest`, `IsExactly.div_of_isNearest` — products and quotients of exact doubles.
* `unpacked_ofScientific_of_isNearest` — those of significands.
* `nearest_of_isNearest` — the reader of decimals.
-/

namespace FormulaSheet.Double

open Float.Model (UnpackedFloat)
open Decimal (Datum digits digits_ne_nil length_digits_bounds nearest)

/-! ## Exact doubles -/

/-- The double is the number, with 53 bits around the point. -/
def IsExactly (r : ℚ) (x : Float) : Prop :=
  ∃ m e h, x.toModel.unpack = .finite .positive m e h
    ∧ 2 ^ 52 ≤ m ∧ -52 ≤ e ∧ e ≤ 52 ∧ (m : ℚ) * 2 ^ e = r

theorem isExactly_toFloat {c : Nat} (hc : 0 < c) (hshort : c < 2 ^ 53) :
    IsExactly c c.toUInt64.toFloat := by
  obtain ⟨d, hpos, hd, hlong, hunpack⟩ := exists_unpack_toFloat hc hshort
  refine ⟨c * 2 ^ d, -d, hpos, hunpack, hlong, by omega, by omega, ?_⟩
  rw [zpow_neg, zpow_natCast]
  push_cast
  field_simp

/-- The first powers of ten are doubles themselves. -/
theorem isExactly_powersOfTen (i : Fin 23) :
    IsExactly (10 ^ i.val) Float.exactlyRepresentablePowersOfTen[i] := by
  -- each power of the table is decided: its mantissa is long and its value exact
  have hall : ∀ i : Fin 23, ∃ l ∈ List.range 105,
      Datum.ofFloat Float.exactlyRepresentablePowersOfTen[i]
          = .finite false (10 ^ i.val * 2 ^ 52 / 2 ^ l) (l - 52)
        ∧ 2 ^ 52 ≤ 10 ^ i.val * 2 ^ 52 / 2 ^ l
        ∧ 10 ^ i.val * 2 ^ 52 / 2 ^ l * 2 ^ l = 10 ^ i.val * 2 ^ 52 := by
    decide +kernel
  obtain ⟨l, hl, hdatum, hlong, hvalue⟩ := hall i
  rw [List.mem_range] at hl
  generalize 10 ^ i.val * 2 ^ 52 / 2 ^ l = m at hdatum hlong hvalue
  have hpos : 0 < m := Nat.lt_of_lt_of_le (by decide) hlong
  refine ⟨m, l - 52, hpos, (noMinus_powersOfTen i).unpack_eq hpos hdatum, hlong, by omega, by omega, ?_⟩
  have hvalue' : (m : ℚ) * 2 ^ l = 10 ^ i.val * 2 ^ 52 := by exact_mod_cast hvalue
  rw [zpow_sub₀ (by norm_num), zpow_natCast, mul_div_assoc', hvalue']
  norm_num

/-! ## Decimals -/

section Decimals

variable {m : Nat} {q : Int} (hcanonical : IsCanonical m q)

theorem IsExactly.mul_of_isNearest {r s : ℚ} {x y : Float} (hx : IsExactly r x) (hy : IsExactly s y)
    (h : IsNearest m q (r * s)) :
    x * y = .ofModel (.pack (.finite .positive m q hcanonical.positive)) := by
  obtain ⟨m₁, e₁, h₁, hx, hlong, hlow, -, rfl⟩ := hx
  obtain ⟨m₂, e₂, h₂, hy, -, hlow', -, rfl⟩ := hy
  have hproduct : 2 ^ 52 ≤ m₁ * m₂ := Nat.le_trans hlong (Nat.le_mul_of_pos_right m₁ h₂)
  show Float.ofModel (.pack (UnpackedFloat.mul .binary64 x.toModel.unpack y.toModel.unpack)) = _
  rw [hx, hy, Double.mul_of_isNearest hproduct (by omega) hcanonical h]

theorem IsExactly.div_of_isNearest {r s : ℚ} {x y : Float} (hx : IsExactly r x) (hy : IsExactly s y)
    (h : IsNearest m q (r / s)) :
    x / y = .ofModel (.pack (.finite .positive m q hcanonical.positive)) := by
  obtain ⟨m₁, e₁, h₁, hx, -, hlow, -, rfl⟩ := hx
  obtain ⟨m₂, e₂, h₂, hy, -, -, hhigh, rfl⟩ := hy
  show Float.ofModel (.pack (UnpackedFloat.div .binary64 x.toModel.unpack y.toModel.unpack)) = _
  rw [hx, hy, Double.div_of_isNearest (by omega) hcanonical h]

include hcanonical in
/-- How large the numbers are that are nearest to a finite double. -/
theorem IsNearest.range {r : ℚ} (h : IsNearest m q r) (hq : q ≤ 971) :
    10 ^ (-330 : Int) < r ∧ r < 10 ^ (309 : Int) := by
  constructor
  · have hm : (1 : ℚ) / 2 ≤ m - 1 / 2 := by
      have : (1 : ℚ) ≤ m := by exact_mod_cast hcanonical.positive
      linarith
    have hleast : -1074 ≤ q := by
      rcases hcanonical.normal with ⟨-, hleast⟩ | hleast <;> omega
    -- half of the least double, and twice the largest one, against powers of ten
    have hsmall : 2 * 2 ^ 1074 < 10 ^ 330 := by decide +kernel
    calc (10 : ℚ) ^ (-330 : Int) < 1 / 2 * 2 ^ (-1074 : Int) := by
          rw [zpow_neg, zpow_neg, one_div, ← mul_inv, inv_lt_inv₀ (by positivity) (by positivity)]
          exact_mod_cast hsmall
      _ ≤ (m - 1 / 2) * 2 ^ q :=
        mul_le_mul hm (zpow_le_zpow_right₀ (by norm_num) hleast) (by positivity) (by linarith)
      _ ≤ r := h.low
  · have hm : (m : ℚ) + 1 / 2 ≤ 2 ^ 53 := by
      have : (m : ℚ) + 1 ≤ 2 ^ 53 := by exact_mod_cast hcanonical.width
      linarith
    have hlarge : 2 ^ 53 * 2 ^ 971 < 10 ^ 309 := by decide +kernel
    calc r ≤ (m + 1 / 2) * 2 ^ q := h.high
      _ ≤ 2 ^ 53 * 2 ^ (971 : Int) :=
        mul_le_mul hm (zpow_le_zpow_right₀ (by norm_num) hq) (by positivity) (by positivity)
      _ < 10 ^ (309 : Int) := by exact_mod_cast hlarge

variable {c : Nat} {k : Int} (hc : 0 < c)
include hc

/-- In general the power of ten is a significand that has not been rounded. -/
theorem unpacked_ofScientific_of_isNearest (hlow : -(2 ^ 11 + (c.log2 : Int)) ≤ k)
    (hhigh : k ≤ 2 ^ 11) (h : IsNearest m q (c * 10 ^ k)) :
    UnpackedFloat.ofScientific .binary64 c k = .finite .positive m q hcanonical.positive := by
  rw [UnpackedFloat.ofScientific, dif_neg (Nat.ne_of_gt hc), if_neg (Int.not_lt.mpr hhigh),
    if_neg (Int.not_lt.mpr hlow)]
  split
  · next hwhole =>
    obtain ⟨n, rfl⟩ := Int.eq_ofNat_of_zero_le hwhole
    -- the factor is written with 53 more bits, so that the product has enough of them
    have hlong : 2 ^ 52 ≤ c <<< 53 * 10 ^ (n : Int).toNat := by
      rw [Nat.shiftLeft_eq]
      calc 2 ^ 52 ≤ 1 * 2 ^ 53 * 1 := by decide
        _ ≤ c * 2 ^ 53 * 10 ^ (n : Int).toNat :=
          Nat.mul_le_mul (Nat.mul_le_mul_right _ hc) (Nat.pow_pos (by decide))
    have hvalue : ((c <<< 53 : Nat) : ℚ) * 2 ^ (-53 : Int)
        * ((10 ^ (n : Int).toNat : Nat) * 2 ^ (0 : Int)) = c * 10 ^ (n : Int) := by
      rw [Nat.shiftLeft_eq, zpow_natCast, Int.toNat_natCast, zpow_zero, Rat.mul_one, Nat.cast_mul,
        mul_assoc (c : ℚ), Nat.cast_pow 10]
      norm_num
    exact Double.mul_of_isNearest hlong (by decide) hcanonical (hvalue.symm ▸ h)
  · next hfraction =>
    obtain ⟨n, rfl⟩ : ∃ n : Nat, k = -n := ⟨(-k).toNat, by omega⟩
    have hvalue : (c : ℚ) * 2 ^ (0 : Int) / ((10 ^ (- -(n : Int)).toNat : Nat) * 2 ^ (0 : Int))
        = c * 10 ^ (-(n : Int)) := by
      rw [Int.neg_neg, Int.toNat_natCast, zpow_neg, zpow_natCast]
      push_cast
      ring
    exact Double.div_of_isNearest (by decide) hcanonical (hvalue.symm ▸ h)

/-- **A decimal that is nearest to a double is read as it.** -/
theorem ofScientific_of_isNearest (hlow : -(2 ^ 11 + (c.log2 : Int)) ≤ k) (hhigh : k ≤ 2 ^ 11)
    (h : IsNearest m q (c * 10 ^ k)) :
    Float.ofScientific c (k < 0) k.natAbs
      = .ofModel (.pack (.finite .positive m q hcanonical.positive)) := by
  have hunpacked := unpacked_ofScientific_of_isNearest hcanonical hc hlow hhigh h
  -- a short decimal is one product or quotient of exact doubles, any other takes the general path
  by_cases hneg : k < 0
  · obtain ⟨n, rfl⟩ : ∃ n : Nat, k = -n := ⟨(-k).toNat, by omega⟩
    rw [decide_eq_true hneg, Int.natAbs_neg, Int.natAbs_natCast, Float.ofScientific]
    split
    · next hshort =>
      rw [zpow_neg, zpow_natCast, ← div_eq_mul_inv] at h
      exact (isExactly_toFloat hc hshort.1).div_of_isNearest hcanonical
        (isExactly_powersOfTen ⟨n, Nat.lt_succ_of_le hshort.2⟩) h
    · show Float.ofModel (.pack (UnpackedFloat.ofScientific .binary64 c (.negOfNat n))) = _
      rw [Int.negOfNat_eq, Int.ofNat_eq_natCast, hunpacked]
  · obtain ⟨n, rfl⟩ := Int.eq_ofNat_of_zero_le (Int.not_lt.mp hneg)
    rw [decide_eq_false hneg, Int.natAbs_natCast, Float.ofScientific]
    split
    · next hshort =>
      rw [zpow_natCast] at h
      exact (isExactly_toFloat hc hshort.1).mul_of_isNearest hcanonical
        (isExactly_powersOfTen ⟨n, Nat.lt_succ_of_le hshort.2⟩) h
    · show Float.ofModel (.pack (UnpackedFloat.ofScientific .binary64 c n)) = _
      rw [hunpacked]

/-- The powers that `nearest` never forms are out of reach of the doubles. -/
theorem nearest_of_isNearest (hq : q ≤ 971) (h : IsNearest m q (c * 10 ^ k)) :
    nearest c k = .ofModel (.pack (.finite .positive m q hcanonical.positive)) := by
  obtain ⟨hbelow, habove⟩ := length_digits_bounds c
  replace habove := habove hc
  obtain ⟨l, hl⟩ : ∃ l, (digits c).length = l + 1 :=
    ⟨_, (Nat.sub_add_cancel (List.length_pos_iff.mpr (digits_ne_nil c))).symm⟩
  rw [hl] at hbelow habove
  have hbelow' : (c : ℚ) < 10 ^ (l + 1) := by exact_mod_cast hbelow
  have habove' : (10 : ℚ) ^ l ≤ c := by exact_mod_cast habove
  -- a number with `l + 1` digits has `l` bits at least, which the bound of the general path counts in
  have hlog : l ≤ c.log2 :=
    (Nat.le_log2 (Nat.ne_of_gt hc)).mpr (Nat.le_trans (Nat.pow_le_pow_left (by decide) l) habove)
  obtain ⟨hsmallest, hlargest⟩ := h.range hcanonical hq
  have hten : (0 : ℚ) < 10 ^ k := by positivity
  have hposition : (l : Int) + k < 309 := by
    refine (zpow_lt_zpow_iff_right₀ (show (1 : ℚ) < 10 by norm_num)).mp ?_
    calc (10 : ℚ) ^ ((l : Int) + k) = 10 ^ l * 10 ^ k := by
          rw [zpow_add₀ (by norm_num), zpow_natCast]
      _ ≤ c * 10 ^ k := mul_le_mul_of_nonneg_right habove' hten.le
      _ < 10 ^ (309 : Int) := hlargest
  have hposition' : -330 < (l : Int) + 1 + k := by
    refine (zpow_lt_zpow_iff_right₀ (show (1 : ℚ) < 10 by norm_num)).mp ?_
    calc (10 : ℚ) ^ (-330 : Int) < c * 10 ^ k := hsmallest
      _ < 10 ^ (l + 1) * 10 ^ k := mul_lt_mul_of_pos_right hbelow' hten
      _ = 10 ^ ((l : Int) + 1 + k) := by
          rw [zpow_add₀ (by norm_num), ← Int.natCast_succ, zpow_natCast]
  have hread := ofScientific_of_isNearest hcanonical hc (k := k) (by omega) (by omega) h
  simp only [nearest, hl]
  rw [if_neg (Nat.ne_of_gt hc), if_neg (by omega), if_neg (by omega), hread]

end Decimals

end FormulaSheet.Double
