import FormulaSheet.Proofs.Double.Rounding

/-!
# FormulaSheet — the double nearest to a number

Rounding takes the double next to the exact result, and between two of them the even one. So a number
that is nearer to a double than to its neighbours is rounded to this double, whichever operation it is
the exact result of.

* `Locates` — what a significand with its residual bits says of a number, and how this is kept when bits
  are shifted out (`Locates.shiftRight`) and when it is rounded (`Locates.roundedMantissa_eq`).
* `IsNearest` — the numbers that are nearest to a double.
* `lastPlace_cases` — the last place of such a number, and that of the double.
* `roundWithAccuracy_of_isNearest` — they are rounded to it.
* `mul_of_isNearest`, `div_of_isNearest` — if they are exact products and quotients.
* `ofScientific_of_isNearest` — if they are decimals.
-/

namespace FormulaSheet.Double

open Float.Model (Format UnpackedFloat)
open Float.Model.UnpackedFloat (Accuracy ExtendedMantissa Sign)

/-! ## Residual bits -/

/-- Where a number lies by a significand and its two residual bits, in units of the last place: at the
significand, at the middle between it and the next one, or in either half between. -/
inductive Locates : ExtendedMantissa → ℚ → Prop where
  | exact {m : Nat} {x : ℚ} (h : x = m) : Locates ⟨m, false, false⟩ x
  | lower {m : Nat} {x : ℚ} (hlow : m < x) (hhigh : x < m + 1 / 2) : Locates ⟨m, false, true⟩ x
  | middle {m : Nat} {x : ℚ} (h : x = m + 1 / 2) : Locates ⟨m, true, false⟩ x
  | upper {m : Nat} {x : ℚ} (hlow : m + 1 / 2 < x) (hhigh : x < m + 1) : Locates ⟨m, true, true⟩ x

/-- A quotient is located by its whole part and by how its remainder compares with a half. -/
theorem locates_fraction (num : Nat) {den : Nat} (hden : 0 < den) :
    Locates (.ofMantissaAndAccuracy (num / den) (UnpackedFloat.accuracyOfFraction (num % den) den))
      (num / den) := by
  have hdenq : (0 : ℚ) < den := by exact_mod_cast hden
  have hlt : ((num % den : Nat) : ℚ) < den := by exact_mod_cast Nat.mod_lt num hden
  have hvalue : (num : ℚ) / den = (num / den : Nat) + ((num % den : Nat) : ℚ) / den := by
    rw [eq_comm, ← mul_left_inj' hdenq.ne', add_mul, div_mul_cancel₀ _ hdenq.ne',
      div_mul_cancel₀ _ hdenq.ne']
    exact_mod_cast Nat.div_add_mod' num den
  rw [hvalue]
  generalize num / den = quotient
  generalize num % den = remainder at hlt
  rw [UnpackedFloat.accuracyOfFraction]
  split
  · next hzero =>
    rw [hzero]
    exact .exact (by simp)
  · next hpositive =>
    have hpos : (0 : ℚ) < remainder := by exact_mod_cast Nat.pos_of_ne_zero hpositive
    have habove : (0 : ℚ) < remainder / den := div_pos hpos hdenq
    have hbelow : (remainder : ℚ) / den < 1 := (div_lt_one hdenq).mpr hlt
    -- twice the remainder is compared with the divisor, which is the fraction with the middle
    have hlower : (remainder : ℚ) / den < 1 / 2 ↔ 2 * remainder < den := by
      rw [div_lt_div_iff₀ hdenq (by norm_num), one_mul, mul_comm]
      exact_mod_cast Iff.rfl
    have hupper : 1 / 2 < (remainder : ℚ) / den ↔ den < 2 * remainder := by
      rw [div_lt_div_iff₀ (by norm_num) hdenq, one_mul, mul_comm (remainder : ℚ)]
      exact_mod_cast Iff.rfl
    cases hcompare : compare (2 * remainder) den with
    | lt =>
      have hhalf := hlower.mpr (Nat.compare_eq_lt.mp hcompare)
      exact .lower (by linarith) (by linarith)
    | eq =>
      have hsame := Nat.compare_eq_eq.mp hcompare
      have hle := not_lt.mp (hupper.not.mpr (by omega))
      have hge := not_lt.mp (hlower.not.mpr (by omega))
      exact .middle (by linarith)
    | gt =>
      have hhalf := hupper.mpr (Nat.compare_eq_gt.mp hcompare)
      exact .upper (by linarith) (by linarith)

namespace Locates

variable {em : ExtendedMantissa} {x : ℚ}

/-- A located number lies between its mantissa and the next one. -/
theorem bounds (h : Locates em x) : em.mantissa ≤ x ∧ x < em.mantissa + 1 := by
  cases h <;> constructor <;> dsimp only <;> linarith

variable {k : Nat} {round sticky : Bool}

/-- The last bit of the significand becomes the first residual bit. -/
theorem half_of_even (h : Locates ⟨2 * k, round, sticky⟩ x) :
    Locates ⟨k, false, round || sticky⟩ (x / 2) := by
  have hcast : ((2 * k : Nat) : ℚ) = 2 * k := by push_cast; rfl
  cases h with
  | exact h => exact .exact (by linarith)
  | lower hlow hhigh => exact .lower (by linarith) (by linarith)
  | middle h => exact .lower (by linarith) (by linarith)
  | upper hlow hhigh => exact .lower (by linarith) (by linarith)

/-- Half of an odd mantissa rests on its last bit, which says at least a half. -/
theorem half_of_odd (h : Locates ⟨2 * k + 1, round, sticky⟩ x) :
    Locates ⟨k, true, round || sticky⟩ (x / 2) := by
  have hcast : ((2 * k + 1 : Nat) : ℚ) = 2 * k + 1 := by push_cast; rfl
  cases h with
  | exact h => exact .middle (by linarith)
  | lower hlow hhigh => exact .upper (by linarith) (by linarith)
  | middle h => exact .upper (by linarith) (by linarith)
  | upper hlow hhigh => exact .upper (by linarith) (by linarith)

/-- One shift halves the number that is located. -/
theorem shiftRightOne (h : Locates em x) : Locates em.shiftRightOne (x / 2) := by
  obtain ⟨m, round, sticky⟩ := em
  obtain ⟨k, rfl | rfl⟩ := m.even_or_odd'
  · have hshift : ExtendedMantissa.shiftRightOne ⟨2 * k, round, sticky⟩
        = ⟨k, false, round || sticky⟩ := by
      simp [ExtendedMantissa.shiftRightOne]
    exact hshift ▸ h.half_of_even
  · have hshift : ExtendedMantissa.shiftRightOne ⟨2 * k + 1, round, sticky⟩
        = ⟨k, true, round || sticky⟩ := by
      simp [ExtendedMantissa.shiftRightOne, show (2 * k + 1) / 2 = k by omega]
    exact hshift ▸ h.half_of_odd

/-- Shifts by several bits halve it as often. -/
theorem shiftRight (h : Locates em x) (n : Nat) : Locates (em >>> n) (x / 2 ^ n) := by
  show Locates (Nat.repeat ExtendedMantissa.shiftRightOne n em) _
  induction n with
  | zero =>
    rw [pow_zero, div_one]
    exact h
  | succ n ih =>
    rw [pow_succ, ← div_div]
    exact ih.shiftRightOne

/-- A number that is nearest to a whole one is rounded to it. In the middle between two, the even one
counts as nearest. -/
theorem roundedMantissa_eq (h : Locates em x) {k : Nat} (hlow : (k : ℚ) - 1 / 2 ≤ x)
    (hhigh : x ≤ k + 1 / 2) (hodd : k % 2 = 1 → (k : ℚ) - 1 / 2 < x ∧ x < k + 1 / 2) :
    em.roundedMantissa = k := by
  cases h with
  | @exact m x h =>
    have hle : m < k + 1 := by exact_mod_cast (show (m : ℚ) < k + 1 by linarith)
    have hge : k < m + 1 := by exact_mod_cast (show (k : ℚ) < m + 1 by linarith)
    show m = k
    omega
  | @lower m x hlow' hhigh' =>
    have hle : m < k + 1 := by exact_mod_cast (show (m : ℚ) < k + 1 by linarith)
    have hge : k < m + 1 := by exact_mod_cast (show (k : ℚ) < m + 1 by linarith)
    show m = k
    omega
  | @middle m x h =>
    have hle : m ≤ k := by exact_mod_cast (show (m : ℚ) ≤ k by linarith)
    have hge : k ≤ m + 1 := by exact_mod_cast (show (k : ℚ) ≤ m + 1 by linarith)
    -- the middle counts as nearest to an even number only, and is rounded to that
    have heven : k % 2 = 0 := by
      by_contra hne
      obtain ⟨hlow', hhigh'⟩ := hodd (by omega)
      have : m < k := by exact_mod_cast (show (m : ℚ) < k by linarith)
      have : k < m + 1 := by exact_mod_cast (show (k : ℚ) < m + 1 by linarith)
      omega
    show m + m % 2 = k
    omega
  | @upper m x hlow' hhigh' =>
    have hle : m < k := by exact_mod_cast (show (m : ℚ) < k by linarith)
    have hge : k < m + 2 := by exact_mod_cast (show (k : ℚ) < m + 2 by linarith)
    show m + 1 = k
    omega

end Locates

/-! ## Rounding -/

/-- The number is nearest to `m · 2 ^ q` among the doubles, or in the middle between it and a neighbour
that has an odd significand. Below a power of two the neighbour is half as far away. -/
def IsNearest (m : Nat) (q : Int) (r : ℚ) : Prop :=
  ∃ y : ℚ, r = y * 2 ^ q
    ∧ (m : ℚ) - (if m = 2 ^ 52 ∧ -1074 < q then 1 / 4 else 1 / 2) ≤ y ∧ y ≤ m + 1 / 2
    ∧ (m % 2 = 1 → (m : ℚ) - 1 / 2 < y ∧ y < m + 1 / 2)

/-- The significand has 53 bits, or fewer at the least exponent. -/
structure IsCanonical (m : Nat) (q : Int) : Prop where
  positive : 0 < m
  width : m < 2 ^ 53
  normal : 2 ^ 52 ≤ m ∧ -1074 ≤ q ∨ q = -1074

section Rounding

variable {m n : Nat} {q e : Int} {accuracy : Accuracy} {x : ℚ}

theorem exists_eq_mul_zpow (r : ℚ) (q : Int) : ∃ y : ℚ, r = y * 2 ^ q :=
  ⟨r / 2 ^ q, (div_mul_cancel₀ _ (by positivity)).symm⟩

/-- In units of the last place. -/
theorem isNearest_mul_zpow_iff {y : ℚ} :
    IsNearest m q (y * 2 ^ q)
      ↔ (m : ℚ) - (if m = 2 ^ 52 ∧ -1074 < q then 1 / 4 else 1 / 2) ≤ y ∧ y ≤ m + 1 / 2
        ∧ (m % 2 = 1 → (m : ℚ) - 1 / 2 < y ∧ y < m + 1 / 2) := by
  constructor
  · rintro ⟨y', hy', h⟩
    obtain rfl : y = y' := mul_right_cancel₀ (by positivity) hy'
    exact h
  · exact fun h => ⟨y, rfl, h⟩

/-- The nearest mantissa is at most half a place above the number. -/
theorem IsNearest.low {r : ℚ} (h : IsNearest m q r) : ((m : ℚ) - 1 / 2) * 2 ^ q ≤ r := by
  obtain ⟨y, rfl, hlow, -, -⟩ := h
  refine mul_le_mul_of_nonneg_right ?_ (by positivity)
  split at hlow <;> linarith

/-- The nearest mantissa is at most half a place below the number. -/
theorem IsNearest.high {r : ℚ} (h : IsNearest m q r) : r ≤ ((m : ℚ) + 1 / 2) * 2 ^ q := by
  obtain ⟨y, rfl, -, hhigh, -⟩ := h
  exact mul_le_mul_of_nonneg_right hhigh (by positivity)

theorem mantissa_ofMantissaAndAccuracy (n : Nat) (accuracy : Accuracy) :
    (ExtendedMantissa.ofMantissaAndAccuracy n accuracy).mantissa = n := by
  cases accuracy with
  | exact => rfl
  | inexact order => cases order <;> rfl

/-- A significand with enough bits is shifted to 53 of them, or to the least exponent. -/
theorem exists_shift (hx : Locates (.ofMantissaAndAccuracy n accuracy) x) (he : -1074 ≤ e)
    (hn : 2 ^ 52 ≤ n ∨ e = -1074) :
    ∃ j : Nat, UnpackedFloat.shiftToTargetExponent .binary64 n e accuracy
        = (ExtendedMantissa.ofMantissaAndAccuracy n accuracy >>> j, e + j)
      ∧ x / 2 ^ j < 2 ^ 53 ∧ (2 ^ 52 ≤ x / 2 ^ j ∨ e + j = -1074) := by
  obtain ⟨hlow, hhigh⟩ := hx.bounds
  rw [mantissa_ofMantissaAndAccuracy] at hlow hhigh
  by_cases hlong : 2 ^ 52 ≤ n
  · -- a long one loses its last bits, as many as it has more than 53
    have hne : n ≠ 0 := by omega
    have hlog : 52 ≤ n.log2 := (Nat.le_log2 hne).mpr hlong
    obtain ⟨j, hj⟩ : ∃ j, n.log2 = 52 + j := ⟨n.log2 - 52, by omega⟩
    obtain ⟨hfrom, hto⟩ := bounds_of_log2 hne hj
    have hfrom' : (2 : ℚ) ^ 52 * 2 ^ j ≤ n := by exact_mod_cast hfrom
    have hto' : (n : ℚ) + 1 ≤ 2 ^ 53 * 2 ^ j := by exact_mod_cast hto
    refine ⟨j, shiftToTargetExponent_eq accuracy hj he, ?_, .inl ?_⟩
    · rw [div_lt_iff₀ (by positivity)]
      linarith
    · rw [le_div_iff₀ (by positivity)]
      linarith
  · -- a shorter one stands at the least exponent already, and is not shifted
    obtain rfl : e = -1074 := hn.resolve_left hlong
    have hlog : n.log2 ≤ 52 := by
      rcases Nat.eq_zero_or_pos n with rfl | hpos
      · decide
      · exact Nat.le_of_lt ((Nat.log2_lt (Nat.ne_of_gt hpos)).mpr (Nat.not_le.mp hlong))
    have htarget : Format.binary64.targetExponent (Float.Model.totalExponent n (-1074)) = -1074 := by
      show max ((n.log2 : Int) + 1 + -1074 - 53) (-1074) = _
      omega
    have hto : (n : ℚ) + 1 ≤ 2 ^ 53 := by exact_mod_cast (show n + 1 ≤ 2 ^ 53 by omega)
    refine ⟨0, ?_, ?_, .inr rfl⟩
    · simp only [UnpackedFloat.shiftToTargetExponent, htarget, UnpackedFloat.shiftToExponent]
      rfl
    · rw [pow_zero, div_one]
      linarith

/-! ### The last place

A number lies about a double if it is nearest to it, so the exponents at which both have 53 bits are the
same, or next to each other. -/

theorem two_zpow_of_le {t q : Int} (h : t ≤ q) : (2 : ℚ) ^ q = 2 ^ (q - t).toNat * 2 ^ t := by
  rw [← zpow_natCast, ← zpow_add₀ (by norm_num)]
  congr 1
  omega

/-- A number that is nearest to a double has no last place above that of the double: in units of it, the
number would be shorter than 53 bits. -/
theorem IsNearest.lastPlace_le {y : ℚ} {t : Int} (hcanonical : IsCanonical m q)
    (h : IsNearest m q (y * 2 ^ t)) (hlow : 2 ^ 52 ≤ y ∨ t = -1074) : t ≤ q := by
  refine Int.not_lt.mp fun hlt => ?_
  have hpos : (0 : ℚ) < 2 ^ q := by positivity
  have hwidth : (m : ℚ) + 1 ≤ 2 ^ 53 := by exact_mod_cast hcanonical.width
  -- a place below the last one would leave a mantissa of too many bits
  have hfull : (2 : ℚ) ^ 52 ≤ y := hlow.resolve_right (by
    rcases hcanonical.normal with ⟨-, hleast⟩ | hleast <;> omega)
  have htwo : (2 : ℚ) ^ 1 ≤ 2 ^ (t - q).toNat := pow_le_pow_right₀ (by norm_num) (by omega)
  have hle := h.high
  rw [two_zpow_of_le (Int.le_of_lt hlt), ← mul_assoc] at hle
  have hbound := le_of_mul_le_mul_right hle hpos
  have hproduct : (2 : ℚ) ^ 52 * 2 ^ 1 ≤ y * 2 ^ (t - q).toNat :=
    mul_le_mul hfull htwo (by norm_num) (by linarith)
  linarith

/-- Its last place is below that of the double only where the double is a power of two and the number
less than that, and then it is the next one. -/
theorem IsNearest.of_lastPlace_lt {y : ℚ} {t : Int} (hcanonical : IsCanonical m q)
    (h : IsNearest m q (y * 2 ^ t)) (ht : -1074 ≤ t) (hhigh : y < 2 ^ 53) (hlt : t < q) :
    t = q - 1 ∧ m = 2 ^ 52 ∧ 2 ^ 53 - 1 / 2 ≤ y := by
  -- the double has 53 bits, as its exponent is not the least one
  have hnormal : 2 ^ 52 ≤ m := by
    rcases hcanonical.normal with ⟨hfull, -⟩ | hleast
    · exact hfull
    · omega
  have hfull : (2 : ℚ) ^ 52 ≤ m := by exact_mod_cast hnormal
  have hpow := two_zpow_of_le (Int.le_of_lt hlt)
  have hy : ((m : ℚ) - 1 / 2) * 2 ^ (q - t).toNat ≤ y := by
    have hle := h.low
    rw [hpow, ← mul_assoc] at hle
    exact le_of_mul_le_mul_right hle (by positivity)
  -- two places below, a number with 53 bits would be less than half of it
  have hone : (q - t).toNat = 1 := by
    by_contra hne
    have htwo : (2 : ℚ) ^ 2 ≤ 2 ^ (q - t).toNat :=
      pow_le_pow_right₀ (by norm_num) (by omega)
    have hproduct : ((2 : ℚ) ^ 52 - 1 / 2) * 2 ^ 2 ≤ ((m : ℚ) - 1 / 2) * 2 ^ (q - t).toNat :=
      mul_le_mul (by linarith) htwo (by norm_num) (by linarith)
    linarith
  rw [hone, pow_one] at hy
  have hm : m = 2 ^ 52 := by
    by_contra hne
    have habove : (2 : ℚ) ^ 52 + 1 ≤ m := by
      exact_mod_cast Nat.lt_of_le_of_ne hnormal (Ne.symm hne)
    linarith
  refine ⟨by omega, hm, ?_⟩
  -- below a power of two, the numbers nearest to it begin a quarter of its last place away
  have hhalf : y * 2 ^ t = y / 2 * 2 ^ q := by
    rw [hpow, hone, pow_one]
    ring
  rw [hhalf, isNearest_mul_zpow_iff, if_pos ⟨hm, by omega⟩, hm] at h
  have hedge := h.1
  push_cast at hedge
  linarith

/-- The last place of a number that is nearest to a double is that of the double. It is one below only
where the number is below a power of two. -/
theorem lastPlace_cases {y : ℚ} {t : Int} (hcanonical : IsCanonical m q)
    (h : IsNearest m q (y * 2 ^ t)) (ht : -1074 ≤ t) (hhigh : y < 2 ^ 53)
    (hlow : 2 ^ 52 ≤ y ∨ t = -1074) :
    t = q ∨ t = q - 1 ∧ m = 2 ^ 52 ∧ 2 ^ 53 - 1 / 2 ≤ y := by
  rcases Int.lt_or_eq_of_le (h.lastPlace_le hcanonical hlow) with hlt | heq
  · exact .inr (h.of_lastPlace_lt hcanonical ht hhigh hlt)
  · exact .inl heq

/-- **A number that is nearest to a double is rounded to it.** -/
theorem roundWithAccuracy_of_isNearest (hx : Locates (.ofMantissaAndAccuracy n accuracy) x)
    (he : -1074 ≤ e) (hn : 2 ^ 52 ≤ n ∨ e = -1074) (hcanonical : IsCanonical m q)
    (h : IsNearest m q (x * 2 ^ e)) :
    UnpackedFloat.roundWithAccuracy .binary64 .positive n e accuracy
      = .finite .positive m q hcanonical.positive := by
  obtain ⟨j, hfirst, hhigh, hlow⟩ := exists_shift hx he hn
  have hplace : x * 2 ^ e = x / 2 ^ j * 2 ^ (e + j) := by
    rw [zpow_add₀ (by norm_num), zpow_natCast]
    field_simp
  rw [hplace] at h
  -- rounded to its last place it is the significand, or twice the significand one place below
  obtain ⟨i, hround, hq⟩ : ∃ i : Nat,
      (ExtendedMantissa.ofMantissaAndAccuracy n accuracy >>> j).roundedMantissa = m * 2 ^ i
        ∧ e + j = q - i := by
    rcases lastPlace_cases hcanonical h (by omega) hhigh hlow with hq | ⟨hq, rfl, hedge⟩
    · rw [hq, isNearest_mul_zpow_iff] at h
      obtain ⟨hfrom, hto, hodd⟩ := h
      refine ⟨0, ?_, by omega⟩
      rw [Nat.pow_zero, Nat.mul_one]
      exact (hx.shiftRight j).roundedMantissa_eq (by split at hfrom <;> linarith) hto hodd
    · refine ⟨1, ?_, by omega⟩
      exact (hx.shiftRight j).roundedMantissa_eq (by push_cast; linarith) (by push_cast; linarith)
        fun hodd => absurd hodd (by decide)
  have hsecond := shiftToTargetExponent_mul_twoTo hcanonical.positive hcanonical.width
    hcanonical.normal i
  simp only [UnpackedFloat.roundWithAccuracy, hfirst, hround, hq, hsecond]
  exact dif_neg (Nat.ne_of_gt hcanonical.positive)

/-- A product of positive doubles with bits enough for a double is the one nearest to the exact
product. -/
theorem mul_of_isNearest {m₁ m₂ : Nat} {e₁ e₂ : Int} {h₁ : 0 < m₁} {h₂ : 0 < m₂}
    (hlong : 2 ^ 52 ≤ m₁ * m₂) (he : -1074 ≤ e₁ + e₂) (hcanonical : IsCanonical m q)
    (h : IsNearest m q (m₁ * 2 ^ e₁ * (m₂ * 2 ^ e₂))) :
    UnpackedFloat.mul .binary64 (.finite .positive m₁ e₁ h₁) (.finite .positive m₂ e₂ h₂)
      = .finite .positive m q hcanonical.positive := by
  have hexact : Locates (.ofMantissaAndAccuracy (m₁ * m₂) .exact) ((m₁ * m₂ : Nat) : ℚ) := .exact rfl
  refine roundWithAccuracy_of_isNearest hexact he (.inl hlong) hcanonical ?_
  have hproduct : ((m₁ * m₂ : Nat) : ℚ) * 2 ^ (e₁ + e₂) = m₁ * 2 ^ e₁ * (m₂ * 2 ^ e₂) := by
    rw [zpow_add₀ (by norm_num), Nat.cast_mul]
    ring
  rwa [hproduct]

/-- The dividend is filled up with zeros until the quotient has 53 bits, or the least exponent. -/
theorem divCore_eq {m₁ m₂ : Nat} {e₁ e₂ : Int} (h₁ : 0 < m₁) (h₂ : 0 < m₂)
    (he : -1074 ≤ e₁ - e₂) :
    ∃ j : Nat, UnpackedFloat.divCore .binary64 m₁ e₁ m₂ e₂
        = (m₁ * 2 ^ j / m₂, e₁ - e₂ - j, UnpackedFloat.accuracyOfFraction (m₁ * 2 ^ j % m₂) m₂)
      ∧ -1074 ≤ e₁ - e₂ - j ∧ (2 ^ 52 ≤ m₁ * 2 ^ j / m₂ ∨ e₁ - e₂ - j = -1074) := by
  -- the exponent that the quotient of the leading bits asks for, or the least one
  obtain ⟨t, ht, hmin⟩ : ∃ t, Format.binary64.targetExponent
      (Float.Model.totalExponent m₁ e₁ - Float.Model.totalExponent m₂ e₂) = t
        ∧ t = max ((m₁.log2 : Int) + e₁ - (m₂.log2 + e₂) - 53) (-1074) := by
    refine ⟨_, rfl, ?_⟩
    show max ((m₁.log2 : Int) + 1 + e₁ - ((m₂.log2 : Int) + 1 + e₂) - 53) (-1074) = _
    congr 1
    omega
  refine ⟨(e₁ - e₂ - min (e₁ - e₂) t).toNat, ?_, by omega, ?_⟩
  · have htarget : e₁ - e₂ - ((e₁ - e₂ - min (e₁ - e₂) t).toNat : Int) = min (e₁ - e₂) t := by omega
    rw [htarget]
    simp only [UnpackedFloat.divCore, ht, Nat.shiftLeft_eq]
  · by_cases hleast : t = -1074
    · exact .inr (by omega)
    · -- the quotient of the leading bits is what the divisor is multiplied by
      left
      generalize hj : (e₁ - e₂ - min (e₁ - e₂) t).toNat = j
      rw [Nat.le_div_iff_mul_le h₂]
      calc 2 ^ 52 * m₂ ≤ 2 ^ 52 * 2 ^ (m₂.log2 + 1) :=
            Nat.mul_le_mul_left _ (Nat.le_of_lt Nat.lt_log2_self)
        _ = 2 ^ (52 + (m₂.log2 + 1)) := (Nat.pow_add ..).symm
        _ ≤ 2 ^ (m₁.log2 + j) := Nat.pow_le_pow_right (by decide) (by omega)
        _ = 2 ^ m₁.log2 * 2 ^ j := Nat.pow_add ..
        _ ≤ m₁ * 2 ^ j := Nat.mul_le_mul_right _ (Nat.log2_self_le (Nat.ne_of_gt h₁))

/-- A quotient of positive doubles is the double that is nearest to the exact quotient. -/
theorem div_of_isNearest {m₁ m₂ : Nat} {e₁ e₂ : Int} {h₁ : 0 < m₁} {h₂ : 0 < m₂}
    (he : -1074 ≤ e₁ - e₂) (hcanonical : IsCanonical m q)
    (h : IsNearest m q (m₁ * 2 ^ e₁ / (m₂ * 2 ^ e₂))) :
    UnpackedFloat.div .binary64 (.finite .positive m₁ e₁ h₁) (.finite .positive m₂ e₂ h₂)
      = .finite .positive m q hcanonical.positive := by
  obtain ⟨j, hcore, hleast, hlong⟩ := divCore_eq h₁ h₂ he
  simp only [UnpackedFloat.div, hcore]
  refine roundWithAccuracy_of_isNearest (locates_fraction _ h₂) hleast hlong hcanonical ?_
  -- the zeros that are put behind the numerator are taken off the exponent
  have hquotient : ((m₁ * 2 ^ j : Nat) : ℚ) / m₂ * 2 ^ (e₁ - e₂ - j)
      = m₁ * 2 ^ e₁ / (m₂ * 2 ^ e₂) := by
    have hm₂ : (m₂ : ℚ) ≠ 0 := by exact_mod_cast Nat.ne_of_gt h₂
    rw [zpow_sub₀ (by norm_num), zpow_sub₀ (by norm_num), zpow_natCast]
    push_cast
    field_simp
  rwa [hquotient]

end Rounding

end FormulaSheet.Double
