import FormulaSheet.Decimal.Shortest
import FormulaSheet.Proofs.Decimal.Digits
import FormulaSheet.Proofs.Double.Nearest

/-!
# FormulaSheet — how large shortest decimals are

The search for the shortest decimal of `m · 2 ^ q` starts at the grid of its first digit and ends
seventeen grids below. It stops at a point of the interval around the double, or on the last grid at
the point next to it. So the decimal is not far from the double:

* `pointPosition_bounds` — where the first digit stands.
* `Interval.search_cases` — where the search may stop.
* `contains_iff_isNearest` — the interval holds the decimals that are nearest to the double.
* `shortest_near` — what this means for the decimal, in rational numbers.
* `coefficient_shortest_le`, `shortest_mul_le` — the bounds that follow.
* `exists_datum` — what is known of the `m` and the `q` of a double.
-/

namespace FormulaSheet.Decimal

open Double (IsNearest exists_eq_mul_zpow isNearest_mul_zpow_iff)

/-! ## The first digit -/

/-- A power with its exponent split by the sign. -/
theorem zpow_eq_div (b : ℚ) (k : Int) : b ^ k = b ^ k.toNat / b ^ (-k).toNat := by
  rcases k.eq_nat_or_neg with ⟨n, rfl | rfl⟩ <;> simp

theorem cast_twoTo (n : Nat) : (twoTo n : ℚ) = 2 ^ n := Nat.cast_pow 2 n

theorem cast_tenTo (n : Nat) : (tenTo n : ℚ) = 10 ^ n := Nat.cast_pow 10 n

/-- A quotient of whole numbers by their numbers of digits. -/
theorem div_bounds {num den : Nat} (hnum : 0 < num) (hden : 0 < den) :
    (10 : ℚ) ^ (((digits num).length : Int) - (digits den).length - 1) ≤ num / den
      ∧ (num : ℚ) / den < 10 ^ (((digits num).length : Int) - (digits den).length + 1) := by
  obtain ⟨hnumlt, hnumle⟩ := length_digits_bounds num
  obtain ⟨hdenlt, hdenle⟩ := length_digits_bounds den
  have hnumpos : 0 < (digits num).length := List.length_pos_iff.mpr (digits_ne_nil num)
  have hdenpos : 0 < (digits den).length := List.length_pos_iff.mpr (digits_ne_nil den)
  generalize (digits num).length = a at *
  generalize (digits den).length = b at *
  -- a number with `a + 1` digits is at least `10 ^ a`
  obtain ⟨a, rfl⟩ : ∃ n, a = n + 1 := ⟨a - 1, by omega⟩
  obtain ⟨b, rfl⟩ : ∃ n, b = n + 1 := ⟨b - 1, by omega⟩
  have hten : (10 : ℚ) ≠ 0 := by norm_num
  have hdenq : (0 : ℚ) < den := by exact_mod_cast hden
  have hnumlt' : (num : ℚ) < 10 ^ (a + 1) := by exact_mod_cast hnumlt
  have hnumle' : (10 : ℚ) ^ a ≤ num := by exact_mod_cast hnumle hnum
  have hdenlt' : (den : ℚ) < 10 ^ (b + 1) := by exact_mod_cast hdenlt
  have hdenle' : (10 : ℚ) ^ b ≤ den := by exact_mod_cast hdenle hden
  constructor
  · rw [show ((a + 1 : Nat) : Int) - ((b + 1 : Nat) : Int) - 1
        = (a : Int) - ((b + 1 : Nat) : Int) by push_cast; ring, zpow_sub₀ hten, zpow_natCast, zpow_natCast]
    exact div_le_div₀ (Nat.cast_nonneg num) hnumle' hdenq hdenlt'.le
  · rw [show ((a + 1 : Nat) : Int) - ((b + 1 : Nat) : Int) + 1
        = ((a + 1 : Nat) : Int) - (b : Int) by push_cast; ring, zpow_sub₀ hten, zpow_natCast, zpow_natCast]
    exact div_lt_div₀ hnumlt' hdenle' (by positivity) (by positivity)

theorem pointPosition_bounds {m : Nat} (hm : 0 < m) (q : Int) :
    (10 : ℚ) ^ (pointPosition m q - 1) ≤ m * 2 ^ q ∧ (m : ℚ) * 2 ^ q < 10 ^ pointPosition m q := by
  have hnum : 0 < m * twoTo q.toNat := Nat.mul_pos hm (twoTo_pos _)
  have hden : 0 < twoTo (-q).toNat := twoTo_pos _
  have hvalue : (m : ℚ) * 2 ^ q
      = ((m * twoTo q.toNat : Nat) : ℚ) / ((twoTo (-q).toNat : Nat) : ℚ) := by
    rw [zpow_eq_div, ← mul_div_assoc, Nat.cast_mul, cast_twoTo, cast_twoTo]
  rw [hvalue, pointPosition]
  generalize m * twoTo q.toNat = num at hnum ⊢
  generalize twoTo (-q).toNat = den at hden ⊢
  obtain ⟨hlow, hhigh⟩ := div_bounds hnum hden
  generalize ((digits num).length : Int) - (digits den).length = p at *
  -- what the definition tests is whether the quotient reaches the middle one of the three powers
  have hreach : den * tenTo p.toNat ≤ num * tenTo (-p).toNat ↔ (10 : ℚ) ^ p ≤ num / den := by
    have hdenq : (0 : ℚ) < den := by exact_mod_cast hden
    rw [zpow_eq_div, div_le_div_iff₀ (by positivity) hdenq, ← cast_tenTo, ← cast_tenTo, mul_comm]
    exact_mod_cast Iff.rfl
  split
  · next h =>
    rw [Int.add_sub_cancel]
    exact ⟨hreach.mp h, hhigh⟩
  · next h => exact ⟨hlow, lt_of_not_ge fun hle => h (hreach.mpr hle)⟩

/-! ## The search -/

/-- The two grids in a common unit. -/
theorem Grid.exists_unit (k scale : Int) : ∃ unit : ℚ, 0 < unit
    ∧ ((Grid.of k scale).decimalStep : ℚ) = 10 ^ k * unit
    ∧ ((Grid.of k scale).binaryStep : ℚ) = 2 ^ scale * unit := by
  refine ⟨10 ^ (-k).toNat * 2 ^ (-scale).toNat, by positivity, ?_, ?_⟩
  · show ((tenTo k.toNat * twoTo (-scale).toNat : Nat) : ℚ) = _
    rw [zpow_eq_div, Nat.cast_mul, cast_tenTo, cast_twoTo]
    field_simp
  · show ((tenTo (-k).toNat * twoTo scale.toNat : Nat) : ℚ) = _
    rw [zpow_eq_div, Nat.cast_mul, cast_tenTo, cast_twoTo]
    field_simp

/-- Points are compared in the common unit. -/
theorem Grid.decimal_le_iff (c n : Nat) (k scale : Int) :
    c * (Grid.of k scale).decimalStep ≤ n * (Grid.of k scale).binaryStep
      ↔ (c : ℚ) * 10 ^ k ≤ n * 2 ^ scale := by
  obtain ⟨unit, hunit, hdecimal, hbinary⟩ := Grid.exists_unit k scale
  rw [← mul_le_mul_iff_of_pos_right hunit, mul_assoc, mul_assoc, ← hdecimal, ← hbinary]
  exact_mod_cast Iff.rfl

theorem Grid.binary_le_iff (c n : Nat) (k scale : Int) :
    n * (Grid.of k scale).binaryStep ≤ c * (Grid.of k scale).decimalStep
      ↔ (n : ℚ) * 2 ^ scale ≤ c * 10 ^ k := by
  obtain ⟨unit, hunit, hdecimal, hbinary⟩ := Grid.exists_unit k scale
  rw [← mul_le_mul_iff_of_pos_right hunit, mul_assoc, mul_assoc, ← hdecimal, ← hbinary]
  exact_mod_cast Iff.rfl

theorem Interval.contains_of_hit? {tie : Tie} {i : Interval} {g : Grid} {c : Nat}
    (h : i.hit? tie g = some c) : i.contains g c = true := by
  rw [hit?] at h
  split at h
  · next hbelow habove =>
    -- the middle is rounded to one of the two points, and both are in the interval
    rcases roundDiv_cases tie (i.middle * g.binaryStep) g.decimalStep with
      ⟨hround, -⟩ | ⟨hround, -⟩ <;> rw [hround] at h <;> cases h
    · exact hbelow
    · exact habove
  · next hbelow _ => cases h; exact hbelow
  · next habove => cases h; exact habove
  · cases h

theorem Interval.search_cases (tie : Tie) (i : Interval) (tries : Nat) (k : Int) :
    (k - tries < (i.search tie tries k).exponent
        ∧ i.contains (Grid.of (i.search tie tries k).exponent i.scale)
            (i.search tie tries k).coefficient = true)
      ∨ ((i.search tie tries k).exponent = k - tries
        ∧ (i.search tie tries k).coefficient
          = roundDiv tie (i.middle * (Grid.of (k - tries) i.scale).binaryStep)
              (Grid.of (k - tries) i.scale).decimalStep) := by
  induction tries generalizing k with
  | zero =>
    right
    rw [Int.natCast_zero, Int.sub_zero]
    exact ⟨rfl, rfl⟩
  | succ tries ih =>
    rw [search]
    split
    · next c hhit =>
      left
      -- a hit ends the search before the last exponent
      refine ⟨?_, contains_of_hit? hhit⟩
      dsimp only
      omega
    · -- else it goes on with one more digit
      have hnext := ih (k - 1)
      rw [show k - 1 - (tries : Int) = k - ((tries + 1 : Nat) : Int) by omega] at hnext
      exact hnext

section Points

variable {m c : Nat} {q k : Int}

theorem four_mul_zpow (y : ℚ) (q : Int) : 4 * y * 2 ^ (q - 2) = y * 2 ^ q := by
  rw [zpow_sub₀ (by norm_num)]
  ring

/-- The ends of the interval, in gaps. -/
theorem low_around (hm : 0 < m) (q : Int) : ((Interval.around m q).low : ℚ) / 4
    = m - (if m = 2 ^ 52 ∧ -1074 < q then 1 / 4 else 1 / 2) := by
  show ((4 * m - (if m = 2 ^ 52 ∧ -1074 < q then 1 else 2) : Nat) : ℚ) / 4 = _
  split
  · rw [Nat.cast_sub (by omega)]
    push_cast
    ring
  · rw [Nat.cast_sub (by omega)]
    push_cast
    ring

theorem high_around (m : Nat) (q : Int) : ((Interval.around m q).high : ℚ) / 4 = m + 1 / 2 := by
  show ((4 * m + 2 : Nat) : ℚ) / 4 = _
  push_cast
  ring

/-- The interval around a double holds the decimals that are nearest to it. -/
theorem contains_iff_isNearest (hm : 0 < m) :
    (Interval.around m q).contains (Grid.of k (q - 2)) c = true ↔ IsNearest m q (c * 10 ^ k) := by
  obtain ⟨y, hy⟩ := exists_eq_mul_zpow (c * 10 ^ k) q
  have hplace : (0 : ℚ) < 2 ^ (q - 2) := by positivity
  -- the ends of the interval are counted in quarters of a gap
  have hbelow : ∀ n, n * (Grid.of k (q - 2)).binaryStep ≤ c * (Grid.of k (q - 2)).decimalStep
      ↔ (n : ℚ) / 4 ≤ y := by
    intro n
    rw [Grid.binary_le_iff, hy, ← four_mul_zpow y, mul_le_mul_iff_of_pos_right hplace,
      div_le_iff₀' (by norm_num)]
  have habove : ∀ n, c * (Grid.of k (q - 2)).decimalStep ≤ n * (Grid.of k (q - 2)).binaryStep
      ↔ y ≤ (n : ℚ) / 4 := by
    intro n
    rw [Grid.decimal_le_iff, hy, ← four_mul_zpow y, mul_le_mul_iff_of_pos_right hplace,
      le_div_iff₀' (by norm_num)]
  have hclosed : (Interval.around m q).closed = true ↔ m % 2 = 0 := beq_iff_eq
  rw [hy, isNearest_mul_zpow_iff, Interval.contains]
  simp only [hclosed]
  split
  · next heven =>
    rw [Bool.and_eq_true, decide_eq_true_eq, decide_eq_true_eq, hbelow, habove, low_around hm,
      high_around]
    exact ⟨fun h => ⟨h.1, h.2, fun hodd => by omega⟩, fun h => ⟨h.1, h.2.1⟩⟩
  · next hodd =>
    rw [Bool.and_eq_true, decide_eq_true_eq, decide_eq_true_eq, ← Nat.not_le, ← Nat.not_le, hbelow,
      habove, low_around hm, high_around, not_le, not_le, if_neg (by omega)]
    exact ⟨fun h => ⟨h.1.le, h.2.le, fun _ => h⟩, fun h => h.2.2 (by omega)⟩

/-- A point of the interval is above zero, and above the double by half a gap at most. -/
theorem bounds_of_contains_around (hm : 0 < m)
    (h : (Interval.around m q).contains (Grid.of k (q - 2)) c = true) :
    0 < c ∧ (c : ℚ) * 10 ^ k ≤ m * 2 ^ q + 2 ^ q / 2 := by
  have hnearest := (contains_iff_isNearest hm).mp h
  have hlow := hnearest.low
  have hhigh := hnearest.high
  have hplace : (0 : ℚ) < 2 ^ q := by positivity
  have hm' : (1 : ℚ) ≤ m := by exact_mod_cast hm
  refine ⟨Nat.pos_of_ne_zero fun hzero => ?_, by linarith⟩
  -- the interval does not reach down to zero
  have hpositive : (0 : ℚ) < (m - 1 / 2) * 2 ^ q := mul_pos (by linarith) hplace
  rw [hzero, Nat.cast_zero, zero_mul] at hlow
  linarith

/-- The point next to the double is away from it by half a step at most. -/
theorem bounds_of_roundDiv (tie : Tie)
    (h : c = roundDiv tie (4 * m * (Grid.of k (q - 2)).binaryStep)
      (Grid.of k (q - 2)).decimalStep) :
    (c : ℚ) * 10 ^ k ≤ m * 2 ^ q + 10 ^ k / 2 ∧ (m : ℚ) * 2 ^ q ≤ c * 10 ^ k + 10 ^ k / 2 := by
  -- both steps are counted in one common unit
  obtain ⟨unit, hunit, hdecimal, hbinary⟩ := Grid.exists_unit k (q - 2)
  have hdecimalpos : 0 < (Grid.of k (q - 2)).decimalStep := Nat.mul_pos (tenTo_pos _) (twoTo_pos _)
  have habove := two_mul_roundDiv_le tie (4 * m * (Grid.of k (q - 2)).binaryStep)
    (Grid.of k (q - 2)).decimalStep
  have hbelow := le_two_mul_roundDiv tie (4 * m * (Grid.of k (q - 2)).binaryStep)
    (Grid.of k (q - 2)).decimalStep hdecimalpos
  rw [← h] at habove hbelow
  -- the rounded quotient is off by half a step at most, on either side
  have habove' :
      2 * (c * (10 ^ k * unit)) ≤ 2 * (4 * m * (2 ^ (q - 2) * unit)) + 10 ^ k * unit := by
    rw [← hdecimal, ← hbinary]
    exact_mod_cast habove
  have hbelow' :
      2 * (4 * m * (2 ^ (q - 2) * unit)) ≤ 2 * (c * (10 ^ k * unit)) + 10 ^ k * unit := by
    rw [← hdecimal, ← hbinary]
    exact_mod_cast hbelow
  rw [← four_mul_zpow]
  constructor <;> refine le_of_mul_le_mul_right ?_ hunit <;> linarith

end Points

/-! ## The decimal -/

/-- The number that a decimal stands for. -/
def Scientific.value (s : Scientific) : ℚ := s.coefficient * 10 ^ s.exponent

section Shortest

variable (tie : Tie) {m : Nat} (hm : 0 < m) (q : Int)
include hm

/-- On the last grid, the first digit of the double weighs sixteen powers of ten. -/
theorem lastStep_le : (10 : ℚ) ^ (pointPosition m q - 17) * 10 ^ 16 ≤ m * 2 ^ q := by
  refine le_trans (le_of_eq ?_) (pointPosition_bounds hm q).1
  rw [← zpow_natCast, ← zpow_add₀ (by norm_num)]
  congr 1
  omega

/-- The decimal is above zero, and it is above the double by half a gap at most, or else, on the
last grid, by half a step. -/
theorem shortest_near : 0 < (shortest tie m q).coefficient ∧
    (pointPosition m q - 17 < (shortest tie m q).exponent
        ∧ (shortest tie m q).value ≤ m * 2 ^ q + 2 ^ q / 2
      ∨ (shortest tie m q).exponent = pointPosition m q - 17
        ∧ (shortest tie m q).value ≤ m * 2 ^ q + 10 ^ (pointPosition m q - 17) / 2) := by
  have hcases := (Interval.around m q).search_cases tie enoughDigits (pointPosition m q)
  rw [shortest, if_neg (Nat.ne_of_gt hm), Scientific.value]
  generalize (Interval.around m q).search tie enoughDigits (pointPosition m q) = s at hcases ⊢
  rcases hcases with ⟨hexponent, hcontains⟩ | ⟨hexponent, hcoefficient⟩
  · obtain ⟨hpositive, hle⟩ := bounds_of_contains_around hm hcontains
    exact ⟨hpositive, .inl ⟨hexponent, hle⟩⟩
  · replace hexponent : s.exponent = pointPosition m q - 17 := hexponent
    obtain ⟨hle, hge⟩ := bounds_of_roundDiv (k := pointPosition m q - 17) tie hcoefficient
    rw [hexponent]
    refine ⟨Nat.pos_of_ne_zero fun hzero => ?_, .inr ⟨rfl, hle⟩⟩
    -- zero is not next to a number of seventeen digits before the point
    have hsmall := lastStep_le hm q
    have hstep : (0 : ℚ) < 10 ^ (pointPosition m q - 17) := by positivity
    rw [hzero, Nat.cast_zero, zero_mul] at hge
    linarith

/-- About seventeen digits. -/
theorem coefficient_shortest_le : (shortest tie m q).coefficient ≤ 15 * 10 ^ 16 := by
  obtain ⟨-, hnear⟩ := shortest_near tie hm q
  obtain ⟨-, hbelow⟩ := pointPosition_bounds hm q
  have hsmall := lastStep_le hm q
  have hstep : (0 : ℚ) < 10 ^ (pointPosition m q - 17) := by positivity
  have hgap : (2 : ℚ) ^ q ≤ m * 2 ^ q :=
    le_mul_of_one_le_left (by positivity) (by exact_mod_cast hm)
  have hvalue : (shortest tie m q).value ≤ 3 / 2 * 10 ^ pointPosition m q := by
    rcases hnear with ⟨-, hle⟩ | ⟨-, hle⟩ <;> linarith
  -- no grid is more than seventeen places below the first digit
  have hexponent : pointPosition m q ≤ (shortest tie m q).exponent + (17 : Nat) := by
    rcases hnear with ⟨hlt, -⟩ | ⟨heq, -⟩ <;> omega
  have hpower : (10 : ℚ) ^ pointPosition m q ≤ 10 ^ (shortest tie m q).exponent * 10 ^ 17 := by
    rw [← zpow_natCast, ← zpow_add₀ (by norm_num)]
    exact zpow_le_zpow_right₀ (by norm_num) hexponent
  have hscaled : ((shortest tie m q).coefficient : ℚ) * 10 ^ (shortest tie m q).exponent
      ≤ (15 * 10 ^ 16 : Nat) * 10 ^ (shortest tie m q).exponent := by
    rw [Scientific.value] at hvalue
    push_cast
    linarith
  exact_mod_cast le_of_mul_le_mul_right hscaled (by positivity)

/-- The decimal of a double with 53 bits, other than the largest significand in the largest
exponent, is at most halfway from the last but one to the largest. -/
theorem shortest_mul_le {j k : Nat} (hlt : m < 2 ^ 53) (hq : q ≤ (j : Int) + 1)
    (hlargest : ¬ (m = 2 ^ 53 - 1 ∧ q = (j : Int) + 1)) (hk : (shortest tie m q).exponent = k) :
    (shortest tie m q).coefficient * 10 ^ k ≤ (2 ^ 54 - 3) * 2 ^ j := by
  obtain ⟨-, hnear⟩ := shortest_near tie hm q
  have hsmall := lastStep_le hm q
  have hgap : (2 : ℚ) ^ q ≤ 2 * 2 ^ j := by
    rw [← zpow_natCast, ← zpow_one_add₀ (by norm_num)]
    exact zpow_le_zpow_right₀ (by norm_num) (by omega)
  have hpositive : (0 : ℚ) < 2 ^ j := by positivity
  -- either the exponent is a smaller one, or the significand is not the largest
  have hdouble : (m : ℚ) * 2 ^ q ≤ 18014398509481980 * 2 ^ j := by
    rcases Int.lt_or_eq_of_le hq with hless | heq
    · have hm' : (m : ℚ) ≤ 9007199254740992 := by exact_mod_cast Nat.le_of_lt hlt
      have hpower : (2 : ℚ) ^ q ≤ 2 ^ j := by
        rw [← zpow_natCast]
        exact zpow_le_zpow_right₀ (by norm_num) (by omega)
      have hproduct := mul_le_mul hm' hpower (by positivity) (by norm_num)
      linarith
    · have hm' : (m : ℚ) ≤ 9007199254740990 := by
        have : m ≤ 9007199254740990 := by omega
        exact_mod_cast this
      have hproduct := mul_le_mul hm' hgap (by positivity) (by norm_num)
      linarith
  have hvalue : (shortest tie m q).value ≤ 18014398509481981 * 2 ^ j := by
    rcases hnear with ⟨-, hle⟩ | ⟨-, hle⟩ <;> linarith
  rw [Scientific.value, hk, zpow_natCast] at hvalue
  exact_mod_cast hvalue

end Shortest

/-! ## Finite doubles -/

/-- A finite double is a significand and an exponent within bounds. -/
theorem exists_datum {x : Float} (h : x.isFinite = true) :
    ∃ negative m q, Datum.ofFloat x = .finite negative m q ∧ m < 2 ^ 53 ∧ q ≤ 971 := by
  replace h : x.toModel.unpack.isFinite = true := h
  rw [Double.datum_ofFloat]
  cases hx : x.toModel.unpack with
  | notANumber => rw [hx] at h; nomatch h
  | infinity sign => rw [hx] at h; nomatch h
  | zero sign => exact ⟨_, 0, leastExponent, rfl, by decide, by decide⟩
  | finite sign m q hm =>
    obtain ⟨hwidth, -, hle⟩ := Double.bounds_of_unpack hx
    exact ⟨_, m, q, rfl, hwidth, hle⟩

end FormulaSheet.Decimal
