import FormulaSheet.Proofs.Decimal.Shortest
import FormulaSheet.Proofs.Double.Decimals
import FormulaSheet.Proofs.Formula.Lexing

/-!
# FormulaSheet — plain texts read back

The search for the shortest decimal of a double stops within the interval of the numbers that are nearest
to it, or at a decimal of seventeen digits, which is as near. So the decimal is read as the double. A plain
text fills it up with zeros and puts a point into it, and that changes no number.

* `isNearest_shortest` — the decimal is nearest to the double.
* `denotes_positional` — the digits of a plain text, and what they are read as.
* `exists_lexeme_write` — **the plain text of a double without a minus sign is a number that denotes it.**
-/

namespace FormulaSheet.Decimal

open Double (IsNearest NoMinus exists_eq_mul_zpow isNearest_mul_zpow_iff)

/-! ## The shortest decimal -/

section Shortest

variable {m c : Nat} {q k : Int}

/-- Half a step of the last grid is less than half a gap, and below a power of two than a quarter. -/
theorem isNearest_of_roundDiv (tie : Tie) (hm : 0 < m) (hwidth : m < 2 ^ 53)
    (h : c = roundDiv tie (4 * m * (Grid.of (pointPosition m q - 17) (q - 2)).binaryStep)
      (Grid.of (pointPosition m q - 17) (q - 2)).decimalStep) :
    IsNearest m q (c * 10 ^ (pointPosition m q - 17)) := by
  obtain ⟨habove, hbelow⟩ := bounds_of_roundDiv tie h
  have hstep := lastStep_le hm q
  generalize pointPosition m q - 17 = k at habove hbelow hstep ⊢
  have hplace : (0 : ℚ) < 2 ^ q := by positivity
  -- the decimal and its last step, in units of the last place
  obtain ⟨y, hy⟩ := exists_eq_mul_zpow (c * 10 ^ k) q
  obtain ⟨z, hz⟩ := exists_eq_mul_zpow (10 ^ k) q
  have hyabove : y ≤ m + z / 2 := le_of_mul_le_mul_right (by linarith) hplace
  have hybelow : m ≤ y + z / 2 := le_of_mul_le_mul_right (by linarith) hplace
  -- the step is so small that half of it is less than half a place
  have hzsmall : z * 10 ^ 16 ≤ m := le_of_mul_le_mul_right (by linarith) hplace
  have hm' : (m : ℚ) < 2 ^ 53 := by exact_mod_cast hwidth
  rw [hy, isNearest_mul_zpow_iff]
  refine ⟨?_, by linarith, fun _ => ⟨by linarith, by linarith⟩⟩
  -- the places below a power of two are half as large
  split
  · next hedge =>
    have hedge' : (m : ℚ) = 2 ^ 52 := by exact_mod_cast hedge.1
    linarith
  · linarith

/-- **The shortest decimal is nearest to the double.** -/
theorem isNearest_shortest (tie : Tie) (hm : 0 < m) (hwidth : m < 2 ^ 53) :
    IsNearest m q (shortest tie m q).value := by
  have hcases := (Interval.around m q).search_cases tie enoughDigits (pointPosition m q)
  rw [shortest, if_neg (Nat.ne_of_gt hm), Scientific.value]
  generalize (Interval.around m q).search tie enoughDigits (pointPosition m q) = s at hcases ⊢
  rcases hcases with ⟨-, hcontains⟩ | ⟨hexponent, hcoefficient⟩
  · exact (contains_iff_isNearest hm).mp hcontains
  · rw [hexponent]
    exact isNearest_of_roundDiv tie hm hwidth hcoefficient

end Shortest

/-! ## Plain texts -/

theorem valueFrom_zeros (acc n : Nat) : valueFrom acc (zeros n) = acc * 10 ^ n := by
  induction n generalizing acc with
  | zero => exact (Nat.mul_one acc).symm
  | succ n ih =>
    show valueFrom (10 * acc + 0) (zeros n) = _
    rw [ih, Nat.pow_succ]
    ring

theorem valueOf_append_zeros (ds : List Char) (n : Nat) :
    valueOf (ds ++ zeros n) = valueOf ds * 10 ^ n := by
  rw [valueOf, valueFrom_append, valueFrom_zeros, valueOf]

/-- The text is that of a number, and it is read as a decimal of the value. -/
def Denotes (text : List Char) (value : ℚ) : Prop :=
  ∃ whole fraction, AllDigits whole ∧ (∀ d ∈ fraction, isDigit d = true)
    ∧ text = (Piece.number whole fraction).lexeme
    ∧ ∃ c e, ofDigits whole fraction = nearest c e ∧ (c : ℚ) * 10 ^ e = value

theorem denotes_lexeme {whole fraction : List Char} (hwhole : AllDigits whole)
    (hfraction : ∀ d ∈ fraction, isDigit d = true) :
    Denotes (Piece.number whole fraction).lexeme
      (valueOf (whole ++ fraction) * 10 ^ (-(fraction.length : Int))) :=
  ⟨whole, fraction, hwhole, hfraction, rfl, _, _, rfl, rfl⟩

/-- Digits with a point among them, or behind zeros, or with zeros behind them, are a number. It is read
as a decimal of the same value. -/
theorem denotes_positional {ds : List Char} (hds : AllDigits ds) (k : Int) :
    Denotes (positional false ds (ds.length + k)) (valueOf ds * 10 ^ k) := by
  unfold positional
  split
  · next hsmall =>
    -- the point stands in front of all digits, and zeros between
    obtain ⟨n, hn⟩ : ∃ n : Nat, (ds.length : Int) + k = -n := ⟨(-(ds.length + k)).toNat, by omega⟩
    have hfraction : ∀ d ∈ zeros n ++ ds, isDigit d = true :=
      List.forall_mem_append.mpr ⟨isDigit_of_mem_zeros, hds.2⟩
    have hback : zeros n ++ ds ≠ [] := List.append_ne_nil_of_right_ne_nil (zeros n) hds.1
    have hvalue : valueOf (['0'] ++ (zeros n ++ ds)) = valueOf ds := valueOf_zeros_append (n + 1) ds
    have hplaces : -((zeros n ++ ds).length : Int) = k := by
      rw [List.length_append, zeros, List.length_replicate]
      omega
    have hnumber := denotes_lexeme allDigits_zero hfraction
    rw [hvalue, hplaces, lexeme_of_ne_nil _ hback] at hnumber
    rw [hn, Int.neg_neg, Int.toNat_natCast]
    exact hnumber
  · split
    · next hlarge =>
      -- it would stand behind them and some zeros, and is left out
      obtain ⟨n, rfl⟩ : ∃ n : Nat, k = n := ⟨k.toNat, by omega⟩
      have hzeros : ((ds.length : Int) + n).toNat - ds.length = n := by omega
      have hnumber := denotes_lexeme (hds.append_left isDigit_of_mem_zeros : AllDigits (ds ++ zeros n))
        (List.forall_mem_nil _)
      rw [List.append_nil, valueOf_append_zeros, List.length_nil, Int.natCast_zero, Int.neg_zero,
        zpow_zero, mul_one, Nat.cast_mul, Nat.cast_pow, Nat.cast_ofNat] at hnumber
      rw [hzeros, if_neg Bool.false_ne_true, List.append_nil, zpow_natCast]
      exact hnumber
    · next hinside =>
      obtain ⟨n, hn⟩ : ∃ n : Nat, (ds.length : Int) + k = n := ⟨(ds.length + k).toNat, by omega⟩
      have hfront : ds.take n ≠ [] := fun hnil => by
        rcases List.take_eq_nil_iff.mp hnil with hzero | hnone
        · omega
        · exact hds.1 hnone
      have hback : ds.drop n ≠ [] := fun hnil => by
        have := List.drop_eq_nil_iff.mp hnil
        omega
      have hplaces : -((ds.drop n).length : Int) = k := by
        rw [List.length_drop]
        omega
      have hnumber := denotes_lexeme ⟨hfront, fun c hc => hds.2 c (List.mem_of_mem_take hc)⟩
        (fun c hc => hds.2 c (List.mem_of_mem_drop hc) : ∀ d ∈ ds.drop n, isDigit d = true)
      rw [List.take_append_drop, hplaces, lexeme_of_ne_nil _ hback] at hnumber
      rw [hn, Int.toNat_natCast]
      exact hnumber

/-- A decimal that is the shortest of a double is read as the double. -/
theorem nearest_eq_self {x : Float} {tie : Tie} {m c : Nat} {q k : Int} (hsign : NoMinus x)
    (hdatum : Datum.ofFloat x = .finite false m q) (hvalue : (c : ℚ) * 10 ^ k = (shortest tie m q).value) :
    nearest c k = x := by
  have hten : (0 : ℚ) < 10 ^ k := by positivity
  rcases Nat.eq_zero_or_pos m with rfl | hm
  · obtain rfl : c = 0 := by
      have hzero : (c : ℚ) * 10 ^ k = 0 := hvalue.trans (zero_mul _)
      exact_mod_cast (mul_eq_zero_iff_right hten.ne').mp hzero
    exact (hsign.eq_zero hdatum).symm
  · have hunpack := hsign.unpack_eq hm hdatum
    obtain ⟨hwidth, hnormal, hq⟩ := Double.bounds_of_unpack hunpack
    have hnearest := isNearest_shortest tie hm hwidth (q := q)
    rw [← hvalue] at hnearest
    -- a number that is not zero is nearest to no zero
    have hc : 0 < c := by
      refine Nat.pos_of_ne_zero fun hzero => ?_
      obtain ⟨hpos, -⟩ := hnearest.range ⟨hm, hwidth, hnormal⟩ hq
      rw [hzero, Nat.cast_zero, zero_mul] at hpos
      exact absurd hpos (not_lt.mpr (by positivity))
    rw [Double.nearest_of_isNearest ⟨hm, hwidth, hnormal⟩ hc hq hnearest, ← hunpack, Double.pack_unpack]

/-- **The plain text of a double without a minus sign is a number that denotes it.** -/
theorem exists_lexeme_write {x : Float} (hfinite : x.isFinite = true) (hsign : NoMinus x) :
    ∃ whole fraction, AllDigits whole ∧ (∀ d ∈ fraction, isDigit d = true)
      ∧ plainLayout.write x = String.ofList (Piece.number whole fraction).lexeme
      ∧ ofDigits whole fraction = x := by
  obtain ⟨negative, m, q, hdatum, -, -⟩ := exists_datum hfinite
  have hminus := hsign.isNegative_eq
  rw [hdatum] at hminus
  obtain rfl : negative = false := hminus
  -- the shortest digits laid out with a point, and the decimal they stand for
  obtain ⟨whole, fraction, hwhole, hfraction, htext, c, k, hread, hvalue⟩ :=
    denotes_positional (allDigits_digits (shortest .away m q).coefficient) (shortest .away m q).exponent
  rw [valueOf_digits] at hvalue
  refine ⟨whole, fraction, hwhole, hfraction, ?_, hread.trans (nearest_eq_self hsign hdatum hvalue)⟩
  rw [← htext, Layout.write, withMinus, hdatum]
  rfl

end FormulaSheet.Decimal
