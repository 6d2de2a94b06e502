import FormulaSheet.Proofs.Double.Rounding

/-!
# FormulaSheet — sums of doubles

A sum of two doubles is their exact sum, rounded. All doubles are multiples of the least one, so the
exact sums are whole numbers, with the infinities and what is left undefined beside them, and in these
the order of the terms is of no account. What depends on it is the rounding.

* `round_mul_twoTo` — a number is rounded to the same, whatever the exponent it is written with.
* `add_eq_nearest` — a sum is the double nearest to the exact sum. A zero with a minus sign is not told
  from one without, so the first term must not be one.
* `Amount.IsDouble.nearest` — where the exact sum is a double, nothing is rounded.
* `Amount.IsMultiple.isDouble` — a multiple of a power of two is a double if 53 bits are enough to
  count it.
-/

namespace FormulaSheet.Double

open Float.Model (Format UnpackedFloat)
open Float.Model.UnpackedFloat (ExtendedMantissa Sign)

/-! ## Rounding a number, however it is written -/

section Scaling

variable {m : Nat}

/-- Two shifts are one, with their sticky bits. -/
theorem shiftRight_add (em : ExtendedMantissa) (n k : Nat) : em >>> (n + k) = (em >>> n) >>> k := by
  show Nat.repeat ExtendedMantissa.shiftRightOne (n + k) em
    = Nat.repeat ExtendedMantissa.shiftRightOne k (Nat.repeat ExtendedMantissa.shiftRightOne n em)
  induction k with
  | zero => rfl
  | succ k ih => rw [Nat.add_succ, Nat.repeat, ih, Nat.repeat]

/-- The exponent of the last place of a number once it is rounded. -/
def lastPlace (m : Nat) (e : Int) : Int :=
  Format.binary64.targetExponent (Float.Model.totalExponent m e)

/-- The last place of a number does not depend on how it is written. -/
theorem lastPlace_mul_twoTo (hm : m ≠ 0) (n : Nat) (e : Int) :
    lastPlace (m * 2 ^ n) (e - n) = lastPlace m e := by
  rw [lastPlace, lastPlace, Float.Model.totalExponent, Float.Model.totalExponent, log2_mul_twoTo hm]
  congr 1
  omega

/-- A significand that is short of its last place is filled up with zeros, and one that goes beyond it
loses bits. -/
theorem shiftToTargetExponent_decreaseExponent (hm : m ≠ 0) (e : Int) :
    UnpackedFloat.shiftToTargetExponent .binary64
        (UnpackedFloat.decreaseExponent m e (lastPlace m e)).1
        (UnpackedFloat.decreaseExponent m e (lastPlace m e)).2 .exact
      = (exactly (m * 2 ^ (e - lastPlace m e).toNat) >>> (lastPlace m e - e).toNat, lastPlace m e) := by
  -- zeros behind the mantissa do not move the last place
  have hplace := lastPlace_mul_twoTo hm (e - lastPlace m e).toNat e
  have hshift : (lastPlace m e - (e - (e - lastPlace m e).toNat)).toNat
      = (lastPlace m e - e).toNat := by omega
  have hend : e - (e - lastPlace m e).toNat + (lastPlace m e - e).toNat = lastPlace m e := by omega
  rw [lastPlace] at hplace
  simp only [UnpackedFloat.decreaseExponent, Nat.shiftLeft_eq, UnpackedFloat.shiftToTargetExponent,
    hplace, UnpackedFloat.shiftToExponent, hshift, hend]

/-- Rounding sees a number only as it is shifted to its last place. -/
theorem roundWithAccuracy_congr {m' : Nat} {e e' : Int}
    (h : UnpackedFloat.shiftToTargetExponent .binary64 m e .exact
      = UnpackedFloat.shiftToTargetExponent .binary64 m' e' .exact) (sign : Sign) :
    UnpackedFloat.roundWithAccuracy .binary64 sign m e .exact
      = UnpackedFloat.roundWithAccuracy .binary64 sign m' e' .exact := by
  simp only [UnpackedFloat.roundWithAccuracy, h]

/-- **Rounding depends on the number only**, not on the exponent with which it is written. -/
theorem round_mul_twoTo (hm : m ≠ 0) (sign : Sign) (n : Nat) (e : Int) :
    UnpackedFloat.round .binary64 sign (m * 2 ^ n) (e - n)
      = UnpackedFloat.round .binary64 sign m e := by
  have hne : m * 2 ^ n ≠ 0 := Nat.mul_ne_zero hm (Nat.two_pow_pos n).ne'
  have hplace := lastPlace_mul_twoTo hm n e
  have hwritten := shiftToTargetExponent_decreaseExponent hne (e - n)
  -- what is filled up more is shifted out again
  obtain ⟨c, hleft, hright⟩ :
      ∃ c, n + (e - n - lastPlace m e).toNat = (e - lastPlace m e).toNat + c
      ∧ (lastPlace m e - (e - n)).toNat = c + (lastPlace m e - e).toNat :=
    ⟨n + (e - n - lastPlace m e).toNat - (e - lastPlace m e).toNat, by omega, by omega⟩
  rw [hplace, Nat.mul_assoc, ← Nat.pow_add, hleft, hright, Nat.pow_add, ← Nat.mul_assoc,
    shiftRight_add, shiftRight_mul_twoTo, ← shiftToTargetExponent_decreaseExponent hm] at hwritten
  show UnpackedFloat.roundWithAccuracy .binary64 sign
    (UnpackedFloat.decreaseExponent (m * 2 ^ n) (e - n) (lastPlace (m * 2 ^ n) (e - n))).1
    (UnpackedFloat.decreaseExponent (m * 2 ^ n) (e - n) (lastPlace (m * 2 ^ n) (e - n))).2 .exact = _
  rw [hplace]
  exact roundWithAccuracy_congr hwritten sign

/-- The sign and the magnitude of a number are rounded apart. -/
theorem normalize_apply (hm : m ≠ 0) (sign zeroSign : Sign) (e : Int) :
    UnpackedFloat.normalize .binary64 (sign.apply m) e zeroSign
      = UnpackedFloat.round .binary64 sign m e := by
  cases sign with
  | positive =>
    -- the sign is read off the comparison with zero
    have hcompare : compare (m : Int) 0 = .gt := Int.compare_eq_gt.mpr (by omega)
    show UnpackedFloat.normalize .binary64 (m : Int) e zeroSign = _
    rw [UnpackedFloat.normalize, hcompare]
    rfl
  | negative =>
    have hcompare : compare (-(m : Int)) 0 = .lt := Int.compare_eq_lt.mpr (by omega)
    show UnpackedFloat.normalize .binary64 (-(m : Int)) e zeroSign = _
    rw [UnpackedFloat.normalize, hcompare]
    dsimp only
    rw [Int.neg_neg, Int.toNat_natCast]

theorem apply_mul (sign : Sign) (a : Int) (n : Nat) :
    sign.apply a * 2 ^ n = sign.apply (a * 2 ^ n) := by
  cases sign with
  | positive => rfl
  | negative => exact Int.neg_mul a (2 ^ n)

theorem exists_apply {a : Int} (ha : a ≠ 0) :
    ∃ (sign : Sign) (m : Nat), m ≠ 0 ∧ a = sign.apply m := by
  rcases Int.lt_or_gt_of_ne ha with hneg | hpos
  · refine ⟨.negative, (-a).toNat, by omega, ?_⟩
    show a = -((-a).toNat : Int)
    omega
  · refine ⟨.positive, a.toNat, by omega, ?_⟩
    show a = (a.toNat : Int)
    omega

/-- A number is rounded the same with a power of two moved into its exponent. -/
theorem normalize_mul_twoTo (a : Int) (n : Nat) (e : Int) (zeroSign : Sign) :
    UnpackedFloat.normalize .binary64 (a * 2 ^ n) (e - n) zeroSign
      = UnpackedFloat.normalize .binary64 a e zeroSign := by
  by_cases ha : a = 0
  · rw [ha, Int.zero_mul]
    rfl
  · obtain ⟨sign, m, hm, rfl⟩ := exists_apply ha
    have hne : m * 2 ^ n ≠ 0 := Nat.mul_ne_zero hm (Nat.two_pow_pos n).ne'
    have hcast : (m : Int) * 2 ^ n = ((m * 2 ^ n : Nat) : Int) := by
      rw [Int.natCast_mul, Int.natCast_pow]
      rfl
    rw [apply_mul, hcast, normalize_apply hne, normalize_apply hm, round_mul_twoTo hm]

end Scaling

/-! ## Amounts -/

/-- What a double stands for in a sum. -/
inductive Amount where
  /-- A number, which is counted in units of the least double. -/
  | number (units : Int)
  | infinite (sign : Sign)
  | undefined

namespace Amount

/-- The exact sum. -/
def add : Amount → Amount → Amount
  | undefined, _ | _, undefined => undefined
  | number a, number b => number (a + b)
  | infinite sign, number _ | number _, infinite sign => infinite sign
  | infinite sign, infinite sign' => if sign == sign' then infinite sign else undefined

instance : Add Amount := ⟨add⟩

instance : Zero Amount := ⟨number 0⟩

protected theorem zero_add (a : Amount) : 0 + a = a := by
  cases a with
  | number a => exact congrArg number (Int.zero_add a)
  | infinite sign => rfl
  | undefined => rfl

/-- Amounts add up in either order, the infinite ones and NaN included. -/
protected theorem add_comm (a b : Amount) : a + b = b + a := by
  cases a with
  | number a =>
    cases b with
    | number b => exact congrArg number (Int.add_comm a b)
    | _ => rfl
  | infinite sign =>
    cases b with
    | infinite sign' => cases sign <;> cases sign' <;> rfl
    | _ => rfl
  | undefined => cases b <;> rfl

/-- Amounts add up in any grouping: once two infinities have cancelled, every further sum is NaN. -/
protected theorem add_assoc (a b c : Amount) : a + b + c = a + (b + c) := by
  cases a with
  | number a =>
    cases b with
    | number b =>
      cases c with
      | number c => exact congrArg number (Int.add_assoc a b c)
      | _ => rfl
    | infinite sign =>
      cases c with
      | infinite sign' => cases sign <;> cases sign' <;> rfl
      | _ => rfl
    | undefined => cases c <;> rfl
  | infinite sign =>
    cases b with
    | number b => cases c <;> rfl
    | infinite sign' =>
      cases c with
      -- only where infinities meet do the signs decide
      | infinite sign'' => cases sign <;> cases sign' <;> cases sign'' <;> rfl
      | _ => cases sign <;> cases sign' <;> rfl
    | undefined => cases c <;> rfl
  | undefined => cases b <;> cases c <;> rfl

instance : AddCommMonoid Amount where
  add_assoc := Amount.add_assoc
  zero_add := Amount.zero_add
  add_zero a := (Amount.add_comm a 0).trans a.zero_add
  add_comm := Amount.add_comm
  nsmul := nsmulRec

/-- The double that is nearest to an amount. -/
def rounded : Amount → UnpackedFloat
  | number a => .normalize .binary64 a (-1074) .positive
  | infinite sign => .infinity sign
  | undefined => .notANumber

def nearest (a : Amount) : Float := .ofModel (.pack a.rounded)

/-- What an unpacked double stands for. -/
def ofUnpacked : UnpackedFloat → Amount
  | .notANumber => undefined
  | .infinity sign => infinite sign
  | .zero _ => number 0
  | .finite sign m e _ => number (sign.apply (m * 2 ^ (e + 1074).toNat))

end Amount

/-- What a double stands for. -/
def amount (x : Float) : Amount := .ofUnpacked x.toModel.unpack

section Sum

variable {x y : Float}

/-- A double is rounded to itself. -/
theorem rounded_amount (hx : x.toModel.unpack ≠ .zero .negative) :
    (amount x).rounded = x.toModel.unpack := by
  rw [amount]
  cases hunpack : x.toModel.unpack with
  | notANumber => rfl
  | infinity sign => rfl
  | zero sign =>
    cases sign with
    | positive => rfl
    | negative => exact absurd hunpack hx
  | finite sign m e hm =>
    obtain ⟨hwidth, hnormal, -⟩ := bounds_of_unpack hunpack
    have hne : m * 2 ^ (e + 1074).toNat ≠ 0 :=
      Nat.mul_ne_zero (Nat.ne_of_gt hm) (Nat.two_pow_pos _).ne'
    -- there is room for the significand, so nothing is rounded
    have hround := roundWithAccuracy_mul_twoTo hm hwidth hnormal sign (e - lastPlace m e).toNat
    show UnpackedFloat.normalize .binary64 (sign.apply (m * 2 ^ (e + 1074).toNat : Nat)) (-1074)
      .positive = _
    rw [normalize_apply hne, show -1074 = e - ((e + 1074).toNat : Int) by omega,
      round_mul_twoTo (Nat.ne_of_gt hm), ← hround]
    show UnpackedFloat.roundWithAccuracy .binary64 sign
      (UnpackedFloat.decreaseExponent m e (lastPlace m e)).1
      (UnpackedFloat.decreaseExponent m e (lastPlace m e)).2 .exact = _
    rw [UnpackedFloat.decreaseExponent, Nat.shiftLeft_eq]

/-- Numbers with the same exponent are added in units of it. -/
theorem apply_mul_twoTo {m : Nat} {e least : Int} (hleast : -1074 ≤ least) (he : least ≤ e)
    (sign : Sign) :
    sign.apply (m * 2 ^ (e + 1074).toNat)
      = sign.apply (m <<< (e - least).toNat : Nat) * 2 ^ (least + 1074).toNat := by
  rw [Nat.shiftLeft_eq, apply_mul, Int.natCast_mul, Int.natCast_pow, Int.mul_assoc]
  congr 2
  show (2 : Int) ^ _ = 2 ^ _ * 2 ^ _
  rw [← Int.pow_add]
  congr 1
  omega

/-- The sum of two finite doubles is the exact sum of their amounts, rounded once. -/
theorem add_finite {m m' : Nat} {e e' : Int} {hm : 0 < m} {hm' : 0 < m'} (sign sign' : Sign)
    (he : -1074 ≤ e) (he' : -1074 ≤ e') :
    UnpackedFloat.add .binary64 (.finite sign m e hm) (.finite sign' m' e' hm')
      = (Amount.ofUnpacked (.finite sign m e hm) + .ofUnpacked (.finite sign' m' e' hm')).rounded := by
  have hleast : -1074 ≤ min e e' := Int.le_min.mpr ⟨he, he'⟩
  -- the mantissas are moved to the smaller exponent, where the sum is exact
  show UnpackedFloat.normalize .binary64 (sign.apply (m <<< (e - min e e').toNat : Nat)
      + sign'.apply (m' <<< (e' - min e e').toNat : Nat)) (min e e') .positive
    = UnpackedFloat.normalize .binary64 (sign.apply (m * 2 ^ (e + 1074).toNat)
      + sign'.apply (m' * 2 ^ (e' + 1074).toNat)) (-1074) .positive
  rw [apply_mul_twoTo hleast (Int.min_le_left ..), apply_mul_twoTo hleast (Int.min_le_right ..),
    ← Int.add_mul, show -1074 = min e e' - ((min e e' + 1074).toNat : Int) by omega,
    normalize_mul_twoTo]

/-- **A sum is rounded once**: it is the double nearest to the exact sum. -/
theorem add_eq_nearest (hx : x.toModel.unpack ≠ .zero .negative) :
    x + y = (amount x + amount y).nearest := by
  have hself := rounded_amount hx
  suffices hsum : UnpackedFloat.add .binary64 x.toModel.unpack y.toModel.unpack
      = (amount x + amount y).rounded by
    rw [add_eq, hsum, Amount.nearest]
  -- what is no number decides by itself, and a zero leaves the other term as it is
  cases hy : y.toModel.unpack with
  | notANumber =>
    rw [amount, amount, hy]
    cases x.toModel.unpack <;> rfl
  | infinity sign =>
    rw [amount, amount, hy]
    cases x.toModel.unpack with
    | infinity sign' => cases sign <;> cases sign' <;> rfl
    | _ => rfl
  | zero sign =>
    have hzero : amount y = 0 := by rw [amount, hy]; rfl
    rw [hzero, add_zero, hself]
    cases hunpack : x.toModel.unpack with
    | zero sign' =>
      cases sign' with
      | positive => cases sign <;> rfl
      | negative => exact absurd hunpack hx
    | _ => rfl
  | finite sign m e hm =>
    cases hunpack : x.toModel.unpack with
    | notANumber =>
      rw [amount, amount, hy, hunpack]
      rfl
    | infinity sign' =>
      rw [amount, amount, hy, hunpack]
      rfl
    | zero sign' =>
      have hzero : amount x = 0 := by rw [amount, hunpack]; rfl
      have hother := rounded_amount (x := y) (by rw [hy]; nofun)
      rw [hzero, zero_add, hother, hy]
      rfl
    | finite sign' m' e' hm' =>
      have he : -1074 ≤ e := (bounds_of_unpack hy).2.1.elim And.right Eq.ge
      have he' : -1074 ≤ e' := (bounds_of_unpack hunpack).2.1.elim And.right Eq.ge
      rw [amount, amount, hy, hunpack]
      exact add_finite sign' sign he' he

end Sum

/-! ## Amounts that are doubles -/

def Amount.IsDouble (a : Amount) : Prop := ∃ x, amount x = a

/-- The double nearest to an amount that is one, for which a zero counts that has no minus sign. -/
theorem Amount.IsDouble.nearest {a : Amount} (h : a.IsDouble) :
    amount a.nearest = a ∧ a.nearest.toModel.unpack ≠ .zero .negative := by
  obtain ⟨x, rfl⟩ := h
  by_cases hzero : x.toModel.unpack = .zero .negative
  · have hamount : amount x = 0 := by rw [amount, hzero]; rfl
    rw [hamount]
    exact ⟨by rfl, nofun⟩
  · have hself : (amount x).nearest = x := by
      rw [Amount.nearest, rounded_amount hzero, pack_unpack]
    rw [hself]
    exact ⟨rfl, hzero⟩

theorem isDouble_zero : (0 : Amount).IsDouble := ⟨0.0, rfl⟩

/-- What has 53 bits, or fewer at the least exponent, is a double. -/
theorem isDouble_canonical {m : Nat} {e : Int} (hm : 0 < m) (hwidth : m < 2 ^ 53)
    (hnormal : 2 ^ 52 ≤ m ∧ -1074 ≤ e ∨ e = -1074) (he : e ≤ 971) (sign : Sign) :
    (Amount.number (sign.apply (m * 2 ^ (e + 1074).toNat))).IsDouble := by
  -- a normal double or a subnormal one
  have hunpack : UnpackedFloat.unpack .binary64 (UnpackedFloat.pack .binary64 (.finite sign m e hm))
      = .finite sign m e hm := by
    by_cases hlow : 2 ^ 52 ≤ m
    · exact unpack_pack_normal sign hlow hwidth (by omega) he
    · obtain rfl : e = -1074 := by omega
      exact unpack_pack_subnormal sign (Nat.not_le.mp hlow)
  refine ⟨.ofModel (.pack (.finite sign m e hm)), ?_⟩
  show Amount.ofUnpacked (UnpackedFloat.unpack .binary64
    (UnpackedFloat.pack .binary64 (.finite sign m e hm))) = _
  rw [hunpack]
  rfl

/-- A multiple of a place that has no more than the digits of a double is one. -/
theorem isDouble_mul_twoTo {c : Int} {place : Nat} (hplace : place ≤ 2045)
    (hc : c.natAbs < 2 ^ 53) :
    (Amount.number (c * 2 ^ place)).IsDouble := by
  by_cases hzero : c = 0
  · rw [hzero, Int.zero_mul]
    exact isDouble_zero
  · obtain ⟨sign, m, hm, rfl⟩ := exists_apply hzero
    have habs : (sign.apply (m : Int)).natAbs = m := by
      cases sign with
      | positive => exact Int.natAbs_natCast m
      | negative => exact (Int.natAbs_neg m).trans (Int.natAbs_natCast m)
    rw [habs] at hc
    have hlog : m.log2 < 53 := (Nat.log2_lt hm).mpr hc
    -- as many zeros as the significand has room for, and as the exponent leaves
    obtain ⟨n, k, hsum, hfull⟩ :
        ∃ n k, n + k = place ∧ (n + m.log2 = 52 ∨ n + m.log2 ≤ 52 ∧ k = 0) := by
      by_cases hroom : place + m.log2 ≤ 52
      · exact ⟨place, 0, rfl, .inr ⟨hroom, rfl⟩⟩
      · exact ⟨52 - m.log2, place - (52 - m.log2), by omega, .inl (by omega)⟩
    have hwritten : m * 2 ^ n ≠ 0 := Nat.mul_ne_zero hm (Nat.two_pow_pos n).ne'
    have hlog' : (m * 2 ^ n).log2 = m.log2 + n := log2_mul_twoTo hm n
    have hwidth : m * 2 ^ n < 2 ^ 53 := (Nat.log2_lt hwritten).mp (by omega)
    have hnormal : 2 ^ 52 ≤ m * 2 ^ n ∧ -1074 ≤ (k : Int) - 1074
        ∨ (k : Int) - 1074 = -1074 := by
      rcases hfull with hfull | ⟨-, rfl⟩
      · exact .inl ⟨(Nat.le_log2 hwritten).mp (by omega), by omega⟩
      · exact .inr rfl
    have hdouble := isDouble_canonical (Nat.pos_of_ne_zero hwritten) hwidth hnormal (by omega) sign
    have hk : ((k : Int) - 1074 + 1074).toNat = k := by omega
    rw [hk, Int.natCast_mul, Int.natCast_pow, Int.mul_assoc] at hdouble
    rw [apply_mul, ← hsum, Int.pow_add]
    exact hdouble

/-- How far from zero an amount is, if it is a number. -/
def Amount.magnitude : Amount → Nat
  | number a => a.natAbs
  | _ => 0

/-- The amount is a whole number of times a power of two. -/
def Amount.IsMultiple (place : Nat) : Amount → Prop
  | number a => 2 ^ place ∣ a
  | _ => False

instance (place : Nat) (a : Amount) : Decidable (a.IsMultiple place) :=
  match a with
  | .number a => inferInstanceAs (Decidable (2 ^ place ∣ a))
  | .infinite _ | .undefined => inferInstanceAs (Decidable False)

section Multiples

variable {a b : Amount} {place : Nat}

/-- A sum is no larger than its summands together. -/
theorem Amount.magnitude_add_le (a b : Amount) : (a + b).magnitude ≤ a.magnitude + b.magnitude := by
  cases a with
  | number a =>
    cases b with
    | number b => exact Int.natAbs_add_le a b
    | _ => exact Nat.zero_le _
  | infinite sign =>
    cases b with
    | infinite sign' => cases sign <;> cases sign' <;> exact Nat.zero_le _
    | _ => exact Nat.zero_le _
  | undefined => cases b <;> exact Nat.zero_le _

/-- Multiples of a place add up to a multiple of it. -/
theorem Amount.IsMultiple.add (ha : a.IsMultiple place) (hb : b.IsMultiple place) :
    (a + b).IsMultiple place := by
  cases a with
  | number a =>
    cases b with
    | number b => exact Int.dvd_add ha hb
    | _ => cases hb
  | _ => cases ha

theorem Amount.isMultiple_sum {amounts : List Amount} (h : ∀ a ∈ amounts, a.IsMultiple place) :
    amounts.sum.IsMultiple place := by
  induction amounts with
  | nil => exact Int.dvd_zero _
  | cons a rest ih =>
    obtain ⟨ha, hrest⟩ := List.forall_mem_cons.mp h
    rw [List.sum_cons]
    exact ha.add (ih hrest)

/-- A sum of amounts is no larger than they are together. -/
theorem Amount.magnitude_sum_le (amounts : List Amount) :
    amounts.sum.magnitude ≤ (amounts.map Amount.magnitude).sum := by
  induction amounts with
  | nil => exact Nat.le_refl _
  | cons a rest ih =>
    rw [List.sum_cons, List.map_cons, List.sum_cons]
    exact Nat.le_trans (Amount.magnitude_add_le a rest.sum) (Nat.add_le_add_left ih _)

/-- A multiple of a power of two is a double if 53 bits are enough to count it. -/
theorem Amount.IsMultiple.isDouble (h : a.IsMultiple place) (hplace : place ≤ 2045)
    (hroom : a.magnitude < 2 ^ 53 * 2 ^ place) : a.IsDouble := by
  cases a with
  | number a =>
    obtain ⟨c, rfl⟩ := h
    have hcount : c.natAbs < 2 ^ 53 := by
      rw [magnitude, Int.natAbs_mul, Int.natAbs_pow, Nat.mul_comm] at hroom
      exact Nat.lt_of_mul_lt_mul_right hroom
    rw [Int.mul_comm]
    exact isDouble_mul_twoTo hplace hcount
  | _ => cases h

end Multiples

end FormulaSheet.Double
