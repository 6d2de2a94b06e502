import FormulaSheet.Proofs.Double.Arithmetic

/-!
# FormulaSheet — rounding and limits

A result is rounded to the nearest double. So it does not pass a double that the exact result does
not pass: what is at most `n · 2 ^ k` with a short `n` is so after it has been rounded. Products of
doubles with such limits stay finite if the product of the limits is a finite double.

* `rounded_shiftRight_le` — bits that are shifted out do not carry a significand past a whole
  number.
* `roundWithAccuracy_le` — the rounded significand and exponent, and the limit they keep.
* `atMost_round`, `isInf_mul` — the same for the doubles into which they are packed.
* `atMost_toFloat`, `atMost_ofScientific` — the double nearest to a decimal keeps its limits, too.
-/

namespace FormulaSheet.Double

open Float.Model (Format UnpackedFloat)
open Float.Model.UnpackedFloat (ExtendedMantissa Sign)

/-! ## Significands -/

/-- A significand of which no bit has been shifted out. -/
abbrev exactly (m : Nat) : ExtendedMantissa := .ofMantissaAndAccuracy m .exact

/-- A shift divides the mantissa by a power of two. -/
theorem mantissa_shiftRight (em : ExtendedMantissa) (n : Nat) :
    (em >>> n).mantissa = em.mantissa / 2 ^ n := by
  show (Nat.repeat ExtendedMantissa.shiftRightOne n em).mantissa = _
  induction n with
  | zero => rw [Nat.pow_zero, Nat.div_one]; rfl
  | succ n ih => rw [Nat.pow_succ, ← Nat.div_div_eq_div_mul, ← ih]; rfl

/-- Rounding adds one at most. -/
theorem roundedMantissa_bounds (em : ExtendedMantissa) :
    em.mantissa ≤ em.roundedMantissa ∧ em.roundedMantissa ≤ em.mantissa + 1 := by
  obtain ⟨m, round, sticky⟩ := em
  cases round <;> cases sticky <;>
    simp only [ExtendedMantissa.roundedMantissa, ExtendedMantissa.accuracy,
      UnpackedFloat.Accuracy.roundToNearestEven] <;> omega

section Shift

variable {m n k : Nat}

/-- A mantissa below a whole number of places is not rounded above it. -/
theorem rounded_shiftRight_le (h : m ≤ k * 2 ^ n) :
    (exactly m >>> n).roundedMantissa ≤ k := by
  rcases Nat.eq_or_lt_of_le h with rfl | hlt
  · rw [shiftRight_mul_twoTo]
    exact Nat.le_refl k
  · have hbelow : m / 2 ^ n < k := Nat.div_lt_of_lt_mul (by rwa [Nat.mul_comm])
    have hround := (roundedMantissa_bounds (exactly m >>> n)).2
    rw [mantissa_shiftRight] at hround
    exact Nat.le_trans hround hbelow

/-- A mantissa above a whole number of places is not rounded below it. -/
theorem le_rounded_shiftRight (h : k * 2 ^ n ≤ m) :
    k ≤ (exactly m >>> n).roundedMantissa := by
  have hbelow : k ≤ m / 2 ^ n := (Nat.le_div_iff_mul_le (Nat.two_pow_pos n)).mpr h
  have hround := (roundedMantissa_bounds (exactly m >>> n)).1
  rw [mantissa_shiftRight] at hround
  exact Nat.le_trans hbelow hround

end Shift

/-! ## Rounding -/

section Rounding

variable {m n j k : Nat} {e : Int} (sign : Sign)

/-- A significand with `j` bits too many has 53 in front of them. -/
theorem bounds_of_log2 (hm : m ≠ 0) (hj : m.log2 = 52 + j) :
    2 ^ 52 * 2 ^ j ≤ m ∧ m < 2 ^ 53 * 2 ^ j := by
  constructor
  · rw [← Nat.pow_add, ← hj]
    exact Nat.log2_self_le hm
  · rw [← Nat.pow_add, show 53 + j = m.log2 + 1 by omega]
    exact Nat.lt_log2_self

/-- The bits that are too many are shifted out, and what they were is kept in the residual ones. -/
theorem shiftToTargetExponent_eq (accuracy : UnpackedFloat.Accuracy) (hj : m.log2 = 52 + j)
    (he : -1074 ≤ e) :
    UnpackedFloat.shiftToTargetExponent .binary64 m e accuracy
      = (ExtendedMantissa.ofMantissaAndAccuracy m accuracy >>> j, e + (j : Int)) := by
  have htarget :
      Format.binary64.targetExponent (Float.Model.totalExponent m e) = e + (j : Int) := by
    show max ((m.log2 : Int) + 1 + e - 53) (-1074) = _
    omega
  have hshift : (e + (j : Int) - e).toNat = j := by omega
  simp only [UnpackedFloat.shiftToTargetExponent, htarget, UnpackedFloat.shiftToExponent, hshift]

/-- What is left after the shift is rounded, and a carry out of all 53 bits is made good. -/
theorem roundWithAccuracy_cases (hj : m.log2 = 52 + j) (he : -1074 ≤ e) :
    2 ^ 52 ≤ (exactly m >>> j).roundedMantissa ∧
      ((exactly m >>> j).roundedMantissa < 2 ^ 53 ∧
          (∃ h, UnpackedFloat.roundWithAccuracy .binary64 sign m e .exact
            = .finite sign (exactly m >>> j).roundedMantissa (e + j) h)
        ∨ (exactly m >>> j).roundedMantissa = 2 ^ 53 ∧
          UnpackedFloat.roundWithAccuracy .binary64 sign m e .exact
            = .finite sign (2 ^ 52) (e + ((j + 1 : Nat) : Int)) (by decide)) := by
  have hne : m ≠ 0 := by
    rintro rfl
    rw [Nat.log2_zero] at hj
    omega
  obtain ⟨hfrom, hto⟩ := bounds_of_log2 hne hj
  have hlow := le_rounded_shiftRight hfrom
  have hhigh := rounded_shiftRight_le (Nat.le_of_lt hto)
  have hfirst := shiftToTargetExponent_eq .exact hj he
  generalize hr : (exactly m >>> j).roundedMantissa = r at *
  refine ⟨hlow, ?_⟩
  rcases Nat.lt_or_eq_of_le hhigh with hlt | rfl
  · -- without a carry it has 53 bits, and nothing is left to shift
    have hsecond := shiftToTargetExponent_mul_twoTo (Nat.lt_of_lt_of_le (by decide) hlow) hlt
      (.inl ⟨hlow, show -1074 ≤ e + (j : Int) by omega⟩) 0
    rw [Nat.pow_zero, Nat.mul_one, Int.natCast_zero, Int.sub_zero] at hsecond
    have hpositive : r ≠ 0 := by omega
    refine .inl ⟨hlt, Nat.pos_of_ne_zero hpositive, ?_⟩
    simp only [UnpackedFloat.roundWithAccuracy, hfirst, hr, hsecond]
    exact dif_neg hpositive
  · -- a carry makes it a power of two, with one zero to shift out
    have hsecond := shiftToTargetExponent_mul_twoTo (m := 2 ^ 52) (by decide) (by decide)
      (.inl ⟨Nat.le_refl _, show -1074 ≤ e + ((j + 1 : Nat) : Int) by omega⟩) 1
    rw [show e + ((j + 1 : Nat) : Int) - (1 : Nat) = e + (j : Int) by omega] at hsecond
    refine .inr ⟨rfl, ?_⟩
    simp only [UnpackedFloat.roundWithAccuracy, hfirst, hr]
    simp only [show 2 ^ 53 = 2 ^ 52 * 2 ^ 1 from rfl, hsecond]
    rfl

/-- **Rounding keeps limits.** If the exact magnitude is at most `n · 2 ^ k` units of its last
place, where `n` has 53 bits, the rounded one is, too. -/
theorem roundWithAccuracy_le (hm : 2 ^ 52 ≤ m) (he : -1074 ≤ e) (hn : n < 2 ^ 53)
    (h : m ≤ n * 2 ^ k) :
    ∃ m' j hm', UnpackedFloat.roundWithAccuracy .binary64 sign m e .exact
        = .finite sign m' (e + (j : Nat)) hm'
      ∧ 2 ^ 52 ≤ m' ∧ m' < 2 ^ 53 ∧ j ≤ k ∧ m' ≤ n * 2 ^ (k - j) := by
  have hne : m ≠ 0 := by omega
  have hlog : 52 ≤ m.log2 := (Nat.le_log2 hne).mpr hm
  obtain ⟨j, hj⟩ : ∃ j, m.log2 = 52 + j := ⟨m.log2 - 52, by omega⟩
  -- the limit has 53 bits, so its exponent is not below that of the result
  have hjk : j ≤ k := by
    have hlt : 2 ^ (52 + j) < 2 ^ (53 + k) := by
      rw [Nat.pow_add, Nat.pow_add]
      exact Nat.lt_of_le_of_lt (Nat.le_trans (bounds_of_log2 hne hj).1 h)
        (Nat.mul_lt_mul_of_pos_right hn (Nat.two_pow_pos k))
    have := (Nat.pow_lt_pow_iff_right (by decide)).mp hlt
    omega
  have hlimit : (exactly m >>> j).roundedMantissa ≤ n * 2 ^ (k - j) := by
    refine rounded_shiftRight_le ?_
    rwa [Nat.mul_assoc, ← Nat.pow_add, Nat.sub_add_cancel hjk]
  obtain ⟨hlow, ⟨hhigh, hpositive, hround⟩ | ⟨hcarry, hround⟩⟩ := roundWithAccuracy_cases sign hj he
  · exact ⟨_, j, hpositive, hround, hlow, hhigh, hjk, hlimit⟩
  · -- a limit with 53 bits is a carry away only if it has more room
    rw [hcarry] at hlimit
    have hroom : j ≠ k := by
      rintro rfl
      rw [Nat.sub_self, Nat.pow_zero, Nat.mul_one] at hlimit
      omega
    obtain ⟨i, rfl⟩ : ∃ i, k = j + 1 + i := ⟨k - (j + 1), by omega⟩
    have htwice : n * 2 ^ (i + 1) = n * 2 ^ i * 2 := by rw [Nat.pow_succ, Nat.mul_assoc]
    rw [show j + 1 + i - j = i + 1 by omega, htwice] at hlimit
    refine ⟨2 ^ 52, j + 1, by decide, hround, Nat.le_refl _, by decide, by omega, ?_⟩
    rw [show j + 1 + i - (j + 1) = i by omega]
    omega

end Rounding

/-! ## Doubles with limits -/

theorem unpack_pack_normal {m : Nat} {e : Int} {hm : 0 < m} (sign : Sign) (hlow : 2 ^ 52 ≤ m)
    (hhigh : m < 2 ^ 53) (he : -1074 ≤ e) (he' : e ≤ 971) :
    UnpackedFloat.unpack .binary64 (UnpackedFloat.pack .binary64 (.finite sign m e hm))
      = .finite sign m e hm := by
  -- the stored exponent, which is neither that of zero nor that of infinity
  obtain ⟨b, hb, hpositive, hfinite⟩ : ∃ b : Nat, e + 1023 + 52 = b ∧ 0 < b ∧ b < 2047 :=
    ⟨(e + 1023 + 52).toNat, by omega, by omega, by omega⟩
  have hlog : m.log2 = 52 := by
    have hle : 52 ≤ m.log2 := (Nat.le_log2 (Nat.ne_of_gt hm)).mpr hlow
    have hlt : m.log2 < 53 := (Nat.log2_lt (Nat.ne_of_gt hm)).mpr hhigh
    omega
  have hpack : UnpackedFloat.pack .binary64 (.finite sign m e hm)
      = UnpackedFloat.packComponents .binary64 sign (.ofNat 11 b) (.ofNat 52 m) := by
    show (if 2 ^ 11 ≤ (e + 1023 + 52).toNat + 1 then _ else
      if m.log2 + 1 = 53 then UnpackedFloat.packComponents .binary64 sign
        (.ofNat 11 (e + 1023 + 52).toNat) (.ofNat 52 m) else _) = _
    rw [hb, Int.toNat_natCast, if_neg (by omega), if_pos (by omega)]
  have hexponent : (BitVec.ofNat 11 b).toNat = b := Nat.mod_eq_of_lt (by omega)
  have hne : ∀ v : BitVec 11, b ≠ v.toNat → BitVec.ofNat 11 b ≠ v := by
    rintro v hb rfl
    exact hb hexponent.symm
  have hinf : BitVec.ofNat 11 b ≠ -1#11 := hne _ (Nat.ne_of_lt hfinite)
  have hzero : BitVec.ofNat 11 b ≠ 0#11 := hne _ (Nat.ne_of_gt hpositive)
  -- the leading bit is not stored, and put back
  have hfraction : (BitVec.ofNat 52 m).toNat = m - 2 ^ 52 := by
    show m % 2 ^ 52 = _
    omega
  have hleading : (1#1 ++ BitVec.ofNat 52 m).toNat = m := by
    rw [toNat_one_append, hfraction]
    omega
  rw [hpack, UnpackedFloat.unpack]
  simp only [UnpackedFloat.unpackExponent_packComponents,
    UnpackedFloat.unpackMantissa_packComponents, UnpackedFloat.unpackSign_packComponents,
    Sign.ofBitVec_toBitVec]
  rw [if_neg hinf, if_neg hzero]
  have hunbiased : (b : Int) - (1023 + 52) = e := by omega
  simp only [hleading, hexponent]
  exact (UnpackedFloat.finite.injEq ..).mpr ⟨rfl, rfl, hunbiased⟩

/-- A subnormal double is unpacked as it was packed. -/
theorem unpack_pack_subnormal {m : Nat} {hm : 0 < m} (sign : Sign) (hsmall : m < 2 ^ 52) :
    UnpackedFloat.unpack .binary64 (UnpackedFloat.pack .binary64 (.finite sign m (-1074) hm))
      = .finite sign m (-1074) hm := by
  have hlog : m.log2 < 52 := (Nat.log2_lt (Nat.ne_of_gt hm)).mpr hsmall
  -- without its leading bit the double is packed with exponent zero
  have hpack : UnpackedFloat.pack .binary64 (.finite sign m (-1074) hm)
      = UnpackedFloat.packComponents .binary64 sign 0#11 (.ofNat 52 m) := by
    show (if m.log2 + 1 = 53 then _
      else UnpackedFloat.packComponents .binary64 sign 0#11 (.ofNat 52 m)) = _
    rw [if_neg (by omega)]
  have hfraction : (BitVec.ofNat 52 m).toNat = m := Nat.mod_eq_of_lt hsmall
  -- a fraction of zero would be unpacked as a zero
  have hpositive : BitVec.ofNat 52 m ≠ 0#52 := fun hzero => by
    rw [hzero] at hfraction
    exact absurd hfraction.symm (Nat.ne_of_gt hm)
  rw [hpack, UnpackedFloat.unpack]
  simp only [UnpackedFloat.unpackExponent_packComponents,
    UnpackedFloat.unpackMantissa_packComponents, UnpackedFloat.unpackSign_packComponents,
    Sign.ofBitVec_toBitVec]
  rw [if_neg (by decide), if_pos trivial, dif_neg hpositive]
  exact (UnpackedFloat.finite.injEq ..).mpr ⟨rfl, hfraction, rfl⟩

/-- The double is positive, with 53 bits that reach down to `2 ^ -53` at most, and it is at most
`limit`. -/
def AtMost (limit : Nat) (x : Float) : Prop :=
  ∃ m e h, x.toModel.unpack = .finite .positive m e h
    ∧ 2 ^ 52 ≤ m ∧ -53 ≤ e ∧ m * 2 ^ (e + 53).toNat ≤ limit * 2 ^ 53

instance (limit : Nat) (x : Float) : Decidable (AtMost limit x) :=
  match h : x.toModel.unpack with
  | .finite .positive m e hm =>
    if hle : 2 ^ 52 ≤ m ∧ -53 ≤ e ∧ m * 2 ^ (e + 53).toNat ≤ limit * 2 ^ 53 then
      isTrue ⟨m, e, hm, h, hle⟩
    else
      isFalse fun ⟨_, _, _, hunpack, hbounds⟩ => by
        obtain ⟨-, rfl, rfl⟩ := UnpackedFloat.finite.inj (h.symm.trans hunpack)
        exact hle hbounds
  | .finite .negative _ _ _ | .infinity _ | .zero _ | .notANumber =>
    isFalse fun ⟨_, _, _, hunpack, _⟩ => nomatch h.symm.trans hunpack

/-- A limit that a double reaches. -/
def Reached (limit : Nat) : Prop := ∃ n k, n < 2 ^ 53 ∧ k ≤ 971 ∧ limit = n * 2 ^ k

/-- A number below a limit that is itself a double is not rounded above it. -/
theorem atMost_round {m limit : Nat} {e : Int} (hlimit : Reached limit) (hm : 2 ^ 52 ≤ m)
    (he : -53 ≤ e) (he' : e ≤ 0) (h : m * 2 ^ (e + 53).toNat ≤ limit * 2 ^ 53) :
    AtMost limit
      (.ofModel (.pack (UnpackedFloat.roundWithAccuracy .binary64 .positive m e .exact))) := by
  obtain ⟨n, k, hn, hk, rfl⟩ := hlimit
  obtain ⟨d, hd⟩ : ∃ d : Nat, e = -d := ⟨(-e).toNat, by omega⟩
  -- the limit in units of the last place of the number
  have hcancel : m ≤ n * 2 ^ (k + d) := by
    refine Nat.le_of_mul_le_mul_right ?_ (Nat.two_pow_pos (e + 53).toNat)
    rw [Nat.mul_assoc, ← Nat.pow_add, show k + d + (e + 53).toNat = k + 53 by omega, Nat.pow_add,
      ← Nat.mul_assoc]
    exact h
  obtain ⟨m', j, hpositive, hround, hlow, hhigh, hj, hle⟩ :=
    roundWithAccuracy_le .positive hm (show -1074 ≤ e by omega) hn hcancel
  rw [hround]
  refine ⟨m', e + j, hpositive, unpack_pack_normal _ hlow hhigh (by omega) (by omega), hlow,
    by omega, ?_⟩
  calc m' * 2 ^ (e + j + 53).toNat ≤ n * 2 ^ (k + d - j) * 2 ^ (e + j + 53).toNat :=
        Nat.mul_le_mul_right _ hle
    _ = n * 2 ^ k * 2 ^ 53 := by
        rw [Nat.mul_assoc, ← Nat.pow_add, Nat.mul_assoc, ← Nat.pow_add,
          show k + d - j + (e + j + 53).toNat = k + 53 by omega]

/-- A magnitude with an exponent that is at most the largest one with another is so in units of its
own last place. -/
theorem exists_units {m k : Nat} {e : Int} (hm : 2 ^ 52 ≤ m) (he : -106 ≤ e)
    (h : m * 2 ^ (e + 106).toNat ≤ (2 ^ 53 - 1) * 2 ^ (k + 106)) :
    ∃ d : Nat, e + d = k ∧ m ≤ (2 ^ 53 - 1) * 2 ^ d := by
  -- a larger exponent would take a long mantissa above the limit
  have hle : e ≤ k := by
    refine Int.not_lt.mp fun hlt => ?_
    have hpower : 2 ^ (k + 106) * 2 ≤ 2 ^ (e + 106).toNat := by
      rw [← Nat.pow_succ]
      exact Nat.pow_le_pow_right (by decide) (by omega)
    have hover := Nat.le_trans (Nat.mul_le_mul hm hpower) h
    have hpositive : 0 < 2 ^ (k + 106) := Nat.two_pow_pos _
    omega
  obtain ⟨d, hd⟩ : ∃ d : Nat, e + d = k := ⟨(k - e).toNat, by omega⟩
  refine ⟨d, hd, Nat.le_of_mul_le_mul_right ?_ (Nat.two_pow_pos (e + 106).toNat)⟩
  rw [Nat.mul_assoc (2 ^ 53 - 1), ← Nat.pow_add, show d + (e + 106).toNat = k + 106 by omega]
  exact h

/-- **A product within the limits is finite.** -/
theorem isInf_mul {x y : Float} {limit other k : Nat} (hx : AtMost limit x) (hy : AtMost other y)
    (hk : k ≤ 971) (h : limit * other ≤ (2 ^ 53 - 1) * 2 ^ k) : (x * y).isInf = false := by
  obtain ⟨m, e, hm, hunpack, hlow, he, hle⟩ := hx
  obtain ⟨m', e', hm', hunpack', hlow', he', hle'⟩ := hy
  have hproduct : m * m' * 2 ^ (e + e' + 106).toNat ≤ (2 ^ 53 - 1) * 2 ^ (k + 106) := by
    calc m * m' * 2 ^ (e + e' + 106).toNat
        = m * 2 ^ (e + 53).toNat * (m' * 2 ^ (e' + 53).toNat) := by
          rw [show (e + e' + 106).toNat = (e + 53).toNat + (e' + 53).toNat by omega, Nat.pow_add]
          ac_rfl
      _ ≤ limit * 2 ^ 53 * (other * 2 ^ 53) := Nat.mul_le_mul hle hle'
      _ = limit * other * 2 ^ 106 := by
          rw [show 2 ^ 106 = 2 ^ 53 * 2 ^ 53 from rfl]
          ac_rfl
      _ ≤ (2 ^ 53 - 1) * 2 ^ k * 2 ^ 106 := Nat.mul_le_mul_right _ h
      _ = (2 ^ 53 - 1) * 2 ^ (k + 106) := by rw [Nat.pow_add, Nat.mul_assoc]
  -- the exact product is rounded once, below the limit that has the largest significand
  have hlarge : 2 ^ 52 ≤ m * m' := Nat.le_trans hlow (Nat.le_mul_of_pos_right m hm')
  obtain ⟨d, hd, hunits⟩ := exists_units hlarge (by omega) hproduct
  obtain ⟨m'', j, hpositive, hround, hlow'', hhigh'', hj, -⟩ :=
    roundWithAccuracy_le .positive hlarge (show -1074 ≤ e + e' by omega) (by decide) hunits
  have hunpack'' : (x * y).toModel.unpack = .finite .positive m'' (e + e' + j) hpositive := by
    show UnpackedFloat.unpack .binary64 (UnpackedFloat.pack .binary64
      (UnpackedFloat.mul .binary64 x.toModel.unpack y.toModel.unpack)) = _
    rw [hunpack, hunpack']
    show UnpackedFloat.unpack .binary64 (UnpackedFloat.pack .binary64
      (UnpackedFloat.roundWithAccuracy .binary64 .positive (m * m') (e + e') .exact)) = _
    rw [hround]
    exact unpack_pack_normal _ hlow'' hhigh'' (by omega) (by omega)
  show UnpackedFloat.isInf (x * y).toModel.unpack = false
  rw [hunpack'']
  rfl

/-! ## Doubles from decimals -/

/-- A short whole number is filled up with zeros to 53 bits. -/
theorem exists_unpack_toFloat {m : Nat} (hm : 0 < m) (hshort : m < 2 ^ 53) :
    ∃ (d : Nat) (h : 0 < m * 2 ^ d), d ≤ 52 ∧ 2 ^ 52 ≤ m * 2 ^ d
      ∧ m.toUInt64.toFloat.toModel.unpack = .finite .positive (m * 2 ^ d) (-d) h := by
  have hne : m ≠ 0 := Nat.ne_of_gt hm
  have htoNat : m.toUInt64.toNat = m := Nat.mod_eq_of_lt (by omega)
  have hlog : m.log2 < 53 := (Nat.log2_lt hne).mpr hshort
  obtain ⟨d, hd⟩ : ∃ d, m.log2 + d = 52 := ⟨52 - m.log2, by omega⟩
  have hfull : 2 ^ 52 ≤ m * 2 ^ d := by
    rw [← hd, Nat.pow_add]
    exact Nat.mul_le_mul_right _ (Nat.log2_self_le hne)
  have hwidth : m * 2 ^ d < 2 ^ 53 := by
    rw [show 53 = m.log2 + 1 + d by omega, Nat.pow_add]
    exact Nat.mul_lt_mul_of_pos_right Nat.lt_log2_self (Nat.two_pow_pos d)
  have hpos : 0 < m * 2 ^ d := Nat.lt_of_lt_of_le (by decide) hfull
  -- the target exponent asks for just these zeros, so nothing is rounded
  have htarget : Format.binary64.targetExponent (Float.Model.totalExponent m 0) = -(d : Int) := by
    show max ((m.log2 : Int) + 1 + 0 - 53) (-1074) = _
    omega
  have hshift : (0 - -(d : Int)).toNat = d := by omega
  have hround := roundWithAccuracy_mul_twoTo hpos hwidth
    (.inl ⟨hfull, show -1074 ≤ -(d : Int) by omega⟩) .positive 0
  rw [Nat.pow_zero, Nat.mul_one, Int.natCast_zero, Int.sub_zero] at hround
  have hnormalize : UnpackedFloat.normalize .binary64 (m.toUInt64.toNat : Int) 0 .positive
      = .finite .positive (m * 2 ^ d) (-d) hpos := by
    have hcompare : compare (m : Int) 0 = .gt := Int.compare_eq_gt.mpr (by omega)
    rw [htoNat, UnpackedFloat.normalize, hcompare]
    dsimp only
    rw [Int.toNat_natCast, UnpackedFloat.round]
    simp only [htarget, UnpackedFloat.decreaseExponent, Nat.shiftLeft_eq, hshift]
    rw [Int.zero_sub, hround]
  refine ⟨d, hpos, by omega, hfull, ?_⟩
  show UnpackedFloat.unpack .binary64 (UnpackedFloat.pack .binary64
    (UnpackedFloat.normalize .binary64 (m.toUInt64.toNat : Int) 0 .positive)) = _
  rw [hnormalize]
  exact unpack_pack_normal _ hfull hwidth (by omega) (by omega)

/-- A whole number with no more digits than a double has is kept as it is. -/
theorem atMost_toFloat {m limit : Nat} (hm : 0 < m) (hshort : m < 2 ^ 53) (h : m ≤ limit) :
    AtMost limit m.toUInt64.toFloat := by
  obtain ⟨d, hpos, hd, hfull, hunpack⟩ := exists_unpack_toFloat hm hshort
  refine ⟨m * 2 ^ d, -d, hpos, hunpack, hfull, by omega, ?_⟩
  rw [Nat.mul_assoc, ← Nat.pow_add, show d + (-(d : Int) + 53).toNat = 53 by omega]
  exact Nat.mul_le_mul_right _ h

/-- A decimal below a limit that is itself a double is not read above it. -/
theorem atMost_ofScientific {m limit e : Nat} (hlimit : Reached limit) (hm : 0 < m) (he : e ≤ 2048)
    (hlong : ¬ (m < 2 ^ 53 ∧ e ≤ 22)) (h : m * 10 ^ e ≤ limit) :
    AtMost limit (Float.ofScientific m false e) := by
  -- a decimal that is not short is formed exactly, with 53 bits to spare, and rounded once
  have hdouble : Float.ofScientific m false e = .ofModel (.pack
      (UnpackedFloat.roundWithAccuracy .binary64 .positive (m * 2 ^ 53 * 10 ^ e) (-53) .exact)) := by
    rw [Float.ofScientific, dif_neg hlong]
    show Float.ofModel (.pack (UnpackedFloat.ofScientific .binary64 m (e : Int))) = _
    rw [UnpackedFloat.ofScientific, dif_neg (Nat.ne_of_gt hm),
      if_neg (show ¬ (e : Int) > 2 ^ 11 by omega),
      if_neg (show ¬ (e : Int) < -(2 ^ 11 + (m.log2 : Int)) by omega), if_pos (Int.natCast_nonneg e)]
    show Float.ofModel (.pack (UnpackedFloat.roundWithAccuracy .binary64 .positive
      (m <<< 53 * 10 ^ (e : Int).toNat) (-53 + 0) .exact)) = _
    rw [Nat.shiftLeft_eq, Int.toNat_natCast]
    rfl
  have hfull : 2 ^ 52 ≤ m * 2 ^ 53 * 10 ^ e := by
    calc 2 ^ 52 ≤ 1 * 2 ^ 53 * 1 := by decide
      _ ≤ m * 2 ^ 53 * 10 ^ e :=
        Nat.mul_le_mul (Nat.mul_le_mul_right _ hm) (Nat.pow_pos (by decide))
  rw [hdouble]
  refine atMost_round hlimit hfull (by decide) (by decide) ?_
  rw [show (-53 + 53 : Int).toNat = 0 from rfl, Nat.pow_zero, Nat.mul_one, Nat.mul_right_comm]
  exact Nat.mul_le_mul_right _ h

end FormulaSheet.Double
