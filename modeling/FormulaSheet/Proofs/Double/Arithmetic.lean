import FormulaSheet.Decimal.Datum
import Mathlib

/-!
# FormulaSheet — the arithmetic of doubles

A double is unpacked to a NaN, an infinity, a zero, or a sign with a significand and an exponent.
Operations compute on unpacked doubles exactly, round, and pack the result. Where one operand is
`1` or `0`, or two operations differ in a sign only, the rounding has nothing to do, and the results
are known for every double:

* `datum_ofFloat` — the exact value of a double is that of the unpacked one.
* `mul_one` — a product with `1` is the other factor.
* `one_add_of_zero`, `agrees_add_of_zero` — a zero of either sign adds nothing.
* `add_signed_abs` — adding a magnitude, or subtracting it, by its sign, is adding the number; for a
  NaN too.

A double that is not zero is above zero or has the magnitude of its negation (`abs_cases`), and
negations survive the packing (`unpack_pack_finite`).
-/

namespace FormulaSheet.Double

open Float.Model (Format UnpackedFloat)
open Float.Model.UnpackedFloat (Sign ExtendedMantissa packComponents unpackExponent unpackMantissa
  unpackSign)
open Decimal (Datum)

/-- Equal as numbers, where a NaN counts as equal to a NaN. -/
def Agrees (x y : Float) : Prop := (x == y) = true ∨ (x.isNaN = true ∧ y.isNaN = true)

instance (x y : Float) : Decidable (Agrees x y) :=
  inferInstanceAs (Decidable (_ ∨ _))

/-! ## Packing and unpacking -/

theorem pack_unpack (x : Float) : Float.ofModel (.pack x.toModel.unpack) = x := by
  obtain ⟨⟨bits, hvalid⟩⟩ := x
  have hbits : UnpackedFloat.pack .binary64 (UnpackedFloat.unpack .binary64 bits.toBitVec)
      = bits.toBitVec := UnpackedFloat.pack_unpack_of_valid hvalid
  simp only [Float.Model.pack, Float.Model.unpack, hbits]

/-- A normal double has a leading bit that is not stored. -/
theorem toNat_one_append (fraction : BitVec 52) :
    (1#1 ++ fraction).toNat = 2 ^ 52 + fraction.toNat := by
  rw [BitVec.toNat_append, ← Nat.shiftLeft_add_eq_or_of_lt fraction.isLt]
  simp [Nat.shiftLeft_eq]

section Finite

variable {bits : BitVec Format.binary64.numBits} {sign : Sign} {m : Nat} {e : Int} {hm : 0 < m}

/-- The significand of a finite double has 53 bits, or fewer at the least exponent. -/
theorem bounds_of_unpack (h : UnpackedFloat.unpack .binary64 bits = .finite sign m e hm) :
    m < 2 ^ 53 ∧ (2 ^ 52 ≤ m ∧ -1074 ≤ e ∨ e = -1074) ∧ e ≤ 971 := by
  have hfraction : (unpackMantissa bits).toNat < 2 ^ 52 := (unpackMantissa bits).isLt
  have hlarge : (unpackExponent bits).toNat < 2 ^ 11 := (unpackExponent bits).isLt
  rw [UnpackedFloat.unpack] at h
  -- all exponent bits are set in NaN and infinities, none in what is below the normal doubles
  split at h
  · split at h <;> nomatch h
  · next hfinite =>
    split at h
    · next hexponent =>
      split at h
      · nomatch h
      · obtain ⟨-, rfl, rfl⟩ := UnpackedFloat.finite.inj h
        rw [hexponent]
        exact ⟨by omega, .inr rfl, by decide⟩
    · next hexponent =>
      obtain ⟨-, rfl, rfl⟩ := UnpackedFloat.finite.inj h
      have hpositive : (unpackExponent bits).toNat ≠ 0 :=
        fun hzero => hexponent (BitVec.eq_of_toNat_eq hzero)
      have hbelow : (unpackExponent bits).toNat ≠ 2047 :=
        fun hones => hfinite (BitVec.eq_of_toNat_eq hones)
      have hunbiased : ((unpackExponent bits).toNat : Int)
          - (Format.binary64.exponentBias + Format.binary64.mantissaBitsWithoutImplicit)
          = (unpackExponent bits).toNat - (1023 + 52) := rfl
      rw [toNat_one_append, hunbiased]
      omega

/-- The bits of the double with another sign. -/
theorem unpack_packComponents (h : UnpackedFloat.unpack .binary64 bits = .finite sign m e hm)
    (other : Sign) :
    unpackExponent bits ≠ -1#_
      ∧ UnpackedFloat.unpack .binary64
          (packComponents .binary64 other (unpackExponent bits) (unpackMantissa bits))
        = .finite other m e hm := by
  rw [UnpackedFloat.unpack] at h ⊢
  simp only [UnpackedFloat.unpackExponent_packComponents,
    UnpackedFloat.unpackMantissa_packComponents, UnpackedFloat.unpackSign_packComponents,
    Sign.ofBitVec_toBitVec]
  -- unpacking looks at the sign in the end only, so both doubles take the same way
  split at h
  · split at h <;> nomatch h
  · next hfinite =>
    refine ⟨hfinite, ?_⟩
    rw [if_neg hfinite]
    split at h
    · next hexponent =>
      rw [if_pos hexponent]
      split at h
      · nomatch h
      · next hfraction =>
        obtain ⟨-, rfl, rfl⟩ := UnpackedFloat.finite.inj h
        rw [dif_neg hfraction]
    · next hexponent =>
      obtain ⟨-, rfl, rfl⟩ := UnpackedFloat.finite.inj h
      rw [if_neg hexponent]

/-- A finite double that is unpacked can be packed again, also with the other sign. -/
theorem unpack_pack_finite (h : UnpackedFloat.unpack .binary64 bits = .finite sign m e hm)
    (other : Sign) :
    UnpackedFloat.unpack .binary64 (UnpackedFloat.pack .binary64 (.finite other m e hm))
      = .finite other m e hm := by
  obtain ⟨hfinite, hother⟩ := unpack_packComponents h other
  have hvalid : Format.binary64.Valid
      (packComponents .binary64 other (unpackExponent bits) (unpackMantissa bits)) :=
    ⟨fun hnan => absurd (by rwa [UnpackedFloat.unpackExponent_packComponents] at hnan) hfinite⟩
  have hpack := UnpackedFloat.pack_unpack_of_valid hvalid
  rw [hother] at hpack
  rw [hpack, hother]

end Finite

/-! ## Exact values -/

/-- The exact value of an unpacked double. -/
def datumOf : UnpackedFloat → Datum
  | .notANumber => .nan
  | .infinity sign => .infinite (sign == .negative)
  | .zero sign => .finite (sign == .negative) 0 Decimal.leastExponent
  | .finite sign m e _ => .finite (sign == .negative) m e

/-- Read off the bits, the value of a double is that of the unpacked one. -/
theorem datum_ofFloat (x : Float) : Datum.ofFloat x = datumOf x.toModel.unpack := by
  let bits : BitVec Format.binary64.numBits := x.toModel.toBits.toBitVec
  -- the three fields are cut out by division here, and by shifts there
  have hexponent : x.toBits.toNat / Decimal.twoTo Decimal.fractionBits % Decimal.twoTo 11
      = (unpackExponent bits).toNat :=
    congrArg (· % 2 ^ 11) (Nat.shiftRight_eq_div_pow bits.toNat 52).symm
  have hfraction : x.toBits.toNat % Decimal.twoTo Decimal.fractionBits
      = (unpackMantissa bits).toNat := rfl
  have hsign : (x.toBits.toNat / Decimal.twoTo 63 % 2 == 1)
      = (Sign.ofBitVec (unpackSign bits) == .negative) := by
    have hbit : x.toBits.toNat / Decimal.twoTo 63 % 2 = (unpackSign bits).toNat :=
      congrArg (· % 2 ^ 1) (Nat.shiftRight_eq_div_pow bits.toNat 63).symm
    have hall : ∀ v : BitVec 1, (v.toNat == 1) = (Sign.ofBitVec v == .negative) := by decide
    rw [hbit, hall]
  -- and compared as numbers here, and as bits there
  have hones : unpackExponent bits = -1#_ ↔ (unpackExponent bits).toNat = 2047 :=
    BitVec.toNat_inj.symm
  have hleast : unpackExponent bits = 0#_ ↔ (unpackExponent bits).toNat = 0 := BitVec.toNat_inj.symm
  have hnone : unpackMantissa bits = 0#_ ↔ (unpackMantissa bits).toNat = 0 := BitVec.toNat_inj.symm
  show _ = datumOf (UnpackedFloat.unpack .binary64 bits)
  simp only [Datum.ofFloat, Datum.ofBits, UnpackedFloat.unpack, hexponent, hfraction, hsign, hones,
    hleast, hnone]
  split
  · split <;> rfl
  · split
    · next hexp =>
      split
      · next hzero =>
        rw [hzero]
        rfl
      · rw [datumOf, hexp]
        rfl
    · refine (Datum.finite.injEq ..).mpr ⟨rfl, (toNat_one_append _).symm, ?_⟩
      show Decimal.leastExponent + ((unpackExponent bits).toNat : Int) - 1
        = (unpackExponent bits).toNat - (1023 + 52)
      rw [Decimal.leastExponent]
      omega

/-! ## Products with one

The product of `m · 2 ^ e` and `1 = 2 ^ 52 · 2 ^ (-52)` has 52 bits too many, all of them zero. They
are shifted out again, and nothing is rounded. -/

theorem shiftRight_mul_twoTo (m n : Nat) :
    ExtendedMantissa.ofMantissaAndAccuracy (m * 2 ^ n) .exact >>> n
      = ExtendedMantissa.ofMantissaAndAccuracy m .exact := by
  show Nat.repeat ExtendedMantissa.shiftRightOne n _ = _
  induction n generalizing m with
  | zero =>
    rw [Nat.pow_zero, Nat.mul_one]
    rfl
  | succ n ih =>
    -- one bit is shifted out, and it is zero
    have hdouble : m * 2 ^ (n + 1) = 2 * m * 2 ^ n := by
      rw [Nat.pow_succ]
      ac_rfl
    rw [hdouble, Nat.repeat, ih]
    simp [ExtendedMantissa.shiftRightOne, ExtendedMantissa.ofMantissaAndAccuracy]

/-- Each factor of two is one binary digit more. -/
theorem log2_mul_twoTo {m : Nat} (hm : m ≠ 0) (n : Nat) : (m * 2 ^ n).log2 = m.log2 + n := by
  induction n with
  | zero => rw [Nat.pow_zero, Nat.mul_one, Nat.add_zero]
  | succ n ih =>
    have hdouble : m * 2 ^ (n + 1) = 2 * (m * 2 ^ n) := by
      rw [Nat.pow_succ]
      ac_rfl
    rw [hdouble, Nat.log2_two_mul (Nat.mul_ne_zero hm (Nat.two_pow_pos n).ne'), ih, Nat.add_assoc]

section Rounding

variable {m : Nat} {e : Int} (hm : 0 < m) (hwidth : m < 2 ^ 53)
  (hnormal : 2 ^ 52 ≤ m ∧ -1074 ≤ e ∨ e = -1074)
include hm hwidth hnormal

/-- The exponent of a finite double is the one that its mantissa is rounded to. -/
theorem targetExponent_eq : Format.binary64.targetExponent (m.log2 + 1 + e) = e := by
  have hne : m ≠ 0 := Nat.ne_of_gt hm
  have hlog : m.log2 < 53 := (Nat.log2_lt hne).mpr hwidth
  have hleast : 52 ≤ m.log2 ∧ -1074 ≤ e ∨ e = -1074 :=
    hnormal.imp_left fun h => ⟨(Nat.le_log2 hne).mpr h.1, h.2⟩
  show max ((m.log2 : Int) + 1 + e - 53) (-1074) = e
  omega

/-- Zeros at the end of a mantissa are shifted out exactly. -/
theorem shiftToTargetExponent_mul_twoTo (n : Nat) :
    UnpackedFloat.shiftToTargetExponent .binary64 (m * 2 ^ n) (e - n) .exact
      = (.ofMantissaAndAccuracy m .exact, e) := by
  -- the bits that the factor adds are those that the exponent lacks
  have htarget : Format.binary64.targetExponent (Float.Model.totalExponent (m * 2 ^ n) (e - n))
      = e := by
    have hsum : ((m.log2 + n : Nat) : Int) + 1 + (e - n) = m.log2 + 1 + e := by omega
    rw [Float.Model.totalExponent, log2_mul_twoTo (Nat.ne_of_gt hm), hsum,
      targetExponent_eq hm hwidth hnormal]
  have hshift : (e - (e - n)).toNat = n := by omega
  rw [UnpackedFloat.shiftToTargetExponent]
  simp only [htarget, UnpackedFloat.shiftToExponent, hshift, shiftRight_mul_twoTo]
  rw [Int.sub_add_cancel]

/-- A finite double with zeros at the end of its mantissa is rounded to itself. -/
theorem roundWithAccuracy_mul_twoTo (sign : Sign) (n : Nat) :
    UnpackedFloat.roundWithAccuracy .binary64 sign (m * 2 ^ n) (e - n) .exact
      = .finite sign m e hm := by
  have hshift := shiftToTargetExponent_mul_twoTo hm hwidth hnormal
  have hagain := hshift 0
  rw [Nat.pow_zero, Nat.mul_one, Int.natCast_zero, Int.sub_zero] at hagain
  have hround : (ExtendedMantissa.ofMantissaAndAccuracy m .exact).roundedMantissa = m := rfl
  simp only [UnpackedFloat.roundWithAccuracy, hshift n, hround, hagain]
  exact dif_neg (Nat.ne_of_gt hm)

end Rounding

/-- A double times one is itself, bit by bit: the infinities and NaN as well. -/
theorem mul_one (x : Float) : x * 1.0 = x := by
  have hone : (1.0 : Float).toModel.unpack = .finite .positive (2 ^ 52) (-52) (by decide) := rfl
  have hsign : ∀ sign : Sign, sign * .positive = sign := fun sign => by cases sign <;> rfl
  -- both are packed again from their parts
  suffices hmul : UnpackedFloat.mul .binary64 x.toModel.unpack (1.0 : Float).toModel.unpack
      = x.toModel.unpack by
    show Float.ofModel (.pack (UnpackedFloat.mul .binary64 _ _)) = x
    rw [hmul, pack_unpack]
  rw [hone]
  cases hx : x.toModel.unpack with
  | notANumber => rfl
  | infinity sign => exact congrArg UnpackedFloat.infinity (hsign sign)
  | zero sign => exact congrArg UnpackedFloat.zero (hsign sign)
  | finite sign m e hm =>
    obtain ⟨hwidth, hnormal, -⟩ := bounds_of_unpack hx
    -- the mantissa of one is a power of two, so no bit is rounded
    show UnpackedFloat.roundWithAccuracy .binary64 (sign * .positive) (m * 2 ^ 52) (e - (52 : Nat))
      .exact = _
    rw [hsign, roundWithAccuracy_mul_twoTo hm hwidth hnormal]

/-! ## Sums with zero -/

theorem agrees_refl (x : Float) : Agrees x x := by
  rw [Agrees, Float.beq_self_iff, Float.isNaN_eq_decide_eq_nan]
  by_cases h : x = Float.nan
  · exact .inr ⟨decide_eq_true h, decide_eq_true h⟩
  · exact .inl h

theorem add_eq (x y : Float) :
    x + y = .ofModel (.pack (UnpackedFloat.add .binary64 x.toModel.unpack y.toModel.unpack)) := rfl

theorem sub_eq (x y : Float) :
    x - y = .ofModel (.pack (UnpackedFloat.sub .binary64 x.toModel.unpack y.toModel.unpack)) := rfl

/-- A double that equals zero is one of the two zeros. -/
theorem unpack_of_beq_zero {z : Float} (h : (z == 0.0) = true) :
    ∃ sign, z.toModel.unpack = .zero sign := by
  replace h : UnpackedFloat.beq z.toModel.unpack (.zero .positive) = true := h
  cases hz : z.toModel.unpack with
  | notANumber =>
    rw [hz] at h
    nomatch h
  | infinity sign =>
    rw [hz] at h
    cases sign <;> nomatch h
  -- nothing else equals zero
  | zero sign => exact ⟨sign, rfl⟩
  | finite sign m e hm =>
    rw [hz] at h
    cases sign <;> nomatch h

/-- One and either zero make one. -/
theorem one_add_of_zero {z : Float} (h : (z == 0.0) = true) : 1.0 + z = 1.0 := by
  obtain ⟨sign, hz⟩ := unpack_of_beq_zero h
  rw [add_eq, hz]
  exact pack_unpack 1.0

/-- A zero changes a number by the sign of a zero at most. -/
theorem agrees_add_of_zero {z : Float} (h : (z == 0.0) = true) (x : Float) : Agrees x (x + z) := by
  obtain ⟨other, hz⟩ := unpack_of_beq_zero h
  have hself := pack_unpack x
  -- two zeros make a zero, and any other number stays as it is
  have hsum : x + z = x
      ∨ ∃ sign sign', x.toModel.unpack = .zero sign ∧ (x + z).toModel.unpack = .zero sign' := by
    rw [add_eq, hz]
    cases hx : x.toModel.unpack with
    | zero sign =>
      refine .inr ⟨sign, if sign == other then sign else .positive, rfl, ?_⟩
      cases sign <;> cases other <;> rfl
    | _ =>
      rw [hx] at hself
      exact .inl hself
  rcases hsum with hsum | ⟨sign, sign', hx, hsum⟩
  · rw [hsum]
    exact agrees_refl x
  · have hequal : UnpackedFloat.beq x.toModel.unpack (x + z).toModel.unpack = true := by
      rw [hx, hsum]
      rfl
    exact .inl hequal

/-! ## Sums by sign and magnitude -/

theorem abs_cases {z : Float} (h : (z != 0.0) = true) :
    (0.0 < z ∧ z.abs = z) ∨ (¬ 0.0 < z ∧ z.abs.toModel.unpack = z.toModel.unpack.neg) := by
  replace h : (!UnpackedFloat.beq z.toModel.unpack (.zero .positive)) = true := h
  have hlt : 0.0 < z ↔ UnpackedFloat.lt (.zero .positive) z.toModel.unpack = true :=
    decide_eq_true_iff
  have habs : z.abs = .ofModel (.pack z.toModel.unpack.abs) := rfl
  have hself := pack_unpack z
  -- zeros are excluded, so the sign decides; NaN is on the side of the negative ones
  rw [hlt, habs]
  cases hz : z.toModel.unpack with
  | notANumber => exact .inr ⟨nofun, rfl⟩
  | infinity sign =>
    rw [hz] at hself
    cases sign with
    | negative => exact .inr ⟨nofun, rfl⟩
    | positive => exact .inl ⟨rfl, hself⟩
  | zero sign =>
    rw [hz] at h
    nomatch h
  | finite sign m e hm =>
    rw [hz] at hself
    cases sign with
    | negative => exact .inr ⟨nofun, unpack_pack_finite hz .positive⟩
    | positive => exact .inl ⟨rfl, hself⟩

/-- To subtract the negative is to add. -/
theorem sub_neg (x y : UnpackedFloat) :
    UnpackedFloat.sub .binary64 x y.neg = UnpackedFloat.add .binary64 x y := by
  have hneg : ∀ sign : Sign, - -sign = sign := fun sign => by cases sign <;> rfl
  have happly : ∀ (sign : Sign) (n : Int), (-sign).apply n = -sign.apply n := by
    intro sign n
    cases sign with
    | positive => rfl
    | negative => exact (Int.neg_neg n).symm
  -- the sign is the only thing that a subtraction treats in another way
  cases y with
  | notANumber => cases x <;> rfl
  | infinity sign => cases sign <;> cases x <;> rfl
  | zero sign => cases sign <;> cases x <;> rfl
  | finite sign m e hm =>
    cases x with
    | notANumber => rfl
    | infinity other => rfl
    | zero other =>
      show UnpackedFloat.finite (- -sign) m e hm = .finite sign m e hm
      rw [hneg]
    | finite other m' e' hm' =>
      simp [UnpackedFloat.sub, UnpackedFloat.add, UnpackedFloat.neg, happly]

/-- A number added by its sign and magnitude is the number added. -/
theorem add_signed_abs {z : Float} (h : (z != 0.0) = true) (x : Float) :
    (if 0.0 < z then x + z.abs else x - z.abs) = x + z := by
  rcases abs_cases h with ⟨hpositive, habs⟩ | ⟨hnegative, habs⟩
  · rw [if_pos hpositive, habs]
  · rw [if_neg hnegative, sub_eq, habs, sub_neg, ← add_eq]

end FormulaSheet.Double
