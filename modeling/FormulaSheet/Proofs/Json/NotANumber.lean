import FormulaSheet.Proofs.Json.Extents
import FormulaSheet.Proofs.Json.Scaling

/-!
# FormulaSheet — numbers that are read are numbers

A double is NaN only if it comes from one, or from two infinities or zeros that cancel each other.
Reading a number multiplies and divides by powers of ten, which are neither, so its value is a number
(`isNaN_of_readNumber`), and so is every number in JSON (`isNaN_of_value`).
-/

namespace FormulaSheet.Double

open Float.Model (Format UnpackedFloat)
open Float.Model.UnpackedFloat (Accuracy Sign)

/-! ## Operations -/

theorem isNaN_unpack_packComponents (sign : Sign) {exponent : BitVec 11} (h : exponent ≠ -1#11)
    (fraction : BitVec 52) :
    (UnpackedFloat.unpack .binary64
      (UnpackedFloat.packComponents .binary64 sign exponent fraction)).isNaN = false := by
  rw [UnpackedFloat.unpack]
  simp only [UnpackedFloat.unpackExponent_packComponents,
    UnpackedFloat.unpackMantissa_packComponents, UnpackedFloat.unpackSign_packComponents]
  rw [if_neg h]
  split
  · split <;> rfl
  · rfl

/-- A value that is not NaN is not packed as NaN. -/
theorem isNaN_pack {u : UnpackedFloat} (h : u.isNaN = false) :
    (Float.ofModel (.pack u)).isNaN = false := by
  show (UnpackedFloat.unpack .binary64 (UnpackedFloat.pack .binary64 u)).isNaN = false
  cases u with
  | notANumber => cases h
  | infinity sign => cases sign <;> decide
  | zero sign => cases sign <;> decide
  | finite sign m e hm =>
    rw [UnpackedFloat.pack]
    dsimp only
    split
    · -- the exponent is out of range, and an infinity is packed
      cases sign <;> decide
    · next hexponent =>
      split
      · refine isNaN_unpack_packComponents sign (fun heq => ?_) _
        -- a normal double: its exponent is not the one of the infinities and NaN
        have htoNat := congrArg BitVec.toNat heq
        simp only [BitVec.toNat_ofNat] at htoNat
        rw [Nat.mod_eq_of_lt (by omega)] at htoNat
        exact hexponent (by rw [htoNat]; decide)
      · exact isNaN_unpack_packComponents sign (by decide) _

/-- Rounding gives a number: a mantissa that is too large becomes infinite. -/
theorem isNaN_roundWithAccuracy (sign : Sign) (m : Nat) (e : Int) (accuracy : Accuracy) :
    (UnpackedFloat.roundWithAccuracy .binary64 sign m e accuracy).isNaN = false := by
  rw [UnpackedFloat.roundWithAccuracy]
  dsimp only
  split <;> rfl

/-- The double is finite, and it is not zero. -/
def Scales (p : Float) : Prop := ∃ sign m e hm, p.toModel.unpack = .finite sign m e hm

/-- An operation that makes a number of an infinity, of a zero and of a finite number, each with a finite
number that is not zero, makes a number of every number with a double that scales. -/
theorem isNaN_operation {op : UnpackedFloat → UnpackedFloat → UnpackedFloat}
    (hinfinity : ∀ s t m e hm, (op (.infinity s) (.finite t m e hm)).isNaN = false)
    (hzero : ∀ s t m e hm, (op (.zero s) (.finite t m e hm)).isNaN = false)
    (hfinite : ∀ s m e hm t n f hn, (op (.finite s m e hm) (.finite t n f hn)).isNaN = false)
    {x p : Float} (hx : x.isNaN = false) (hp : Scales p) :
    (Float.ofModel (.pack (op x.toModel.unpack p.toModel.unpack))).isNaN = false := by
  obtain ⟨sign, m, e, hm, hp⟩ := hp
  refine isNaN_pack ?_
  -- only the left operand may be anything but finite
  replace hx : x.toModel.unpack.isNaN = false := hx
  rw [hp]
  cases hunpack : x.toModel.unpack with
  | notANumber =>
    rw [hunpack] at hx
    cases hx
  | infinity sign' => exact hinfinity ..
  | zero sign' => exact hzero ..
  | finite sign' m' e' hm' => exact hfinite ..

/-- A number times a power of ten is a number. -/
theorem isNaN_mul {x p : Float} (hx : x.isNaN = false) (hp : Scales p) : (x * p).isNaN = false :=
  isNaN_operation (fun _ _ _ _ _ => rfl) (fun _ _ _ _ _ => rfl)
    (fun _ _ _ _ _ _ _ _ => isNaN_roundWithAccuracy _ _ _ _) hx hp

theorem isNaN_div {x p : Float} (hx : x.isNaN = false) (hp : Scales p) : (x / p).isNaN = false :=
  isNaN_operation (fun _ _ _ _ _ => rfl) (fun _ _ _ _ _ => rfl)
    (fun _ _ _ _ _ _ _ _ => isNaN_roundWithAccuracy _ _ _ _) hx hp

/-- The sign does not matter for being a number. -/
theorem isNaN_neg {x : Float} (hx : x.isNaN = false) : (-x).isNaN = false := by
  refine isNaN_pack (?_ : (UnpackedFloat.neg x.toModel.unpack).isNaN = false)
  replace hx : x.toModel.unpack.isNaN = false := hx
  cases hunpack : x.toModel.unpack with
  | notANumber =>
    rw [hunpack] at hx
    cases hx
  | infinity | zero | finite => rfl

theorem isNaN_round (sign : Sign) (m : Nat) (e : Int) :
    (UnpackedFloat.round .binary64 sign m e).isNaN = false :=
  isNaN_roundWithAccuracy _ _ _ _

theorem isNaN_toFloat (n : UInt64) : n.toFloat.isNaN = false := by
  refine isNaN_pack
    (?_ : (UnpackedFloat.normalize .binary64 (n.toNat : Int) 0 .positive).isNaN = false)
  rw [UnpackedFloat.normalize]
  split
  · exact isNaN_round _ _ _
  · rfl
  · exact isNaN_round _ _ _

/-! ## Decimals -/

theorem scales_of_isFinite {p : Float} (h : p.isFinite = true ∧ (p == 0.0) = false) : Scales p := by
  obtain ⟨hfinite, hzero⟩ := h
  replace hfinite : p.toModel.unpack.isFinite = true := hfinite
  replace hzero : UnpackedFloat.beq p.toModel.unpack (0.0 : Float).toModel.unpack = false := hzero
  cases hunpack : p.toModel.unpack with
  | notANumber | infinity =>
    rw [hunpack] at hfinite
    cases hfinite
  | zero sign =>
    -- either zero equals zero
    obtain ⟨zeroSign, hzeroSign⟩ := unpack_of_beq_zero (z := 0.0) (by decide)
    rw [hunpack, hzeroSign] at hzero
    cases hzero
  | finite sign m e hm => exact ⟨sign, m, e, hm, hunpack⟩

theorem scales_exactPower : ∀ p ∈ Float.exactlyRepresentablePowersOfTen, Scales p := by
  have htable : ∀ p ∈ Float.exactlyRepresentablePowersOfTen,
      p.isFinite = true ∧ (p == 0.0) = false := by decide
  exact fun p hp => scales_of_isFinite (htable p hp)

/-- A decimal is rounded to a number, in each range of its exponent. -/
theorem isNaN_unpacked_ofScientific (m : Nat) (e : Int) :
    (UnpackedFloat.ofScientific .binary64 m e).isNaN = false := by
  rw [UnpackedFloat.ofScientific]
  split
  · rfl
  split
  · rfl
  split
  · rfl
  split
  · exact isNaN_roundWithAccuracy _ _ _ _
  · exact isNaN_roundWithAccuracy _ _ _ _

/-- A decimal is a number, by way of an exact power of ten or of the general rounding. -/
theorem isNaN_ofScientific (m : Nat) (down : Bool) (e : Nat) :
    (Float.ofScientific m down e).isNaN = false := by
  rw [Float.ofScientific]
  split
  · dsimp only
    split
    · exact isNaN_div (isNaN_toFloat _) (scales_exactPower _ (Array.getElem_mem _))
    · exact isNaN_mul (isNaN_toFloat _) (scales_exactPower _ (Array.getElem_mem _))
  · exact isNaN_pack (isNaN_unpacked_ofScientific _ _)

/-- The double nearest to a decimal is a number. -/
theorem isNaN_nearest (m : Nat) (e : Int) : (Decimal.nearest m e).isNaN = false := by
  rw [Decimal.nearest]
  split
  · decide
  split
  · decide
  split
  · decide
  · exact isNaN_ofScientific _ _ _

end FormulaSheet.Double

namespace FormulaSheet.Json

open Double (Scales isNaN_div isNaN_mul isNaN_nearest isNaN_neg)

/-! ## Numbers in JSON -/

/-- The powers of ten by which a number in JSON is scaled are finite and not zero. -/
theorem scales_powerOfTen {k : Nat} (hk : k ≤ largestPower) : Scales (powerOfTen k) := by
  have hatMost : ∃ limit, Double.AtMost limit (powerOfTen k) := by
    by_cases hsmall : k ≤ 288
    · exact ⟨_, atMost_powerOfTen hsmall⟩
    · -- the powers above those are in the table of ceilings
      have hlarge : k ≤ 308 := hk
      obtain ⟨-, hpower⟩ := ceiling_table (k - 289) (by omega)
      rw [show 289 + (k - 289) = k by omega] at hpower
      exact ⟨_, hpower⟩
  obtain ⟨limit, m, e, hm, hunpack, -⟩ := hatMost
  exact ⟨.positive, m, e, hm, hunpack⟩

/-- A number stays one however often it is scaled. Induction on the exponent as it is used up. -/
theorem isNaN_of_scale {x y : Float} {e : Int} (h : scale x e = .ok y) (hx : x.isNaN = false) :
    y.isNaN = false := by
  -- each round of a large exponent divides once more
  fun_induction scale x e with
  | case1 x e hsmall hup y' hinf => cases h
  | case2 x e hsmall hup y' hinf =>
    obtain rfl := Except.ok.inj h
    exact isNaN_mul hx (scales_powerOfTen hsmall)
  | case3 x e hsmall hdown =>
    obtain rfl := Except.ok.inj h
    exact isNaN_div hx (scales_powerOfTen hsmall)
  | case4 x e hlarge hzero =>
    obtain rfl := Except.ok.inj h
    exact hx
  | case5 => cases h
  | case6 x e hlarge hzero hdown ih =>
    exact ih h (isNaN_div hx (scales_powerOfTen (Nat.le_refl _)))

theorem isNaN_withSign {x : Float} (negative : Bool) (h : x.isNaN = false) :
    (withSign negative x).isNaN = false := by
  cases negative with
  | true => exact isNaN_neg h
  | false => exact h

theorem isNaN_of_scaled {negative : Bool} {significand : Nat} {e : Int} {number : Number}
    (h : scaled negative significand e = .ok number) : number.toDouble.isNaN = false := by
  obtain ⟨x, hx, rfl⟩ := exists_of_map_eq_ok h
  exact isNaN_withSign negative (isNaN_of_scale hx (isNaN_nearest _ _))

theorem isNaN_doubleOfInt (n : Int) : (doubleOfInt n).isNaN = false := by
  cases n with
  | ofNat n => exact isNaN_nearest _ _
  | negSucc n => exact isNaN_neg (isNaN_nearest _ _)

/-- A significand without an exponent is a number, as an integer or as a double. -/
theorem isNaN_ofSignificand (negative : Bool) (significand : Nat) :
    (ofSignificand negative significand).toDouble.isNaN = false := by
  rw [ofSignificand]
  split
  · split
    · exact isNaN_neg (isNaN_nearest _ _)
    · exact isNaN_doubleOfInt _
  · exact isNaN_doubleOfInt _

/-- The value of a numeral is a number, whichever of its parts are written. -/
theorem isNaN_of_numeral {n : Numeral} {number : Number} (h : n.value = .ok number) :
    number.toDouble.isNaN = false := by
  rw [Numeral.value] at h
  -- a significand alone, one with a fraction, or one with an exponent
  dsimp only at h
  split at h
  · split at h
    · obtain rfl := Except.ok.inj h
      exact isNaN_ofSignificand _ _
    · exact isNaN_of_scaled h
  · exact isNaN_of_scaled h
  · split at h
    · exact isNaN_of_scaled h
    split at h
    · cases h
    · obtain rfl := Except.ok.inj h
      -- an exponent that is out of range and does not overflow leaves a zero
      exact isNaN_withSign _ (by decide)

/-- **No number that is read is NaN.** -/
theorem isNaN_of_readNumber {cs rest : List Char} {number : Number}
    (h : readNumber cs = .ok (number, rest)) : number.toDouble.isNaN = false := by
  obtain ⟨⟨n, after⟩, -, hnumber⟩ := exists_of_bind_eq_ok h
  obtain ⟨value, hvalue, heq⟩ := exists_of_bind_eq_ok hnumber
  obtain ⟨rfl, -⟩ := Prod.mk.inj (Except.ok.inj heq)
  exact isNaN_of_numeral hvalue

open Reader in
/-- A scalar that is a number is not NaN: no word stands for NaN. -/
theorem isNaN_of_scalar {cs rest : List Char} {number : Number}
    (h : scalar cs = .ok (.number number, rest)) : number.toDouble.isNaN = false := by
  obtain ⟨⟨⟩⟩ | ⟨b, ⟨⟩⟩ | ⟨s, ⟨⟩⟩ | ⟨n, more, ⟨⟩, hn⟩ := scalar_eq_ok h
  exact isNaN_of_readNumber hn

open Reader in
theorem isNaN_of_value {room : Nat} {cs rest : List Char} {number : Number}
    (h : Reader.value room cs = .ok (.number number, rest)) : number.toDouble.isNaN = false := by
  cases room with
  | zero => exact isNaN_of_scalar h
  | succ room =>
    obtain ⟨blanks, c, more, rfl, -, -, h⟩ := exists_of_peek? rfl h
    dsimp only at h
    split at h
    · obtain ⟨_, _, -, ⟨⟩⟩ := exists_of_bind h
    split at h
    · obtain ⟨_, _, -, ⟨⟩⟩ := exists_of_bind h
    · exact isNaN_of_scalar h

end FormulaSheet.Json
