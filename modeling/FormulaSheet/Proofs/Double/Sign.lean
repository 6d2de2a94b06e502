import FormulaSheet.Decimal.Reader
import FormulaSheet.Decimal.Sign
import FormulaSheet.Proofs.Double.Arithmetic

/-!
# FormulaSheet — doubles without a minus sign

Digits have no sign, and neither has the double next to the number that they denote: rounding keeps the
sign of what it rounds, and products and quotients of doubles without a minus have none.

* `IsPlus.unpackSign_pack`, `isPlus_unpack` — the sign of an unpacked double is the first bit of the
  packed one.
* `IsPlus.mul`, `IsPlus.div` — what the operations do to it.
* `noMinus_ofScientific`, `noMinus_ofDigits` — the doubles that are read from digits.
* `NoMinus.isNegative_eq`, `NoMinus.unpack_eq` — their texts have no minus sign, and neither has what
  they unpack to.
-/

namespace FormulaSheet.Double

open Float.Model (Format UnpackedFloat)
open Float.Model.UnpackedFloat (Accuracy pack roundWithAccuracy unpack unpackSign)

/-! ## Unpacked doubles -/

/-- The double has a plus as its sign, if it is one that has a sign. -/
inductive IsPlus : UnpackedFloat → Prop where
  | notANumber : IsPlus .notANumber
  | infinity : IsPlus (.infinity .positive)
  | zero : IsPlus (.zero .positive)
  | finite (m : Nat) (e : Int) (h : 0 < m) : IsPlus (.finite .positive m e h)

variable {u v : UnpackedFloat}

/-- What has a plus before it is rounded has one after it. -/
theorem isPlus_roundWithAccuracy (m : Nat) (e : Int) (accuracy : Accuracy) :
    IsPlus (roundWithAccuracy .binary64 .positive m e accuracy) := by
  unfold roundWithAccuracy
  dsimp only
  split
  · exact .zero
  · exact .finite _ _ _

theorem IsPlus.mul (hu : IsPlus u) (hv : IsPlus v) : IsPlus (.mul .binary64 u v) := by
  cases hu <;> cases hv
  case finite.finite => exact isPlus_roundWithAccuracy _ _ _
  all_goals constructor

theorem IsPlus.div (hu : IsPlus u) (hv : IsPlus v) : IsPlus (.div .binary64 u v) := by
  cases hu <;> cases hv
  case finite.finite => exact isPlus_roundWithAccuracy _ _ _
  all_goals constructor

/-- A decimal without a minus is rounded to a number without one. -/
theorem isPlus_ofScientific (m : Nat) (e : Int) : IsPlus (.ofScientific .binary64 m e) := by
  unfold UnpackedFloat.ofScientific
  split
  · exact .zero
  · split
    · exact .infinity
    · split
      · exact .zero
      · split
        · exact IsPlus.mul (.finite _ _ _) (.finite _ _ _)
        · exact IsPlus.div (.finite _ _ _) (.finite _ _ _)

theorem isPlus_normalize (m : Nat) : IsPlus (.normalize .binary64 m 0 .positive) := by
  unfold UnpackedFloat.normalize
  split
  · next hlt => exact absurd (Int.compare_eq_lt.mp hlt) (by omega)
  · exact .zero
  · exact isPlus_roundWithAccuracy _ _ _

/-! ## Packed doubles -/

theorem IsPlus.unpackSign_pack (h : IsPlus u) : unpackSign (pack .binary64 u) = 0#1 := by
  cases h with
  | notANumber => rfl
  | infinity => rfl
  | zero => rfl
  | finite m e hm =>
    unfold pack
    dsimp only
    -- an overflow to infinity, a normal double or a subnormal one: the sign is packed as it is
    split
    · rfl
    · split
      · exact UnpackedFloat.unpackSign_packComponents _ _ _
      · exact UnpackedFloat.unpackSign_packComponents _ _ _

/-- The bit of the sign is what unpacking reads the sign from. -/
theorem isPlus_unpack {bits : BitVec Format.binary64.numBits} (h : unpackSign bits = 0#1) :
    IsPlus (unpack .binary64 bits) := by
  have hsign : UnpackedFloat.Sign.ofBitVec (unpackSign bits) = .positive := by rw [h]; rfl
  unfold unpack
  dsimp only
  rw [hsign]
  -- the exponent and the fraction decide what it is, and the sign is the same for all
  split
  · split
    · exact .infinity
    · exact .notANumber
  · split
    · split
      · exact .zero
      · exact .finite _ _ _
    · exact .finite _ _ _

/-- The first bit of the double, which is its sign, is that of a plus. -/
def NoMinus (x : Float) : Prop := @unpackSign .binary64 x.toModel.toBits.toBitVec = 0#1

instance (x : Float) : Decidable (NoMinus x) := inferInstanceAs (Decidable (_ = _))

section NoMinus

variable {x y : Float}

theorem noMinus_pack (h : IsPlus u) : NoMinus (.ofModel (.pack u)) := h.unpackSign_pack

theorem NoMinus.isPlus (h : NoMinus x) : IsPlus x.toModel.unpack := isPlus_unpack h

theorem NoMinus.mul (hx : NoMinus x) (hy : NoMinus y) : NoMinus (x * y) :=
  noMinus_pack (hx.isPlus.mul hy.isPlus)

theorem NoMinus.div (hx : NoMinus x) (hy : NoMinus y) : NoMinus (x / y) :=
  noMinus_pack (hx.isPlus.div hy.isPlus)

theorem noMinus_toFloat (n : UInt64) : NoMinus n.toFloat :=
  noMinus_pack (isPlus_normalize n.toNat)

theorem noMinus_powersOfTen (i : Fin 23) : NoMinus Float.exactlyRepresentablePowersOfTen[i] := by
  have hall : ∀ i : Fin 23, NoMinus Float.exactlyRepresentablePowersOfTen[i] := by decide +kernel
  exact hall i

/-- A decimal is read without a minus, by way of an exact power of ten or of the general
rounding. -/
theorem noMinus_ofScientific (m : Nat) (negative : Bool) (e : Nat) :
    NoMinus (Float.ofScientific m negative e) := by
  unfold Float.ofScientific
  split
  · next h =>
    have hpower := noMinus_powersOfTen ⟨e, Nat.lt_succ_of_le h.2⟩
    dsimp only
    split
    · exact (noMinus_toFloat _).div hpower
    · exact (noMinus_toFloat _).mul hpower
  · exact noMinus_pack (isPlus_ofScientific _ _)

/-! ## Texts -/

open Decimal (Datum nearest ofDigits)

/-- The double nearest to a decimal has no minus. -/
theorem noMinus_nearest (m : Nat) (e : Int) : NoMinus (nearest m e) := by
  unfold nearest
  dsimp only
  split
  · decide
  · split
    · decide
    · split
      · decide
      · exact noMinus_ofScientific _ _ _

/-- The double of a number in a formula has no minus, since the sign is no part of its digits. -/
theorem noMinus_ofDigits (whole fraction : List Char) : NoMinus (ofDigits whole fraction) :=
  noMinus_nearest _ _

/-- No minus sign is shown for such a double. -/
theorem NoMinus.isNegative_eq (h : NoMinus x) : (Datum.ofFloat x).isNegative = false := by
  have hplus := h.isPlus
  rw [datum_ofFloat]
  generalize x.toModel.unpack = u at hplus ⊢
  cases hplus <;> rfl

/-- Without a minus sign, a double unpacks to its value. -/
theorem NoMinus.unpack_eq {m : Nat} {e : Int} (h : NoMinus x) (hm : 0 < m)
    (hdatum : Datum.ofFloat x = .finite false m e) :
    x.toModel.unpack = .finite .positive m e hm := by
  have hplus := h.isPlus
  rw [datum_ofFloat] at hdatum
  -- a mantissa that is not zero rules out all but the finite ones
  generalize x.toModel.unpack = u at hplus hdatum
  cases hplus with
  | notANumber => nomatch hdatum
  | infinity => nomatch hdatum
  | zero =>
    obtain ⟨-, rfl, -⟩ := Datum.finite.inj hdatum
    exact absurd hm (Nat.lt_irrefl 0)
  | finite m' e' hm' =>
    obtain ⟨-, rfl, rfl⟩ := Datum.finite.inj hdatum
    rfl

/-- Of the two zeros, the one without a minus. -/
theorem NoMinus.eq_zero {e : Int} (h : NoMinus x) (hdatum : Datum.ofFloat x = .finite false 0 e) :
    x = 0.0 := by
  have hplus := h.isPlus
  have hself := pack_unpack x
  rw [datum_ofFloat] at hdatum
  -- a mantissa of zero rules out all but the zero
  generalize x.toModel.unpack = u at hplus hdatum hself
  cases hplus with
  | notANumber => nomatch hdatum
  | infinity => nomatch hdatum
  | zero => exact hself.symm.trans (pack_unpack 0.0)
  | finite m' e' hm' =>
    obtain ⟨-, rfl, -⟩ := Datum.finite.inj hdatum
    exact absurd hm' (Nat.lt_irrefl 0)

end NoMinus

end FormulaSheet.Double
