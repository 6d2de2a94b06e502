import FormulaSheet.Json.Printer
import FormulaSheet.Proofs.Decimal.Shortest
import FormulaSheet.Proofs.Json.Numerals
import FormulaSheet.Proofs.Json.Scaling

/-!
# FormulaSheet — the texts of doubles are numbers

Finite doubles are written with or without an exponent, and either text is that of a numeral in
range. So it can be read (`exists_reread`). What is read need not be the double that was written, as
the reader does not take the nearest one.

* `readable_point`, `readable_exponent` — the two kinds of numerals in such a text.
* `readable_positional`, `readable_scientific` — the two layouts of a decimal.
* `readable_finite` — the decimals that doubles have.
-/

namespace FormulaSheet.Json

open Decimal (AllDigits Datum allDigits_digits allDigits_zero digits head?_digits isDigit
  isDigit_of_mem_zeros valueFrom_lt valueOf valueOf_zeros_append zeros)

/-! ## Layouts -/

/-- The text is that of a number, with a minus or without one. -/
def Readable (negative : Bool) (cs : List Char) : Prop :=
  ∃ y, readNumber ((if negative then ['-'] else []) ++ cs) = .ok (y, [])

/-- A text is readable if it is that of a numeral that has a value. -/
theorem readable_text (n : Numeral) {cs : List Char} (h : n.WellFormed)
    (hvalue : ∃ y, n.value = .ok y)
    (htext : n.text = (if n.negative then ['-'] else []) ++ cs) : Readable n.negative cs := by
  obtain ⟨y, hy⟩ := hvalue
  refine ⟨y, ?_⟩
  rw [← htext, readNumber, bind_eq_of_ok (Numeral.read_text h)]
  dsimp only
  rw [bind_eq_of_ok hy]
  rfl

/-- No zero leads if the first digit is none, or if there is no other. -/
theorem leading_of_head? {whole : List Char} (h : whole.head? ≠ some '0') :
    ∀ d more, whole ≠ '0' :: d :: more := by
  rintro d more rfl
  exact h rfl

theorem leading_zero (d : Char) (more : List Char) : ['0'] ≠ '0' :: d :: more :=
  fun h => List.cons_ne_nil d more (List.cons.inj h).2.symm

/-- A numeral with a point and no exponent is readable, if there is room for its digits. -/
theorem readable_point {negative : Bool} {whole fraction : List Char} (hwhole : AllDigits whole)
    (hleading : ∀ d more, whole ≠ '0' :: d :: more) (hfraction : AllDigits fraction)
    (h : valueOf (whole ++ fraction) < significandLimit) :
    Readable negative (whole ++ '.' :: fraction) := by
  refine readable_text ⟨negative, whole, some fraction, none⟩
    ⟨hwhole, hleading, ?_, nofun⟩ (exists_value_positional hfraction.1 h) ?_
  · rintro ds ⟨⟩
    exact hfraction
  · show _ ++ (whole ++ ('.' :: fraction ++ [])) = _
    rw [List.append_nil]

/-- So is one with an exponent and a single digit before the point, if it is in range. -/
theorem readable_exponent {negative : Bool} {d : Char} (fraction : Option (List Char)) {e : Int}
    (hd : isDigit d = true) (hfraction : ∀ ds ∈ fraction, AllDigits ds)
    (h : ∃ y, Numeral.value ⟨negative, [d], fraction, some (decide (e < 0), digits e.natAbs)⟩
      = .ok y) :
    Readable negative (d :: (fractionText fraction
      ++ 'e' :: (if e < 0 then '-' else '+') :: digits e.natAbs)) := by
  -- the exponent is laid out with a plus where it is not negative
  have hexponent : 'e' :: (if e < 0 then '-' else '+') :: digits e.natAbs
      = exponentText (some (decide (e < 0), digits e.natAbs)) := by
    simp [exponentText]
  rw [hexponent]
  refine readable_text ⟨negative, [d], fraction, some (decide (e < 0), digits e.natAbs)⟩
    ⟨⟨nofun, List.forall_mem_singleton.mpr hd⟩, nofun, hfraction, ?_⟩ h rfl
  rintro x hx
  rw [← Option.some.inj hx]
  exact allDigits_digits _

/-- There is room for seventeen digits. -/
theorem valueOf_lt_significandLimit {ds : List Char} (h : ∀ c ∈ ds, isDigit c = true)
    (hlength : ds.length ≤ 17) : valueOf ds < significandLimit := by
  calc valueOf ds < (0 + 1) * 10 ^ ds.length := valueFrom_lt h 0
    _ ≤ (0 + 1) * 10 ^ 17 := Nat.mul_le_mul_left _ (Nat.pow_le_pow_right (by decide) hlength)
    _ < significandLimit := by decide

section Layouts

variable {c : Nat} (negative : Bool) (hc : 0 < c) (hshort : c ≤ 15 * 10 ^ 16)
include hc hshort

/-- A shortest form has eighteen digits at most. -/
theorem length_digits_le : (digits c).length ≤ 18 := by
  have hle := (Decimal.length_digits_bounds c).2 hc
  have hlt : c < 10 ^ 18 := Nat.lt_of_le_of_lt hshort (by decide)
  have := (Nat.pow_lt_pow_iff_right (show 1 < 10 by decide)).mp (Nat.lt_of_le_of_lt hle hlt)
  omega

/-- Digits with a point in their midst are readable. -/
theorem readable_positional {position : Int} (hposition : position ≤ 16) :
    Readable negative (Decimal.positional true (digits c) position) := by
  have hall := allDigits_digits c
  have hlimit : valueOf (digits c) < significandLimit := by
    rw [Decimal.valueOf_digits]
    exact Nat.lt_of_le_of_lt hshort (by decide)
  rw [Decimal.positional]
  split
  · -- the digits stand behind the point and some zeros
    refine readable_point allDigits_zero leading_zero
      ⟨List.append_ne_nil_of_right_ne_nil _ hall.1,
        List.forall_mem_append.mpr ⟨isDigit_of_mem_zeros, hall.2⟩⟩ ?_
    show valueOf (zeros (-position).toNat ++ digits c) < significandLimit
    rwa [valueOf_zeros_append]
  · next hpositive =>
    split
    · next hwhole =>
      -- the digits are filled up with zeros before the point
      have hzeros :=
        hall.append_left (isDigit_of_mem_zeros (n := position.toNat - (digits c).length))
      rw [if_pos rfl]
      refine readable_point hzeros (leading_of_head? ?_) allDigits_zero ?_
      · rw [List.head?_append_of_ne_nil _ hall.1]
        exact head?_digits hc
      · refine valueOf_lt_significandLimit (hzeros.append_left allDigits_zero.2).2 ?_
        simp only [List.length_append, zeros, List.length_replicate, List.length_singleton]
        omega
    · next hinside =>
      -- the point stands among the digits
      have htake : (digits c).take position.toNat ≠ [] := by
        rw [Ne, List.take_eq_nil_iff]
        exact fun hor => hor.elim (fun h => by omega) hall.1
      have hdrop : (digits c).drop position.toNat ≠ [] := by
        rw [Ne, List.drop_eq_nil_iff]
        exact hinside
      refine readable_point ⟨htake, fun d hd => hall.2 d (List.mem_of_mem_take hd)⟩
        (leading_of_head? ?_) ⟨hdrop, fun d hd => hall.2 d (List.mem_of_mem_drop hd)⟩ ?_
      · rw [List.head?_take, if_neg (by omega)]
        exact head?_digits hc
      · rwa [List.take_append_drop]

/-- The digits with the point behind the first one are in range with the exponent that this takes. -/
theorem exists_value_digits {d : Char} {fraction : Option (List Char)}
    (hdigits : digits c = d :: fraction.getD []) {k : Int}
    (hlarge : ∀ n : Nat, k = n → c * 10 ^ n ≤ (2 ^ 54 - 3) * 2 ^ 970) {e : Int}
    (he : e = ((digits c).length : Int) + k - 1) :
    ∃ y, Numeral.value ⟨negative, [d], fraction, some (decide (e < 0), digits e.natAbs)⟩
      = .ok y := by
  have hlength := length_digits_le hc hshort
  -- a number of at least one, times a power beyond this, would be out of range
  have hpower : k ≤ 308 := by
    refine Int.not_lt.mp fun hlt => ?_
    obtain ⟨n, rfl⟩ : ∃ n : Nat, k = n := ⟨k.toNat, by omega⟩
    have := exponent_le hc (hlarge n rfl)
    omega
  have hall : valueOf ([d] ++ fraction.getD []) = c := by
    show valueOf (d :: fraction.getD []) = c
    rw [← hdigits, Decimal.valueOf_digits]
  rw [hdigits, List.length_cons] at hlength he
  refine exists_value_scientific (k := k.toNat) (by rwa [hall]) (by rwa [hall]) ?_ ?_
  · intro hdown
    have hnegative : e < 0 := of_decide_eq_true hdown
    rw [Decimal.valueOf_digits]
    omega
  · intro hup
    have hpositive : ¬ e < 0 := of_decide_eq_false hup
    rw [Decimal.valueOf_digits, hall]
    refine ⟨Nat.lt_of_lt_of_le (show e.natAbs < 400 by omega) (by decide), ?_⟩
    rcases Int.lt_or_le k 0 with hneg | hnonneg
    · exact .inl (by omega)
    · exact .inr ⟨by omega, hlarge k.toNat (by omega)⟩

/-- Digits with an exponent are readable, up to the largest double. -/
theorem readable_scientific {k : Int}
    (hlarge : ∀ n : Nat, k = n → c * 10 ^ n ≤ (2 ^ 54 - 3) * 2 ^ 970) :
    Readable negative (Decimal.scientific (digits c) (((digits c).length : Int) + k - 1)) := by
  obtain ⟨-, hall⟩ := allDigits_digits c
  obtain ⟨d, rest, hdigits⟩ := List.exists_cons_of_ne_nil (Decimal.digits_ne_nil c)
  -- the digits behind the first are the fraction, if there are any
  have hvalue := fun (fraction : Option (List Char)) (hrest : rest = fraction.getD []) =>
    exists_value_digits negative hc hshort (hdigits.trans (congrArg (d :: ·) hrest)) hlarge rfl
  generalize ((digits c).length : Int) + k - 1 = e at hvalue ⊢
  rw [hdigits, List.forall_mem_cons] at hall
  rw [hdigits]
  cases rest with
  | nil => exact readable_exponent none hall.1 nofun (hvalue none rfl)
  | cons r more =>
    refine readable_exponent (some (r :: more)) hall.1 ?_ (hvalue _ rfl)
    rintro _ ⟨⟩
    exact ⟨nofun, hall.2⟩

end Layouts

/-! ## Doubles -/

/-- The double that is read from the text of one, if all of the text is a number. -/
def reread? (x : Float) : Option Float :=
  match readNumber (Number.double x).text with
  | .ok (n, []) => some n.toDouble
  | _ => none

/-- A double is written with its sign in front of its shortest digits. -/
theorem text_double {x : Float} {negative : Bool} {m : Nat} {q : Int}
    (h : Datum.ofFloat x = .finite negative m q) :
    (Number.double x).text
      = (if negative then ['-'] else []) ++ Decimal.exchangeLayout.finite m q := by
  rw [Number.text, Decimal.Layout.write, Decimal.withMinus, String.toList_ofList, h]
  rfl

/-- The largest double is readable. -/
theorem readable_largest (negative : Bool) :
    Readable negative (Decimal.exchangeLayout.finite (2 ^ 53 - 1) 971) := by
  -- the two texts of the largest doubles are read in full
  have hall : ∀ negative : Bool, (readNumber ((if negative then ['-'] else [])
      ++ Decimal.exchangeLayout.finite (2 ^ 53 - 1) 971)).toOption.map Prod.snd = some [] := by
    decide +kernel
  have hread := hall negative
  rw [Readable]
  cases hresult : readNumber ((if negative then ['-'] else [])
      ++ Decimal.exchangeLayout.finite (2 ^ 53 - 1) 971) with
  | error e =>
    rw [hresult] at hread
    cases hread
  | ok result =>
    obtain ⟨y, rest⟩ := result
    rw [hresult] at hread
    cases hread
    exact ⟨y, rfl⟩

/-- Every finite double is readable, since it is no larger than the largest. -/
theorem readable_finite (negative : Bool) {m : Nat} {q : Int} (hm : m < 2 ^ 53) (hq : q ≤ 971) :
    Readable negative (Decimal.exchangeLayout.finite m q) := by
  rcases Nat.eq_zero_or_pos m with rfl | hpositive
  · have hzero : Decimal.exchangeLayout.finite 0 q = ['0'] ++ '.' :: ['0'] := by
      rw [Decimal.Layout.finite, Decimal.shortest, if_pos rfl]
      cbv
    rw [hzero]
    exact readable_point allDigits_zero leading_zero allDigits_zero (by decide)
  -- the largest double is the only one whose shortest digits may lie above the limit
  by_cases hlargest : m = 2 ^ 53 - 1 ∧ q = 971
  · obtain ⟨rfl, rfl⟩ := hlargest
    exact readable_largest negative
  · have hc := (Decimal.shortest_near .toEven hpositive q).1
    have hshort := Decimal.coefficient_shortest_le .toEven hpositive q
    have hlarge : ∀ k : Nat, (Decimal.shortest .toEven m q).exponent = k →
        (Decimal.shortest .toEven m q).coefficient * 10 ^ k ≤ (2 ^ 54 - 3) * 2 ^ 970 :=
      fun k hk => Decimal.shortest_mul_le .toEven hpositive q hm hq hlargest hk
    show Readable negative (Decimal.exchangeLayout.magnitude (Decimal.shortest .toEven m q))
    generalize Decimal.shortest .toEven m q = s at hc hshort hlarge ⊢
    have hplain : ∀ e, Decimal.exchangeLayout.isPlain e = true ↔ -5 ≤ e ∧ e ≤ 15 := by
      intro e
      simp [Decimal.exchangeLayout]
    rw [Decimal.Layout.magnitude]
    simp only [hplain]
    split
    · exact readable_positional negative hc hshort (by omega)
    · exact readable_scientific negative hc hshort hlarge

/-- **The text of every finite double can be read.** -/
theorem exists_reread {x : Float} (h : x.isFinite = true) : ∃ y, reread? x = some y := by
  obtain ⟨negative, m, q, hdatum, hm, hq⟩ := Decimal.exists_datum h
  obtain ⟨y, hread⟩ := readable_finite negative hm hq
  exact ⟨y.toDouble, by rw [reread?, text_double hdatum, hread]⟩

end FormulaSheet.Json
