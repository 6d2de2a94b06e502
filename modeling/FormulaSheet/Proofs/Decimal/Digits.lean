import FormulaSheet.Decimal.Digits
import Mathlib.Algebra.Ring.Nat

/-!
# FormulaSheet — facts on digit strings

How many digits a number has, and how large the number of a digit string is.

* `AllDigits` — digit strings, and the common ones.
* `head?_digits` — no zero leads.
* `length_digits_bounds` — the number of digits is the order of magnitude.
* `le_valueFrom`, `valueFrom_lt` — the value of a string, by what it continues and by its length.
-/

namespace FormulaSheet.Decimal

/-- At least one digit, and nothing else. -/
def AllDigits (ds : List Char) : Prop := ds ≠ [] ∧ ∀ c ∈ ds, isDigit c = true

theorem allDigits_digits (n : Nat) : AllDigits (digits n) :=
  ⟨digits_ne_nil n, fun _ hc => isDigit_of_mem_digits hc⟩

theorem allDigits_zero : AllDigits ['0'] := ⟨nofun, List.forall_mem_singleton.mpr rfl⟩

theorem AllDigits.append_left {ds more : List Char} (h : AllDigits ds)
    (hmore : ∀ c ∈ more, isDigit c = true) : AllDigits (ds ++ more) :=
  ⟨List.append_ne_nil_of_left_ne_nil h.1 more, List.forall_mem_append.mpr ⟨h.2, hmore⟩⟩

theorem isDigit_of_mem_zeros {n : Nat} : ∀ c ∈ zeros n, isDigit c = true := by
  intro c hc
  obtain rfl := List.eq_of_mem_replicate hc
  rfl

/-- A digit stands for one of ten numbers. -/
theorem exists_digitChar {c : Char} (h : isDigit c = true) : ∃ d : Fin 10, c = digitChar d := by
  simp only [isDigit, Bool.and_eq_true, decide_eq_true_eq] at h
  have hlow : 48 ≤ c.toNat := h.1
  have hhigh : c.toNat ≤ 57 := h.2
  refine ⟨⟨c.toNat - 48, by omega⟩, ?_⟩
  rw [digitChar, Nat.add_sub_cancel' hlow, Char.ofNat_toNat]

/-! ## Digits of numbers -/

theorem head?_digits {n : Nat} (hn : 0 < n) : (digits n).head? ≠ some '0' := by
  induction n using Nat.strongRecOn with
  | _ n ih =>
    rw [digits_eq]
    split
    · next hlt =>
      -- a single digit that is not zero
      have hdigit : ∀ d : Fin 10, 0 < d.val → digitChar d.val ≠ '0' := by decide
      exact fun heq => hdigit ⟨n, hlt⟩ hn (Option.some.inj heq)
    · next hge =>
      -- the digits in front of the last are those of a tenth, which is not zero
      have hhead := ih (n / 10) (by omega) (by omega)
      obtain ⟨c, more, hcons⟩ := List.exists_cons_of_ne_nil (digits_ne_nil (n / 10))
      rw [hcons] at hhead ⊢
      exact hhead

/-- A number has as many digits as its powers of ten say. -/
theorem length_digits_bounds (n : Nat) :
    n < 10 ^ (digits n).length ∧ (0 < n → 10 ^ ((digits n).length - 1) ≤ n) := by
  induction n using Nat.strongRecOn with
  | _ n ih =>
    rw [digits_eq]
    split
    · next hn => exact ⟨by simpa using hn, fun hpos => hpos⟩
    · next hn =>
      obtain ⟨hlt, hle⟩ := ih (n / 10) (by omega)
      have hlow := hle (by omega)
      -- one digit more for ten times the number
      obtain ⟨l, hl⟩ : ∃ l, (digits (n / 10)).length = l + 1 :=
        ⟨_, (Nat.sub_add_cancel (List.length_pos_iff.mpr (digits_ne_nil (n / 10)))).symm⟩
      rw [List.length_append, List.length_singleton, Nat.add_sub_cancel]
      rw [hl] at hlt hlow ⊢
      rw [Nat.add_sub_cancel] at hlow
      rw [Nat.pow_succ] at hlt ⊢
      rw [Nat.pow_succ]
      omega

/-! ## Numbers of digits -/

theorem le_valueFrom (acc : Nat) (ds : List Char) : acc ≤ valueFrom acc ds := by
  induction ds generalizing acc with
  | nil => exact Nat.le_refl acc
  | cons d rest ih => exact Nat.le_trans (by omega) (ih (10 * acc + digitValue d))

/-- Zeros in front do not change the number. -/
theorem valueOf_zeros_append (n : Nat) (ds : List Char) :
    valueOf (zeros n ++ ds) = valueOf ds := by
  induction n with
  | zero => rfl
  | succ n ih => exact ih

/-- Digits behind a number stay below the next number with as many zeros. Induction on the digits. -/
theorem valueFrom_lt {ds : List Char} (h : ∀ c ∈ ds, isDigit c = true) (acc : Nat) :
    valueFrom acc ds < (acc + 1) * 10 ^ ds.length := by
  induction ds generalizing acc with
  | nil =>
    show acc < _
    simp
  | cons d rest ih =>
    -- a digit is nine at most
    have hd : digitValue d ≤ 9 := by
      have hdigit := h d List.mem_cons_self
      simp only [isDigit, Bool.and_eq_true, decide_eq_true_eq] at hdigit
      have hle : d.toNat ≤ 57 := hdigit.2
      rw [digitValue]
      omega
    have hrest := ih (fun c hc => h c (List.mem_cons_of_mem d hc)) (10 * acc + digitValue d)
    calc valueFrom acc (d :: rest) < (10 * acc + digitValue d + 1) * 10 ^ rest.length := hrest
      _ ≤ ((acc + 1) * 10) * 10 ^ rest.length := Nat.mul_le_mul_right _ (by omega)
      _ = (acc + 1) * 10 ^ (d :: rest).length := by
        rw [List.length_cons, Nat.pow_succ, Nat.mul_assoc, Nat.mul_comm 10]

end FormulaSheet.Decimal
