/-!
# FormulaSheet — digit strings

A whole number and its decimal digits, in both directions. `valueOf_digits` says that
reading the digits of a number gives the number.
-/

namespace FormulaSheet.Decimal

def twoTo (n : Nat) : Nat := Nat.pow 2 n

def tenTo (n : Nat) : Nat := Nat.pow 10 n

theorem twoTo_pos (n : Nat) : 0 < twoTo n := Nat.pow_pos (by decide)

theorem tenTo_pos (n : Nat) : 0 < tenTo n := Nat.pow_pos (by decide)

/-- The ten characters `0` to `9`; no other digit of Unicode counts. -/
def isDigit (c : Char) : Bool := '0' ≤ c && c ≤ '9'

/-- The digit for a number below ten. -/
def digitChar (d : Nat) : Char := Char.ofNat (48 + d)

/-- The number that a digit stands for. -/
def digitValue (c : Char) : Nat := c.toNat - 48

/-- The digits of `n` in front of `tail`; no zero leads, save for `0` itself. -/
def digitsBefore (n : Nat) (tail : List Char) : List Char :=
  if n < 10 then digitChar n :: tail
  else digitsBefore (n / 10) (digitChar (n % 10) :: tail)
termination_by n

/-- The decimal digits of a whole number. -/
def digits (n : Nat) : List Char := digitsBefore n []

/-- The number that a digit string continues `acc` to. -/
def valueFrom (acc : Nat) (ds : List Char) : Nat :=
  ds.foldl (fun n c => 10 * n + digitValue c) acc

/-- The number that a digit string stands for. -/
def valueOf (ds : List Char) : Nat := valueFrom 0 ds

def zeros (n : Nat) : List Char := List.replicate n '0'

/-- The digits of `n`, with zeros in front up to the given width. -/
def digitsPadded (width n : Nat) : List Char :=
  zeros (width - (digits n).length) ++ digits n

theorem isDigit_digitChar (d : Nat) (h : d < 10) : isDigit (digitChar d) = true := by
  have : ∀ d : Fin 10, isDigit (digitChar d) = true := by decide
  exact this ⟨d, h⟩

theorem digitValue_digitChar (d : Nat) (h : d < 10) : digitValue (digitChar d) = d := by
  have : ∀ d : Fin 10, digitValue (digitChar d) = d := by decide
  exact this ⟨d, h⟩

/-- The accumulator only collects the digits in front of what it holds. -/
theorem digitsBefore_eq (n : Nat) (tail : List Char) :
    digitsBefore n tail = digits n ++ tail := by
  unfold digits
  induction n using Nat.strongRecOn generalizing tail with
  | _ n ih =>
    rw [digitsBefore, digitsBefore.eq_def n []]
    split
    · rfl
    · have hlt : n / 10 < n := by omega
      rw [ih _ hlt, ih _ hlt [digitChar (n % 10)]]
      simp

/-- The last digit is the remainder by ten. -/
theorem digits_eq (n : Nat) :
    digits n = if n < 10 then [digitChar n] else digits (n / 10) ++ [digitChar (n % 10)] := by
  rw [digits, digitsBefore]
  split
  · rfl
  · exact digitsBefore_eq _ _

theorem digits_ne_nil (n : Nat) : digits n ≠ [] := by
  rw [digits_eq]; split <;> simp

theorem isDigit_of_mem_digits {n : Nat} {c : Char} (h : c ∈ digits n) : isDigit c = true := by
  induction n using Nat.strongRecOn with
  | _ n ih =>
    rw [digits_eq] at h
    split at h
    · next hn =>
      simp only [List.mem_singleton] at h
      exact h ▸ isDigit_digitChar n hn
    · simp only [List.mem_append, List.mem_singleton] at h
      rcases h with h | h
      · exact ih (n / 10) (by omega) h
      · exact h ▸ isDigit_digitChar _ (Nat.mod_lt _ (by decide))

theorem valueFrom_append (acc : Nat) (xs ys : List Char) :
    valueFrom acc (xs ++ ys) = valueFrom (valueFrom acc xs) ys := by
  simp [valueFrom]

/-- Reading the digits of a number gives the number. -/
theorem valueOf_digits (n : Nat) : valueOf (digits n) = n := by
  induction n using Nat.strongRecOn with
  | _ n ih =>
    rw [digits_eq]
    split
    · next hn =>
      simp [valueOf, valueFrom, digitValue_digitChar n hn]
    · have := ih (n / 10) (by omega)
      rw [valueOf] at this ⊢
      rw [valueFrom_append, this]
      simp only [valueFrom, List.foldl_cons, List.foldl_nil,
        digitValue_digitChar _ (Nat.mod_lt n (by decide : 0 < 10))]
      omega

end FormulaSheet.Decimal
