/-!
# FormulaSheet — rounding a quotient to a whole number

One function rounds every quotient of the library. It stays within half a unit of the
quotient (`two_mul_roundDiv_le`, `le_two_mul_roundDiv`), and where two whole numbers are
equally near the `Tie` decides.
-/

namespace FormulaSheet.Decimal

/-- What happens halfway between two neighbours. -/
inductive Tie where
  /-- The neighbour of larger magnitude wins. -/
  | away
  /-- The even neighbour wins. -/
  | toEven
deriving DecidableEq, Repr

/-- Does a quotient exactly halfway above the whole number `below` go up? -/
def Tie.goesUp : Tie → Nat → Bool
  | .away, _ => true
  | .toEven, below => below % 2 == 1

/-- The whole number nearest to `num / den`. -/
def roundDiv (tie : Tie) (num den : Nat) : Nat :=
  let below := num / den
  match compare (2 * (num % den)) den with
  | .lt => below
  | .gt => below + 1
  | .eq => if tie.goesUp below then below + 1 else below

theorem roundDiv_cases (tie : Tie) (num den : Nat) :
    (roundDiv tie num den = num / den ∧ 2 * (num % den) ≤ den)
      ∨ (roundDiv tie num den = num / den + 1 ∧ den ≤ 2 * (num % den)) := by
  unfold roundDiv
  simp only
  split
  · next h =>
    exact Or.inl ⟨rfl, Nat.le_of_lt (Nat.compare_eq_lt.mp h)⟩
  · next h =>
    exact Or.inr ⟨rfl, Nat.le_of_lt (Nat.compare_eq_gt.mp h)⟩
  · next h =>
    have heq := Nat.compare_eq_eq.mp h
    split
    · exact Or.inr ⟨rfl, Nat.le_of_eq heq.symm⟩
    · exact Or.inl ⟨rfl, Nat.le_of_eq heq⟩

/-- The result is at most half a unit above the quotient. -/
theorem two_mul_roundDiv_le (tie : Tie) (num den : Nat) :
    2 * (roundDiv tie num den * den) ≤ 2 * num + den := by
  have hdiv := Nat.div_add_mod num den
  rcases roundDiv_cases tie num den with ⟨h, _⟩ | ⟨h, hle⟩
  · rw [h, Nat.mul_comm (num / den)]; omega
  · rw [h, Nat.add_mul, Nat.mul_comm (num / den)]; omega

/-- The result is at most half a unit below the quotient. -/
theorem le_two_mul_roundDiv (tie : Tie) (num den : Nat) (hden : 0 < den) :
    2 * num ≤ 2 * (roundDiv tie num den * den) + den := by
  have hdiv := Nat.div_add_mod num den
  have hlt := Nat.mod_lt num hden
  rcases roundDiv_cases tie num den with ⟨h, hle⟩ | ⟨h, _⟩
  · rw [h, Nat.mul_comm (num / den)]; omega
  · rw [h, Nat.add_mul, Nat.mul_comm (num / den)]; omega

end FormulaSheet.Decimal
