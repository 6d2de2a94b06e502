import Mathlib.Data.List.TakeWhile

/-!
# FormulaSheet — runs of characters

Readers take the longest run of characters of a class. What follows a run does not start with a
character of the class, and this is all that has to be known of it.
-/

namespace FormulaSheet.Text

/-- A run of the class ends where `rest` follows. -/
def RunEnds (p : Char → Bool) (rest : List Char) : Prop :=
  ∀ c, rest.head? = some c → p c = false

variable {p : Char → Bool} {run cs rest rest' : List Char}

theorem runEnds_cons {c : Char} (hc : p c = false) (rest : List Char) : RunEnds p (c :: rest) := by
  intro d hd
  rw [List.head?_cons] at hd
  exact Option.some.inj hd ▸ hc

/-- The characters of a class are dropped up to where their run ends. -/
theorem runEnds_dropWhile (p : Char → Bool) (cs : List Char) : RunEnds p (cs.dropWhile p) := by
  intro c hc
  have hnot := List.head?_dropWhile_not p cs
  rw [hc] at hnot
  exact hnot

theorem RunEnds.of_append (h : RunEnds p (cs ++ rest)) : RunEnds p cs := by
  intro c hc
  rw [List.head?_eq_some_iff] at hc
  obtain ⟨more, rfl⟩ := hc
  exact h c rfl

/-- Behind the end of a run, the class does not go on. -/
theorem RunEnds.eq_nil (h : RunEnds p (cs ++ rest)) (hcs : ∀ c ∈ cs, p c = true) : cs = [] := by
  cases cs with
  | nil => rfl
  | cons c more =>
    have hc := hcs c List.mem_cons_self
    rw [h c rfl] at hc
    exact nomatch hc

/-- A run is not longer with a text behind it that does not go on with it. -/
theorem takeWhile_append (h : RunEnds p rest) : (cs ++ rest).takeWhile p = cs.takeWhile p := by
  induction cs with
  | nil =>
    cases rest with
    | nil => rfl
    | cons c more => exact List.takeWhile_cons_of_neg (by simp [h c rfl])
  | cons c more ih => rw [List.cons_append, List.takeWhile_cons, List.takeWhile_cons, ih]

theorem dropWhile_append (h : RunEnds p rest) :
    (cs ++ rest).dropWhile p = cs.dropWhile p ++ rest := by
  induction cs with
  | nil =>
    cases rest with
    | nil => rfl
    | cons c more => exact List.dropWhile_cons_of_neg (by simp [h c rfl])
  | cons c more ih =>
    rw [List.cons_append, List.dropWhile_cons, List.dropWhile_cons, ih]
    split <;> rfl

/-- A text is split in one way only into a run and what ends it. -/
theorem append_inj_of_runs {run' : List Char} (hrun : ∀ c ∈ run, p c = true)
    (hrun' : ∀ c ∈ run', p c = true) (hrest : RunEnds p rest) (hrest' : RunEnds p rest')
    (h : run ++ rest = run' ++ rest') : run = run' ∧ rest = rest' := by
  have htake := congrArg (List.takeWhile p) h
  rw [takeWhile_append hrest, takeWhile_append hrest', List.takeWhile_eq_self_iff.mpr hrun,
    List.takeWhile_eq_self_iff.mpr hrun'] at htake
  subst htake
  exact ⟨rfl, List.append_cancel_left h⟩

end FormulaSheet.Text
