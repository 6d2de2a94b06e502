import FormulaSheet.Json.Reader
import FormulaSheet.Proofs.Decimal.Digits
import FormulaSheet.Proofs.Text.Runs

/-!
# FormulaSheet — numbers in front of other text

A number has no closing mark: it ends where the text does not go on with it. So the text behind it
matters, but only by its first character (`Delimits`). A number that is all of a text is read the
same in front of such a rest (`extends_readNumber`), and its first character is one that numbers
start with (`startsNumber_of_readNumber`). Numerals are read from their own texts
(`Numeral.read_text`).
-/

namespace FormulaSheet.Json

open Decimal (AllDigits isDigit)
open Text (RunEnds takeWhile_append dropWhile_append)

/-- The text goes on with no number in front of it. -/
def Delimits (rest : List Char) : Prop :=
  ∀ c ∈ rest.head?, isDigit c = false ∧ c ≠ '.' ∧ c ≠ 'e' ∧ c ≠ 'E'

theorem delimits_nil : Delimits [] := nofun

theorem delimits_cons {c : Char} (rest : List Char)
    (h : isDigit c = false ∧ c ≠ '.' ∧ c ≠ 'e' ∧ c ≠ 'E') : Delimits (c :: rest) := by
  intro d hd
  rw [List.head?_cons] at hd
  obtain rfl := Option.some.inj hd
  exact h

/-- Text that delimits numbers can be put behind all that is read. -/
def Extends {α : Type} (read : List Char → Except Error (α × List Char)) : Prop :=
  ∀ ⦃cs after : List Char⦄ ⦃x : α⦄, read cs = .ok (x, after) →
    ∀ ⦃rest : List Char⦄, Delimits rest → read (cs ++ rest) = .ok (x, after ++ rest)

section Steps

variable {ε α β : Type}

theorem exists_of_bind_eq_ok {first : Except ε α} {second : α → Except ε β} {y : β}
    (h : (first >>= second) = .ok y) : ∃ x, first = .ok x ∧ second x = .ok y := by
  cases first with
  | error e => cases h
  | ok x => exact ⟨x, rfl, h⟩

theorem bind_eq_of_ok {first : Except ε α} {x : α} (h : first = .ok x)
    (second : α → Except ε β) : (first >>= second) = second x := by
  rw [h]
  rfl

theorem exists_of_map_eq_ok {first : Except ε α} {f : α → β} {y : β}
    (h : first.map f = .ok y) : ∃ x, first = .ok x ∧ f x = y := by
  cases first with
  | error e => cases h
  | ok x => exact ⟨x, rfl, Except.ok.inj h⟩

/-- Changing the value that is read does not change what is read for it. -/
theorem Extends.map {read : List Char → Except Error (α × List Char)} (h : Extends read)
    (f : α → β) : Extends fun cs => (read cs).map fun (x, after) => (f x, after) := by
  intro cs after y hy rest hrest
  dsimp only at hy ⊢
  obtain ⟨⟨x, between⟩, hx, hy⟩ := exists_of_map_eq_ok hy
  obtain ⟨rfl, rfl⟩ := Prod.mk.inj hy
  rw [h hx hrest]
  rfl

end Steps

variable {cs rest : List Char} {atEnd : Error}

/-! ## Digits -/

theorem Delimits.runEnds (h : Delimits rest) : RunEnds isDigit rest := fun c hc => (h c hc).1

/-- Digits end at every character that is not one of them. -/
theorem extends_readDigits (atEnd : Error) : Extends (readDigits atEnd) := by
  intro cs after ds h rest hrest
  cases cs with
  | nil => cases h
  | cons c more =>
    rw [readDigits] at h
    rw [List.cons_append, readDigits]
    split at h
    · next hc =>
      obtain ⟨rfl, rfl⟩ := Prod.mk.inj (Except.ok.inj h)
      rw [if_pos hc, takeWhile_append hrest.runEnds, dropWhile_append hrest.runEnds]
    · cases h

/-! ## The parts of a numeral -/

theorem readWhole_eq_ok_iff {ds after : List Char} :
    readWhole atEnd cs = .ok (ds, after) ↔
      readDigits atEnd cs = .ok (ds, after) ∧ ∀ d more, ds ≠ '0' :: d :: more := by
  rw [readWhole]
  split
  · next d more after' hdigits =>
    -- a zero in front of other digits is refused
    rw [hdigits]
    refine ⟨nofun, fun ⟨heq, hlone⟩ => ?_⟩
    obtain ⟨rfl, -⟩ := Prod.mk.inj (Except.ok.inj heq)
    exact absurd rfl (hlone d more)
  · next hlone =>
    refine ⟨fun heq => ⟨heq, ?_⟩, And.left⟩
    rintro d more rfl
    exact hlone _ _ _ heq

/-- The whole part of a number ends where its digits do, and a lone zero by itself. -/
theorem extends_readWhole (atEnd : Error) : Extends (readWhole atEnd) := by
  intro cs after ds h rest hrest
  obtain ⟨hdigits, hlone⟩ := readWhole_eq_ok_iff.mp h
  exact readWhole_eq_ok_iff.mpr ⟨extends_readDigits atEnd hdigits hrest, hlone⟩

theorem readFraction_of_ne_point (h : cs.head? ≠ some '.') :
    readFraction atEnd cs = .ok (none, cs) := by
  rw [readFraction]
  rintro more rfl
  exact h rfl

/-- A fraction ends where its digits do, and none starts at a delimiter. -/
theorem extends_readFraction (atEnd : Error) : Extends (readFraction atEnd) := by
  intro cs after fraction h rest hrest
  cases cs with
  | nil =>
    obtain ⟨rfl, rfl⟩ := Prod.mk.inj (Except.ok.inj h)
    -- a text that delimits starts with no point
    exact readFraction_of_ne_point fun hpoint => (hrest '.' hpoint).2.1 rfl
  | cons c more =>
    by_cases hc : c = '.'
    · -- behind a point there are digits, which go on as digits do
      subst hc
      exact (extends_readDigits atEnd).map some h hrest
    · have hhead : ∀ text, (c :: text).head? ≠ some '.' := fun _ heq => hc (Option.some.inj heq)
      rw [readFraction_of_ne_point (hhead _)] at h
      obtain ⟨rfl, rfl⟩ := Prod.mk.inj (Except.ok.inj h)
      exact readFraction_of_ne_point (hhead _)

/-- The sign of a text that is not empty is the same in front of a rest. -/
theorem splitSign_append (hne : cs ≠ []) :
    Decimal.splitSign (cs ++ rest)
      = ((Decimal.splitSign cs).1, (Decimal.splitSign cs).2 ++ rest) := by
  obtain ⟨c, more, rfl⟩ := List.exists_cons_of_ne_nil hne
  rw [List.cons_append]
  by_cases hminus : c = '-'
  · subst hminus
    rfl
  · by_cases hplus : c = '+'
    · subst hplus
      rfl
    · -- no sign is split off another character
      have hnone : ∀ text, Decimal.splitSign (c :: text) = (false, c :: text) := by
        intro text
        rw [Decimal.splitSign]
        · rintro more' ⟨⟩
          exact hminus rfl
        · rintro more' ⟨⟩
          exact hplus rfl
      rw [hnone, hnone, List.cons_append]

/-- An exponent ends where its digits do, and none starts at a delimiter. -/
theorem extends_readExponent (atEnd : Error) : Extends (readExponent atEnd) := by
  intro cs after exponent h rest hrest
  cases cs with
  | nil =>
    obtain ⟨rfl, rfl⟩ := Prod.mk.inj (Except.ok.inj h)
    cases rest with
    | nil => rfl
    | cons c more =>
      obtain ⟨-, -, hlower, hupper⟩ := hrest c rfl
      rw [List.nil_append, readExponent, if_neg (not_or.mpr ⟨hlower, hupper⟩)]
  | cons c more =>
    rw [readExponent] at h
    rw [List.cons_append, readExponent]
    split at h
    · next hc =>
      -- the exponent has a digit, so its sign cannot come from the rest
      have hmore : more ≠ [] := by
        rintro rfl
        cases h
      rw [if_pos hc, splitSign_append hmore]
      exact (extends_readDigits atEnd).map (fun ds => some ((Decimal.splitSign more).1, ds)) h hrest
    · next hc =>
      obtain ⟨rfl, rfl⟩ := Prod.mk.inj (Except.ok.inj h)
      rw [if_neg hc]
      rfl

/-! ## Whole numbers -/

/-- A numeral behind its sign. -/
def Numeral.readUnsigned (atEnd : Error) (negative : Bool) (cs : List Char) :
    Except Error (Numeral × List Char) := do
  let (whole, cs) ← readWhole atEnd cs
  let (fraction, cs) ← readFraction atEnd cs
  let (exponent, cs) ← readExponent atEnd cs
  return (⟨negative, whole, fraction, exponent⟩, cs)

/-- A number without its sign goes on as its last part does. -/
theorem extends_readUnsigned (atEnd : Error) (negative : Bool) :
    Extends (Numeral.readUnsigned atEnd negative) := by
  intro cs after n h rest hrest
  obtain ⟨⟨whole, afterWhole⟩, hwhole, h⟩ := exists_of_bind_eq_ok h
  obtain ⟨⟨fraction, afterFraction⟩, hfraction, h⟩ := exists_of_bind_eq_ok h
  obtain ⟨⟨exponent, afterExponent⟩, hexponent, h⟩ := exists_of_bind_eq_ok h
  obtain ⟨rfl, rfl⟩ := Prod.mk.inj (Except.ok.inj h)
  -- each part is read again, with more behind the last of them
  rw [Numeral.readUnsigned, bind_eq_of_ok (extends_readWhole atEnd hwhole hrest)]
  dsimp only
  rw [bind_eq_of_ok (extends_readFraction atEnd hfraction hrest)]
  dsimp only
  rw [bind_eq_of_ok (extends_readExponent atEnd hexponent hrest)]
  rfl

/-- Without a minus a number is read as it stands. -/
theorem read_of_ne_minus (h : cs.head? ≠ some '-') :
    Numeral.read atEnd cs = Numeral.readUnsigned atEnd false cs := by
  rw [Numeral.read]
  · rfl
  · rintro more rfl
    exact h rfl

/-- A number that is read up to the end of a text is read in front of every text that delimits
it. -/
theorem extends_read (atEnd : Error) : Extends (Numeral.read atEnd) := by
  intro cs after n h rest hrest
  cases cs with
  | nil => cases h
  | cons c more =>
    by_cases hc : c = '-'
    · subst hc
      exact extends_readUnsigned atEnd true h hrest
    · have hhead : ∀ text, (c :: text).head? ≠ some '-' := fun _ heq => hc (Option.some.inj heq)
      rw [List.cons_append]
      rw [read_of_ne_minus (hhead _)] at h ⊢
      exact extends_readUnsigned atEnd false h hrest

/-- **A number is read the same** in front of a text that goes on with none. -/
theorem extends_readNumber : Extends readNumber := by
  intro cs after number h rest hrest
  obtain ⟨⟨n, afterNumeral⟩, hread, h⟩ := exists_of_bind_eq_ok h
  obtain ⟨value, hvalue, h⟩ := exists_of_bind_eq_ok h
  obtain ⟨rfl, rfl⟩ := Prod.mk.inj (Except.ok.inj h)
  rw [readNumber, bind_eq_of_ok (extends_read _ hread hrest)]
  dsimp only
  rw [bind_eq_of_ok hvalue]
  rfl

/-- A number that is read starts with a minus or a digit. -/
theorem startsNumber_of_readNumber {number : Number} {after : List Char}
    (h : readNumber cs = .ok (number, after)) :
    ∃ c more, cs = c :: more ∧ Reader.startsNumber c = true := by
  obtain ⟨⟨n, afterNumeral⟩, hread, -⟩ := exists_of_bind_eq_ok h
  cases cs with
  | nil => cases hread
  | cons c more =>
    refine ⟨c, more, rfl, ?_⟩
    by_cases hc : c = '-'
    · subst hc
      rfl
    · have hhead : (c :: more).head? ≠ some '-' := fun heq => hc (Option.some.inj heq)
      -- without a minus the number starts with its digits
      rw [read_of_ne_minus hhead] at hread
      obtain ⟨⟨whole, afterWhole⟩, hwhole, -⟩ := exists_of_bind_eq_ok hread
      obtain ⟨hdigits, -⟩ := readWhole_eq_ok_iff.mp hwhole
      rw [readDigits] at hdigits
      split at hdigits
      · next hdigit => rw [Reader.startsNumber, hdigit, Bool.or_true]
      · cases hdigits

/-! ## Texts of numerals -/

/-- The parts of the numeral are as the reader leaves them. -/
structure Numeral.WellFormed (n : Numeral) : Prop where
  whole : AllDigits n.whole
  /-- No zero leads. -/
  leading : ∀ d more, n.whole ≠ '0' :: d :: more
  fraction : ∀ ds ∈ n.fraction, AllDigits ds
  exponent : ∀ e ∈ n.exponent, AllDigits e.2

def exponentText : Option (Bool × List Char) → List Char
  | none => []
  | some (negative, ds) => 'e' :: (if negative then '-' else '+') :: ds

def fractionText : Option (List Char) → List Char
  | none => []
  | some ds => '.' :: ds

/-- The numeral as it is written, with a sign in its exponent. -/
def Numeral.text (n : Numeral) : List Char :=
  (if n.negative then ['-'] else [])
    ++ (n.whole ++ (fractionText n.fraction ++ exponentText n.exponent))

section Reading

variable {atEnd : Error} {ds rest : List Char}

/-- Digits in front of another character are read as they are. -/
theorem readDigits_append (h : AllDigits ds) (hrest : ∀ c ∈ rest.head?, isDigit c = false) :
    readDigits atEnd (ds ++ rest) = .ok (ds, rest) := by
  obtain ⟨hne, hall⟩ := h
  obtain ⟨c, more, rfl⟩ := List.exists_cons_of_ne_nil hne
  have hmore : ∀ d ∈ more, isDigit d = true := fun d hd => hall d (List.mem_cons_of_mem c hd)
  -- the run of digits stops where the rest starts
  have hstop : rest.takeWhile isDigit = [] ∧ rest.dropWhile isDigit = rest := by
    cases rest with
    | nil => exact ⟨rfl, rfl⟩
    | cons d tail =>
      have hd : ¬ isDigit d = true := by
        rw [hrest d rfl]
        exact nofun
      exact ⟨List.takeWhile_cons_of_neg hd, List.dropWhile_cons_of_neg hd⟩
  rw [List.cons_append, readDigits, if_pos (hall c List.mem_cons_self),
    List.takeWhile_append_of_pos hmore, List.dropWhile_append_of_pos hmore, hstop.1, hstop.2,
    List.append_nil]

/-- A written exponent is read again. -/
theorem readExponent_exponentText {exponent : Option (Bool × List Char)}
    (h : ∀ e ∈ exponent, AllDigits e.2) :
    readExponent atEnd (exponentText exponent) = .ok (exponent, []) := by
  cases exponent with
  | none => rfl
  | some e =>
    obtain ⟨negative, ds⟩ := e
    have hdigits : readDigits atEnd (ds ++ []) = .ok (ds, []) := readDigits_append (h _ rfl) nofun
    rw [List.append_nil] at hdigits
    -- with a minus or a plus in front of its digits
    cases negative <;>
    · show (readDigits atEnd ds).map _ = _
      rw [hdigits]
      rfl

theorem head?_exponentText {exponent : Option (Bool × List Char)} {c : Char}
    (h : c ∈ (exponentText exponent).head?) : c = 'e' := by
  cases exponent with
  | none => exact nomatch h
  | some e => exact (Option.some.inj h).symm

/-- The text starts with the mark of an exponent, if with anything. -/
def StartsExponent (cs : List Char) : Prop := ∀ c ∈ cs.head?, c = 'e' ∨ c = 'E'

theorem startsExponent_exponentText (exponent : Option (Bool × List Char)) :
    StartsExponent (exponentText exponent) :=
  fun _ h => .inl (head?_exponentText h)

/-- Behind the whole part of a number comes a point or an exponent. -/
theorem head?_fractionText {fraction : Option (List Char)} (hrest : StartsExponent rest) {c : Char}
    (h : c ∈ (fractionText fraction ++ rest).head?) : c = '.' ∨ c = 'e' ∨ c = 'E' := by
  cases fraction with
  | none => exact .inr (hrest c h)
  | some ds => exact .inl (Option.some.inj h).symm

theorem StartsExponent.runEnds (h : StartsExponent rest) : RunEnds isDigit rest := by
  intro c hc
  rcases h c hc with rfl | rfl <;> rfl

/-- A written fraction is read again, in front of an exponent. -/
theorem readFraction_fractionText {fraction : Option (List Char)}
    (h : ∀ ds ∈ fraction, AllDigits ds) (hrest : StartsExponent rest) :
    readFraction atEnd (fractionText fraction ++ rest) = .ok (fraction, rest) := by
  cases fraction with
  | none =>
    -- what follows starts an exponent, so it is no point
    refine readFraction_of_ne_point fun hpoint => ?_
    exact absurd (hrest '.' hpoint) (by decide)
  | some ds =>
    have hdigits : readDigits atEnd (ds ++ rest) = .ok (ds, rest) :=
      readDigits_append (h ds rfl) hrest.runEnds
    show (readDigits atEnd (ds ++ rest)).map _ = _
    rw [hdigits]
    rfl

/-- **A numeral is read from its own text.** -/
theorem Numeral.read_text {n : Numeral} (h : n.WellFormed) :
    Numeral.read atEnd n.text = .ok (n, []) := by
  have hdigits : readDigits atEnd
      (n.whole ++ (fractionText n.fraction ++ exponentText n.exponent))
        = .ok (n.whole, fractionText n.fraction ++ exponentText n.exponent) := by
    refine readDigits_append h.whole fun c hc => ?_
    rcases head?_fractionText (startsExponent_exponentText _) hc with rfl | rfl | rfl <;> rfl
  have hunsigned : Numeral.readUnsigned atEnd n.negative
      (n.whole ++ (fractionText n.fraction ++ exponentText n.exponent)) = .ok (n, []) := by
    rw [readUnsigned, bind_eq_of_ok (readWhole_eq_ok_iff.mpr ⟨hdigits, h.leading⟩)]
    dsimp only
    rw [bind_eq_of_ok (readFraction_fractionText h.fraction (startsExponent_exponentText _))]
    dsimp only
    rw [bind_eq_of_ok (readExponent_exponentText h.exponent)]
    rfl
  cases hsign : n.negative with
  | true =>
    rw [hsign] at hunsigned
    rw [text, hsign]
    exact hunsigned
  | false =>
    rw [hsign] at hunsigned
    rw [text, hsign]
    obtain ⟨c, more, hwhole⟩ := List.exists_cons_of_ne_nil h.whole.1
    -- without a sign the first character is a digit, and not taken for one
    have hhead :
        (n.whole ++ (fractionText n.fraction ++ exponentText n.exponent)).head? ≠ some '-' := by
      rw [hwhole]
      intro hminus
      have hdigit := h.whole.2 c (by rw [hwhole]; exact List.mem_cons_self)
      rw [Option.some.inj hminus] at hdigit
      exact absurd hdigit (by decide)
    exact (read_of_ne_minus hhead).trans hunsigned

end Reading

end FormulaSheet.Json
