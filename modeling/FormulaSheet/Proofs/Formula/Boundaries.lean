import FormulaSheet.Proofs.Formula.Lexing

/-!
# FormulaSheet — where words end for certain

A character that can stand neither in a number nor in a name ends every word in front of it, and the
text behind it is cut as if it stood alone. Nothing that was half read gets past it.

* `splitPiece_append` — a piece in front of such a character is what it is without it.
* `cut_boundary` — so a text is cut on both sides of it separately.
* `tokenize_append_gap`, `tokenize_gap_append` — dropped characters at an end of a text add nothing.
* `tokenize_boundaries` — the headline.
-/

namespace FormulaSheet

open Decimal Text

/-- The character can stand neither in a name nor in a number. -/
def IsBoundary (c : Char) : Prop := ¬ IsWordCharacter c ∧ c ≠ '.'

/-- The character is one that is dropped wherever it stands. -/
def IsDropped (c : Char) : Prop := IsBoundary c ∧ c ∉ symbols

instance (c : Char) : Decidable (IsBoundary c) := inferInstanceAs (Decidable (_ ∧ _))

instance (c : Char) : Decidable (IsDropped c) := inferInstanceAs (Decidable (_ ∧ _))

variable {c : Char} {after : List Char}

theorem IsBoundary.isNameRest_eq (h : IsBoundary c) : isNameRest c = false :=
  isNameRest_eq_false_iff.mpr h.1

theorem IsBoundary.isDigit_eq (h : IsBoundary c) : isDigit c = false :=
  (Bool.or_eq_false_iff.mp h.isNameRest_eq).2

theorem IsBoundary.isNameStart_eq (h : IsBoundary c) : isNameStart c = false :=
  (Bool.or_eq_false_iff.mp h.isNameRest_eq).1

theorem isBoundary_of_mem_symbols : ∀ c ∈ symbols, IsBoundary c := by
  intro c hc
  refine ⟨isNameRest_eq_false_iff.mp (isNameRest_of_mem_symbols c hc), ?_⟩
  rintro rfl
  exact absurd hc (by decide)

/-! ## Cuts -/

theorem splitFraction_of_ne_point {cs : List Char} (h : cs.head? ≠ some '.') :
    splitFraction cs = ([], cs) := by
  unfold splitFraction
  split
  · exact absurd rfl h
  · rfl

/-- A boundary behind a fraction changes nothing in it, and it stays behind what is left. -/
theorem splitFraction_append (h : IsBoundary c) (cs : List Char) :
    splitFraction (cs ++ c :: after)
      = ((splitFraction cs).1, (splitFraction cs).2 ++ c :: after) := by
  by_cases hpoint : cs.head? = some '.'
  · obtain ⟨digits, rfl⟩ := List.head?_eq_some_iff.mp hpoint
    cases digits with
    | nil =>
      -- the point has no digit behind it, with or without the character
      show (if isDigit c then _ else _) = _
      rw [if_neg (by simp [h.isDigit_eq])]
      rfl
    | cons d more =>
      have hends := runEnds_cons h.isDigit_eq after
      simp only [List.cons_append, splitFraction, takeWhile_append hends, dropWhile_append hends]
      split <;> rfl
  · have hends : (cs ++ c :: after).head? ≠ some '.' := by
      cases cs with
      | nil => simpa using h.2
      | cons d more => exact hpoint
    rw [splitFraction_of_ne_point hpoint, splitFraction_of_ne_point hends]

/-- In front of a boundary a piece is what it is at the end of the text. -/
theorem splitPiece_append (h : IsBoundary c) (first : Char) (rest : List Char) :
    splitPiece first (rest ++ c :: after)
      = ((splitPiece first rest).1, (splitPiece first rest).2 ++ c :: after) := by
  have hdigits := runEnds_cons h.isDigit_eq after
  have hletters := runEnds_cons h.isNameRest_eq after
  unfold splitPiece
  rw [takeWhile_append hdigits, dropWhile_append hdigits, takeWhile_append hletters,
    dropWhile_append hletters, splitFraction_append h]
  split
  · rfl
  · split <;> rfl

/-- A boundary is a piece by itself. -/
theorem splitPiece_boundary (h : IsBoundary c) (rest : List Char) :
    splitPiece c rest = (.single c, rest) := by
  rw [splitPiece, if_neg (by simp [h.isDigit_eq]), if_neg (by simp [h.isNameStart_eq])]

/-- **A text is cut on both sides of a boundary separately.** -/
theorem cut_boundary (h : IsBoundary c) (before after : List Char) :
    cut (before ++ c :: after) = cut before ++ .single c :: cut after := by
  fun_induction cut before with
  | case1 => rw [List.nil_append, cut, splitPiece_boundary h, List.nil_append]
  | case2 first rest ih =>
    rw [List.cons_append, cut, splitPiece_append h]
    dsimp only
    rw [ih, List.cons_append]

/-! ## Tokens

What a dropped character separates stays separate, and nothing else comes of it. -/

theorem tokenize_boundary (h : IsBoundary c) (before after : String) :
    tokenize (before ++ String.singleton c ++ after)
      = tokenize before ++ (symbolToken? c).toList ++ tokenize after := by
  rw [tokenize, String.toList_append, String.toList_append, String.toList_singleton,
    List.append_assoc, List.singleton_append, cut_boundary h, List.filterMap_append,
    List.filterMap_cons, tokenize, tokenize, List.append_assoc]
  show _ = _ ++ ((Piece.single c).token?.toList ++ _)
  cases (Piece.single c).token? <;> rfl

/-- A character that is dropped only separates the tokens on its two sides. -/
theorem tokenize_dropped (h : IsDropped c) (before after : String) :
    tokenize (before ++ String.singleton c ++ after) = tokenize before ++ tokenize after := by
  rw [tokenize_boundary h.1, symbolToken?_of_notMem_symbols h.2, Option.toList_none, List.append_nil]

theorem tokenize_empty : tokenize "" = [] := by
  rw [tokenize, String.toList_empty, cut]
  rfl

/-- Dropped characters at the end of a text add no token. -/
theorem tokenize_append_gap {gap : List Char} (hgap : ∀ c ∈ gap, IsDropped c) (before : String) :
    tokenize (before ++ String.ofList gap) = tokenize before := by
  induction gap generalizing before with
  | nil => rw [String.ofList_nil, String.append_empty]
  | cons c more ih =>
    obtain ⟨hc, hmore⟩ := List.forall_mem_cons.mp hgap
    have hone := tokenize_dropped hc before ""
    rw [String.append_empty, tokenize_empty, List.append_nil] at hone
    rw [String.ofList_cons, ← String.append_assoc, ih hmore, hone]

theorem tokenize_gap_append {gap : List Char} (hgap : ∀ c ∈ gap, IsDropped c) (after : String) :
    tokenize (String.ofList gap ++ after) = tokenize after := by
  induction gap with
  | nil => rw [String.ofList_nil, String.empty_append]
  | cons c more ih =>
    obtain ⟨hc, hmore⟩ := List.forall_mem_cons.mp hgap
    have hone := tokenize_dropped hc "" (String.ofList more ++ after)
    rw [String.empty_append, tokenize_empty, List.nil_append] at hone
    rw [String.ofList_cons, String.append_assoc, hone, ih hmore]

/-- **A character that can stand neither in a number nor in a name is a boundary between words.**
It adds its own token if it is an operator or a parenthesis, and nothing else. So a run of dropped
characters only separates what stands on its sides, and around an operator it does nothing. -/
theorem tokenize_boundaries (before after : String) :
    (∀ c, IsBoundary c →
        tokenize (before ++ String.singleton c ++ after)
          = tokenize before ++ (symbolToken? c).toList ++ tokenize after)
      ∧ (∀ c ∈ symbols, IsBoundary c ∧ ∃ token, symbolToken? c = some token
          ∧ IsTokenOf [c] (some token))
      ∧ (∀ c, c ∉ symbols → symbolToken? c = none)
      ∧ (∀ gap, gap ≠ [] → (∀ c ∈ gap, IsDropped c) →
          tokenize (before ++ String.ofList gap ++ after) = tokenize before ++ tokenize after)
      ∧ ∀ c ∈ symbols, ∀ left right, (∀ d ∈ left, IsDropped d) → (∀ d ∈ right, IsDropped d) →
          tokenize (before ++ String.ofList left ++ String.singleton c
              ++ (String.ofList right ++ after))
            = tokenize (before ++ String.singleton c ++ after) := by
  refine ⟨fun c hc => tokenize_boundary hc before after, fun c hc => ?_, fun c hc => ?_,
    fun gap hne hgap => ?_, fun c hc left right hleft hright => ?_⟩
  · -- that every symbol has a token is decided by running through them
    have hall : symbols.all (fun c => (symbolToken? c).isSome) = true := by decide
    have hsome := List.all_eq_true.mp hall c hc
    obtain ⟨token, htoken⟩ := Option.isSome_iff_exists.mp hsome
    have hsays := symbolToken?_of_mem_symbols c hc
    rw [htoken] at hsays
    exact ⟨isBoundary_of_mem_symbols c hc, token, htoken, hsays⟩
  · exact symbolToken?_of_notMem_symbols hc
  · obtain ⟨c, more, rfl⟩ := List.exists_cons_of_ne_nil hne
    obtain ⟨hc, hmore⟩ := List.forall_mem_cons.mp hgap
    -- the first dropped character separates, and the others add nothing
    rw [String.ofList_cons, ← String.append_assoc, String.append_assoc, tokenize_dropped hc,
      tokenize_gap_append hmore]
  · -- both sides are cut at the symbol, and the gaps lie at the ends of the parts
    have hbound := isBoundary_of_mem_symbols c hc
    rw [tokenize_boundary hbound, tokenize_boundary hbound, tokenize_append_gap hleft,
      tokenize_gap_append hright]

/-- A point at the end of a number, a letter behind it, a character of another script, and blanks
around an operator. -/
theorem dollar_boundaries :
    IsBoundary '$' ∧ '*' ∈ symbols ∧ 'é' ∉ symbols
      ∧ ['é', '\t'] ≠ [] ∧ (∀ c ∈ ['é', '\t'], IsDropped c) ∧ (∀ c ∈ [' '], IsDropped c)
      ∧ tokenize ("3." ++ String.singleton '$' ++ "5x")
          = tokenize "3." ++ (symbolToken? '$').toList ++ tokenize "5x"
      ∧ (IsBoundary '*' ∧ ∃ token, symbolToken? '*' = some token ∧ IsTokenOf ['*'] (some token))
      ∧ symbolToken? 'é' = none
      ∧ tokenize ("3." ++ String.ofList ['é', '\t'] ++ "5x") = tokenize "3." ++ tokenize "5x"
      ∧ tokenize ("3." ++ String.ofList [' '] ++ String.singleton '*'
            ++ (String.ofList ['é', '\t'] ++ "5x"))
          = tokenize ("3." ++ String.singleton '*' ++ "5x") := by
  have hdollar : IsBoundary '$' := by decide
  have hstar : '*' ∈ symbols := by decide
  have hletter : 'é' ∉ symbols := by decide
  have hblank : ∀ c ∈ [' '], IsDropped c := List.forall_mem_singleton.mpr (by decide)
  have hgap : ∀ c ∈ ['é', '\t'], IsDropped c :=
    List.forall_mem_cons.mpr ⟨by decide, List.forall_mem_singleton.mpr (by decide)⟩
  obtain ⟨hboundary, hsymbols, hothers, hgaps, haround⟩ := tokenize_boundaries "3." "5x"
  exact ⟨hdollar, hstar, hletter, List.cons_ne_nil _ _, hgap, hblank, hboundary '$' hdollar,
    hsymbols '*' hstar, hothers 'é' hletter, hgaps _ (List.cons_ne_nil _ _) hgap,
    haround '*' hstar [' '] ['é', '\t'] hblank hgap⟩

end FormulaSheet
