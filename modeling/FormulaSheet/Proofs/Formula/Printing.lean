import FormulaSheet.Proofs.Decimal.Shortest
import FormulaSheet.Proofs.Double.Sign
import FormulaSheet.Proofs.Formula.Acceptance
import FormulaSheet.Proofs.Formula.Boundaries
import FormulaSheet.Proofs.Formula.Scoping

/-!
# FormulaSheet — printed formulas read back

A formula is printed without parentheses of its own, and its numbers are rounded to two places. What is
read back is the same tree with the rounded numbers: operators and parentheses stand between blanks or
are boundaries themselves, so every leaf is one word, and the words of a tree determine it.

* `tokenize_number`, `tokenize_name` — a number and a name are one word each.
* `exists_reread_formatNumber` — a finite number without a minus is printed as a number.
* `tokenize_text` — the words of a printed tree are its tokens, if its leaves are one word each.
* `parse_text` — the headline.
-/

namespace FormulaSheet

open Decimal Double Text

/-! ## Single words -/

section Words

variable {whole fraction : List Char} {name : String}

/-- The lexeme of a number is cut off whole. -/
theorem splitPiece_number {c : Char} {rest : List Char} (hwhole : AllDigits whole)
    (hfraction : ∀ d ∈ fraction, isDigit d = true)
    (h : (Piece.number whole fraction).lexeme = c :: rest) :
    splitPiece c rest = (.number whole fraction, []) := by
  obtain ⟨d, digits, rfl⟩ := List.exists_cons_of_ne_nil hwhole.1
  obtain ⟨hd, hdigits⟩ := List.forall_mem_cons.mp hwhole.2
  -- a run of digits is taken whole, whatever it ends at
  have htake : ∀ rest, RunEnds isDigit rest →
      (digits ++ rest).takeWhile isDigit = digits ∧ (digits ++ rest).dropWhile isDigit = rest := by
    intro rest hrest
    rw [takeWhile_append hrest, dropWhile_append hrest, List.takeWhile_eq_self_iff.mpr hdigits,
      List.dropWhile_eq_nil_iff.mpr hdigits]
    exact ⟨rfl, rfl⟩
  cases fraction with
  | nil =>
    obtain ⟨rfl, rfl⟩ := List.cons.inj h
    obtain ⟨hrun, hrest⟩ := htake [] nofun
    rw [List.append_nil] at hrun hrest
    rw [splitPiece, if_pos hd, hrun, hrest]
    rfl
  | cons first more =>
    have hcons : d :: (digits ++ '.' :: first :: more) = c :: rest := h
    obtain ⟨rfl, rfl⟩ := List.cons.inj hcons
    obtain ⟨hfirst, hmore⟩ := List.forall_mem_cons.mp hfraction
    obtain ⟨hrun, hrest⟩ := htake ('.' :: first :: more) (runEnds_cons rfl _)
    have hsplit : splitFraction ('.' :: first :: more) = (first :: more, []) := by
      rw [splitFraction, if_pos hfirst, List.takeWhile_eq_self_iff.mpr hmore,
        List.dropWhile_eq_nil_iff.mpr hmore]
    rw [splitPiece, if_pos hd, hrun, hrest, hsplit]

/-- The lexeme of a number is its token. -/
theorem tokenize_number (hwhole : AllDigits whole) (hfraction : ∀ d ∈ fraction, isDigit d = true) :
    tokenize (String.ofList (Piece.number whole fraction).lexeme)
      = [.number (ofDigits whole fraction)] := by
  have hspells : LexemeKind.number.Spells (Piece.number whole fraction).lexeme :=
    isNumber_lexeme hwhole hfraction
  obtain ⟨c, rest, hcons⟩ := hspells.exists_cons
  rw [tokenize, String.toList_ofList, hcons, cut, splitPiece_number hwhole hfraction hcons, cut]
  rfl

/-- A name is its own token. -/
theorem tokenize_name (h : IsName name.toList) : tokenize name = [.name name] := by
  obtain ⟨c, letters, hstart, hletters, hname⟩ := isName_iff.mp h
  have hdigit : ¬ isDigit c = true := fun hdigit => by
    rw [isNameStart_of_isDigit hdigit] at hstart
    exact nomatch hstart
  have hsplit : splitPiece c letters = (.name (c :: letters), []) := by
    rw [splitPiece, if_neg hdigit, if_pos hstart, List.takeWhile_eq_self_iff.mpr hletters,
      List.dropWhile_eq_nil_iff.mpr hletters]
  rw [tokenize, hname, cut, hsplit, cut]
  show [Token.name (String.ofList (c :: letters))] = _
  rw [← hname, String.ofList_toList]

/-- The names among the words of a text are names of the lexer. -/
theorem isName_of_mem_tokenize {source : String} (h : .name name ∈ tokenize source) :
    IsName name.toList := by
  obtain ⟨lexeme, hlexeme⟩ := exists_isTokenOf h
  cases hlexeme with
  | name hname => rwa [String.toList_ofList]

/-- The numbers among the words of a text are read from digits. -/
theorem noMinus_of_mem_tokenize {source : String} {value : Float}
    (h : .number value ∈ tokenize source) : NoMinus value := by
  obtain ⟨piece, -, htoken⟩ := List.mem_filterMap.mp h
  cases piece with
  | number whole fraction =>
    cases htoken
    exact noMinus_ofDigits whole fraction
  | name letters => exact nomatch htoken
  | single c =>
    change symbolToken? c = some (.number value) at htoken
    -- no symbol is a number
    unfold symbolToken? at htoken
    split at htoken <;> exact nomatch htoken

end Words

/-! ## Printed numbers -/

theorem allDigits_digitsPadded (width n : Nat) : AllDigits (digitsPadded width n) :=
  ⟨List.append_ne_nil_of_right_ne_nil _ (digits_ne_nil n),
    List.forall_mem_append.mpr ⟨isDigit_of_mem_zeros, (allDigits_digits n).2⟩⟩

/-- Hundredths are printed as digits, with a point and two more behind them or without. -/
theorem exists_hundredths (n : Nat) : ∃ whole fraction, AllDigits whole
    ∧ (∀ d ∈ fraction, isDigit d = true) ∧ hundredths n = (Piece.number whole fraction).lexeme := by
  unfold hundredths
  split
  · exact ⟨digits (n / 100), [], allDigits_digits _, nofun, rfl⟩
  · have hplaces := allDigits_digitsPadded 2 (n % tenTo 2)
    exact ⟨digits (n / tenTo 2), digitsPadded 2 (n % tenTo 2), allDigits_digits _, hplaces.2,
      (lexeme_of_ne_nil _ hplaces.1).symm⟩

/-- A finite number without a minus is printed as a number, and read as one word. -/
theorem exists_reread_formatNumber {value : Float} (hfinite : value.isFinite = true)
    (hsign : NoMinus value) :
    ∃ reread, readDouble? (formatNumber value).toList = some reread
      ∧ tokenize (formatNumber value) = [.number reread] := by
  obtain ⟨negative, m, q, hdatum, -, -⟩ := exists_datum hfinite
  have hminus := hsign.isNegative_eq
  rw [hdatum] at hminus
  obtain rfl : negative = false := hminus
  have hformat : formatNumber value = String.ofList (hundredths (roundedTo 2 m q)) := by
    rw [formatNumber, withMinus, hdatum]
    rfl
  -- two decimals at most, laid out as a whole number or with a point
  obtain ⟨whole, fraction, hwhole, hfraction, htext⟩ := exists_hundredths (roundedTo 2 m q)
  rw [hformat, htext, String.toList_ofList]
  exact ⟨_, readDouble?_lexeme hwhole hfraction, tokenize_number hwhole hfraction⟩

/-! ## Printed trees -/

namespace Formula

/-- The numbers of a tree, from left to right. -/
def literals : Formula → List Float
  | literal value _ => [value]
  | binary _ left right _ => left.literals ++ right.literals
  | reference _ => []
  | group inner => inner.literals

/-- The tree with other numbers. -/
def mapLiterals (f : Float → Float) : Formula → Formula
  | literal value origin => literal (f value) origin
  | binary op left right origin => binary op (left.mapLiterals f) (right.mapLiterals f) origin
  | reference name => reference name
  | group inner => group (inner.mapLiterals f)

variable {tree : Formula} {f : Float → Float}

/-- The literals of a tree are the numbers among its tokens. -/
theorem mem_literals_iff {value : Float} : value ∈ tree.literals ↔ .number value ∈ tree.tokens := by
  induction tree with
  | literal known origin => simp [literals, tokens]
  | reference name => simp [literals, tokens]
  | group inner ih => simp [literals, tokens, ih]
  | binary op left right origin ihl ihr => simp [literals, tokens, ihl, ihr]

/-- Other literals cost the same. -/
theorem weight_mapLiterals (f : Float → Float) (tree : Formula) :
    (tree.mapLiterals f).weight = tree.weight := by
  induction tree with
  | literal value origin => rfl
  | reference name => rfl
  | group inner ih => rw [mapLiterals, weight, weight, ih]
  | binary op left right origin ihl ihr => rw [mapLiterals, weight, weight, ihl, ihr]

end Formula

/-- A tree is derived whatever its numbers are. -/
theorem GrammarRule.Derives.mapLiterals {scope : Scope} {rule : GrammarRule} {tree : Formula}
    (h : rule.Derives scope tree) (f : Float → Float) : rule.Derives scope (tree.mapLiterals f) := by
  induction h with
  | number value => exact .number (f value)
  | name hname => exact .name hname
  | group _ ih => exact .group ih
  | factor _ ih => exact .factor ih
  | product hop _ _ ihl ihr => exact .product hop ihl ihr
  | term _ ih => exact .term ih
  | sum hop _ _ ihl ihr => exact .sum hop ihl ihr
  | whole _ ih => exact .whole ih

theorem symbolToken?_symbol (op : Operator) : symbolToken? op.symbol = some (.operator op) := by
  cases op <;> rfl

theorem symbol_mem_symbols (op : Operator) : op.symbol ∈ symbols := by
  cases op <;> decide

/-- An operator between blanks is a word between those of its sides. -/
theorem tokenize_operator (op : Operator) (left right : String) :
    tokenize (left ++ " " ++ op.text ++ " " ++ right)
      = tokenize left ++ .operator op :: tokenize right := by
  have hgap : ∀ c ∈ [' '], IsDropped c := List.forall_mem_singleton.mpr (by decide)
  have hblank : String.ofList [' '] = " " := rfl
  have hleft := tokenize_append_gap hgap left
  have hright := tokenize_gap_append hgap right
  rw [hblank] at hleft hright
  have hbound := isBoundary_of_mem_symbols _ (symbol_mem_symbols op)
  -- the operator is the boundary, with a blank at the end of either side
  have hgroup : left ++ " " ++ op.text ++ " " ++ right
      = left ++ " " ++ String.singleton op.symbol ++ (" " ++ right) := by
    rw [Operator.text, String.append_assoc]
  rw [hgroup, tokenize_boundary hbound, hleft, hright, symbolToken?_symbol, List.append_assoc]
  rfl

/-- Parentheses around a text are tokens around its own. -/
theorem tokenize_parens (inner : String) :
    tokenize ("(" ++ inner ++ ")") = .openParen :: (tokenize inner ++ [.closeParen]) := by
  have hopen := tokenize_boundary (isBoundary_of_mem_symbols '(' (by decide)) "" (inner ++ ")")
  have hclose := tokenize_boundary (isBoundary_of_mem_symbols ')' (by decide)) inner ""
  rw [String.empty_append, tokenize_empty, List.nil_append, ← String.append_assoc] at hopen
  rw [String.append_empty, tokenize_empty, List.append_nil] at hclose
  exact hopen.trans (congrArg (Token.openParen :: ·) hclose)

/-- **The words of a printed tree** are its tokens, with the numbers as they are printed. By induction
on the tree; at each node the printed parts meet at a boundary. -/
theorem tokenize_text {tree : Formula} {f : Float → Float}
    (hliterals : ∀ value ∈ tree.literals, tokenize (formatNumber value) = [.number (f value)])
    (hnames : ∀ name ∈ tree.references, tokenize name = [.name name]) :
    tokenize tree.text = (tree.mapLiterals f).tokens := by
  induction tree with
  | literal value origin => exact hliterals value (List.mem_singleton.mpr rfl)
  | reference name => exact hnames name (List.mem_singleton.mpr rfl)
  | group inner ih =>
    rw [Formula.text, tokenize_parens, ih hliterals hnames, Formula.mapLiterals, Formula.tokens]
  | binary op left right origin ihl ihr =>
    have hleft := ihl (fun value hm => hliterals value (List.mem_append_left _ hm))
      (fun name hm => hnames name (List.mem_append_left _ hm))
    have hright := ihr (fun value hm => hliterals value (List.mem_append_right _ hm))
      (fun name hm => hnames name (List.mem_append_right _ hm))
    rw [Formula.text, tokenize_operator, hleft, hright, Formula.mapLiterals, Formula.tokens]

/-- **Printed formulas read back.** The text of a formula with finite numbers has the same tree, save
that each number is the one that its own text denotes. -/
theorem parse_text {scope : Scope} {source : String} {tree : Formula}
    (hparse : parse scope (tokenize source) = .ok tree)
    (hfinite : ∀ value ∈ tree.literals, value.isFinite = true) :
    ∃ reread : Float → Float,
      (∀ value ∈ tree.literals, readDouble? (formatNumber value).toList = some (reread value))
        ∧ parse scope (tokenize tree.text) = .ok (tree.mapLiterals reread) := by
  obtain ⟨hderives, htokens, hweight⟩ := parse_eq_ok_iff.mp hparse
  let reread : Float → Float := fun value => (readDouble? (formatNumber value).toList).getD 0.0
  -- numbers and names of the tree are words of the source, so none has a minus and each name is one
  have hliterals : ∀ value ∈ tree.literals,
      readDouble? (formatNumber value).toList = some (reread value)
        ∧ tokenize (formatNumber value) = [.number (reread value)] := by
    intro value hmem
    have hword := Formula.mem_literals_iff.mp hmem
    rw [htokens] at hword
    obtain ⟨y, hread, htokenize⟩ :=
      exists_reread_formatNumber (hfinite value hmem) (noMinus_of_mem_tokenize hword)
    have hy : reread value = y := by simp only [reread, hread, Option.getD_some]
    rw [hy]
    exact ⟨hread, htokenize⟩
  have hnames : ∀ name ∈ tree.references, tokenize name = [.name name] := by
    intro name hmem
    have hword := Formula.mem_references_iff.mp hmem
    rw [htokens] at hword
    exact tokenize_name (isName_of_mem_tokenize hword)
  refine ⟨reread, fun value hmem => (hliterals value hmem).1, parse_eq_ok_iff.mpr ?_⟩
  refine ⟨hderives.mapLiterals reread, ?_, by rwa [Formula.weight_mapLiterals]⟩
  exact (tokenize_text (fun value hmem => (hliterals value hmem).2) hnames).symm

/-- A number with three places loses the last one, and a whole one is printed without any. -/
theorem rounded_price_text :
    let tree : Formula := .binary .mul
      (.group (.binary .add (.reference "price_1") (.literal 2.346 .parsed) .parsed))
      (.literal 10.0 .parsed) .parsed
    parse (· == "price_1") (tokenize "(price_1+02.346)*10.") = .ok tree
      ∧ (∀ value ∈ tree.literals, value.isFinite = true)
      ∧ tree.text = "(price_1 + 2.35) * 10"
      ∧ ∃ reread : Float → Float,
        (∀ value ∈ tree.literals, readDouble? (formatNumber value).toList = some (reread value))
          ∧ parse (· == "price_1") (tokenize tree.text) = .ok (tree.mapLiterals reread) := by
  intro tree
  -- the zero in front and the point at the end are lost in the tokens
  have htokens : tokenize "(price_1+02.346)*10." = [.openParen, .name "price_1", .operator .add,
      .number 2.346, .closeParen, .operator .mul, .number 10.0] := by decide +kernel
  have hparse : parse (· == "price_1") (tokenize "(price_1+02.346)*10.") = .ok tree := by
    rw [htokens]
    rfl
  have hfinite : ∀ value ∈ tree.literals, value.isFinite = true := by decide +kernel
  exact ⟨hparse, hfinite, by decide +kernel, parse_text hparse hfinite⟩

end FormulaSheet
