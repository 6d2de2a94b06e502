import FormulaSheet.Formula.Lexer
import Mathlib.Data.List.Forall2
import Mathlib.Data.List.ReduceOption
import FormulaSheet.Proofs.Decimal.Digits
import FormulaSheet.Proofs.Text.Runs

/-!
# FormulaSheet — the words of a text

What the lexer does, said without cutting anything. There are three kinds of lexemes. A text is cut
into lexemes that end where they have to, and into stray characters, which start no lexeme
(`IsCut`).

* `isDigit_iff`, `isNameStart_iff`, `isNameRest_iff` — the tests of the lexer decide the classes of
  characters that lexemes are made of.
* `LexemeKind.Ends.eq_nil` — a lexeme that ends where it has to is the longest of its kind.
* `Stands.piece_eq` — at most one piece can stand at the front of a text, so a text has at most one
  cut (`IsCut.unique`).
* `isCut_cut` — the lexer cuts so.
* `readDouble?_lexeme` — the double of a number is the one that its text denotes.
* `tokenize_longest` — the headline.
-/

namespace FormulaSheet

open Decimal Text

/-! ## Characters

The classes of characters that lexemes are made of, by their ranges, and what the tests of the lexer say
of them. -/

/-- One of `[0-9]`. -/
def IsDecimalDigit (c : Char) : Prop := '0' ≤ c ∧ c ≤ '9'

/-- One of `[A-Za-z_]`. -/
def IsLetter (c : Char) : Prop := ('A' ≤ c ∧ c ≤ 'Z') ∨ ('a' ≤ c ∧ c ≤ 'z') ∨ c = '_'

/-- One of `[A-Za-z0-9_]`. -/
def IsWordCharacter (c : Char) : Prop := IsLetter c ∨ IsDecimalDigit c

/-- The test of the lexer decides the digits. -/
theorem isDigit_iff {c : Char} : isDigit c = true ↔ IsDecimalDigit c := by
  simp [isDigit, IsDecimalDigit]

/-- The test of the lexer decides the letters, with the underscore among them. -/
theorem isNameStart_iff {c : Char} : isNameStart c = true ↔ IsLetter c := by
  simp only [isNameStart, IsLetter, Bool.or_eq_true, Bool.and_eq_true, decide_eq_true_eq, beq_iff_eq]
  rw [or_assoc, or_left_comm]

/-- The test of the lexer decides the characters of words. -/
theorem isNameRest_iff {c : Char} : isNameRest c = true ↔ IsWordCharacter c := by
  rw [isNameRest, Bool.or_eq_true, isNameStart_iff, isDigit_iff, IsWordCharacter]

theorem isNameRest_eq_false_iff {c : Char} : isNameRest c = false ↔ ¬ IsWordCharacter c := by
  rw [← isNameRest_iff, Bool.not_eq_true]

instance (c : Char) : Decidable (IsWordCharacter c) := decidable_of_iff _ isNameRest_iff

/-! ## Lexemes -/

/-- One digit or more. -/
def IsDigits (piece : List Char) : Prop := piece ≠ [] ∧ ∀ c ∈ piece, IsDecimalDigit c

/-- Digits, and perhaps a point and digits behind it. -/
def IsNumber (piece : List Char) : Prop :=
  IsDigits piece
    ∨ ∃ whole fraction, IsDigits whole ∧ IsDigits fraction ∧ piece = whole ++ '.' :: fraction

/-- A letter or an underscore, and letters, digits and underscores behind it. -/
def IsName (piece : List Char) : Prop :=
  ∃ c letters, IsLetter c ∧ (∀ d ∈ letters, IsWordCharacter d) ∧ piece = c :: letters

/-- The characters that are words on their own. -/
def symbols : List Char := ['+', '-', '*', '/', '^', '(', ')']

def IsSymbol (piece : List Char) : Prop := ∃ c ∈ symbols, piece = [c]

inductive LexemeKind where
  | number
  | name
  | symbol

namespace LexemeKind

/-- The text is a lexeme of the kind. -/
def Spells : LexemeKind → List Char → Prop
  | number => IsNumber
  | name => IsName
  | symbol => IsSymbol

/-- A lexeme of the kind ends where `rest` follows: a number if what follows makes no longer number
of it, a name if no character of a name comes next. -/
def Ends : LexemeKind → List Char → List Char → Prop
  | number, piece, rest => ∀ more, more ≠ [] → more <+: rest → ¬ IsNumber (piece ++ more)
  | name, _, rest => ∀ c, rest.head? = some c → ¬ IsWordCharacter c
  | symbol, _, _ => True

end LexemeKind

/-- The piece is one that a text is cut into where `rest` follows: a lexeme that ends there, or a
character that starts no lexeme. -/
inductive Stands (rest : List Char) : List Char → Prop where
  | lexeme {piece : List Char} (kind : LexemeKind) (hspells : kind.Spells piece)
      (hends : kind.Ends piece rest) : Stands rest piece
  | stray {c : Char} (hstray : ∀ (kind : LexemeKind) more, ¬ kind.Spells (c :: more)) :
      Stands rest [c]

/-- The pieces make up the text, and each stands before those that follow it. -/
inductive IsCut : List (List Char) → List Char → Prop where
  | nil : IsCut [] []
  | cons {piece rest : List Char} {pieces : List (List Char)} (hpiece : Stands rest piece)
      (hpieces : IsCut pieces rest) : IsCut (piece :: pieces) (piece ++ rest)

/-- What a piece says: a number the double that its text denotes, a name itself. A stray character
says nothing. -/
inductive IsTokenOf : List Char → Option Token → Prop where
  | number {piece : List Char} {value : Float} (hpiece : IsNumber piece)
      (hvalue : readDouble? piece = some value) : IsTokenOf piece (some (.number value))
  | name {piece : List Char} (hpiece : IsName piece) :
      IsTokenOf piece (some (.name (String.ofList piece)))
  | operator (op : Operator) : IsTokenOf [op.symbol] (some (.operator op))
  | caret : IsTokenOf ['^'] (some .caret)
  | openParen : IsTokenOf ['('] (some .openParen)
  | closeParen : IsTokenOf [')'] (some .closeParen)
  | stray {c : Char} (hstray : ∀ (kind : LexemeKind) more, ¬ kind.Spells (c :: more)) :
      IsTokenOf [c] none

/-! ## Lexemes by the tests of the lexer -/

theorem isNumber_iff {piece : List Char} : IsNumber piece ↔ AllDigits piece
    ∨ ∃ whole fraction, AllDigits whole ∧ AllDigits fraction ∧ piece = whole ++ '.' :: fraction := by
  simp only [IsNumber, IsDigits, AllDigits, isDigit_iff]

/-- A name by the tests of the lexer. -/
theorem isName_iff {piece : List Char} : IsName piece ↔
    ∃ c letters, isNameStart c = true ∧ (∀ d ∈ letters, isNameRest d = true)
      ∧ piece = c :: letters := by
  simp only [IsName, isNameStart_iff, isNameRest_iff]

/-- A name ends where the lexer stops taking its characters. -/
theorem ends_name_iff {piece rest : List Char} :
    LexemeKind.name.Ends piece rest ↔ RunEnds isNameRest rest := by
  simp only [LexemeKind.Ends, RunEnds, isNameRest_eq_false_iff]

/-! ## First characters

The first character of a lexeme tells its kind. So lexemes at the front of one text are of one kind,
and the longest is one only. -/

theorem isNameStart_of_isDigit {c : Char} (h : isDigit c = true) : isNameStart c = false := by
  have hall : ∀ d : Fin 10, isNameStart (digitChar d) = false := by decide
  obtain ⟨d, rfl⟩ := exists_digitChar h
  exact hall d

theorem isDigit_of_isNumber_cons {c : Char} {body : List Char} (h : IsNumber (c :: body)) :
    isDigit c = true := by
  rcases isNumber_iff.mp h with ⟨-, hdigits⟩ | ⟨whole, fraction, ⟨hne, hdigits⟩, -, heq⟩
  · exact hdigits c List.mem_cons_self
  · obtain ⟨d, ds, rfl⟩ := List.exists_cons_of_ne_nil hne
    obtain ⟨rfl, -⟩ := List.cons.inj heq
    exact hdigits c List.mem_cons_self

theorem isNameRest_of_mem_symbols : ∀ c ∈ symbols, isNameRest c = false := by
  have hall : symbols.all (fun c => isNameRest c == false) = true := by decide
  simpa using hall

/-- The kind of the lexemes that start with a character. -/
def LexemeKind.ofChar? (c : Char) : Option LexemeKind :=
  if isDigit c then some .number
  else if isNameStart c then some .name
  else if c ∈ symbols then some .symbol
  else none

namespace LexemeKind

variable {kind : LexemeKind} {c : Char} {piece rest more : List Char}

/-- Every kind of lexeme has a first character. -/
theorem Spells.exists_cons (h : kind.Spells piece) : ∃ c body, piece = c :: body := by
  cases kind with
  | number =>
    rcases h with ⟨hne, -⟩ | ⟨whole, fraction, ⟨hne, -⟩, -, rfl⟩
    · exact List.exists_cons_of_ne_nil hne
    · exact List.exists_cons_of_ne_nil (List.append_ne_nil_of_left_ne_nil hne _)
  | name =>
    obtain ⟨c, letters, -, -, rfl⟩ := h
    exact ⟨c, letters, rfl⟩
  | symbol =>
    obtain ⟨c, -, rfl⟩ := h
    exact ⟨c, [], rfl⟩

/-- The first character of a lexeme decides its kind. -/
theorem Spells.ofChar?_eq {body : List Char} (h : kind.Spells (c :: body)) :
    ofChar? c = some kind := by
  rw [ofChar?]
  cases kind with
  | number => rw [if_pos (isDigit_of_isNumber_cons h)]
  | name =>
    obtain ⟨start, letters, hstart, -, heq⟩ := isName_iff.mp h
    obtain ⟨rfl, -⟩ := List.cons.inj heq
    -- the tests are made in this order, so those before have to fail
    have hdigit : ¬ isDigit c = true := fun hdigit => by
      rw [isNameStart_of_isDigit hdigit] at hstart
      exact nomatch hstart
    rw [if_neg hdigit, if_pos hstart]
  | symbol =>
    obtain ⟨symbol, hmem, heq⟩ := h
    obtain ⟨rfl, -⟩ := List.cons.inj heq
    -- a symbol is neither a digit nor a letter
    have hrest := isNameRest_of_mem_symbols c hmem
    rw [isNameRest, Bool.or_eq_false_iff] at hrest
    rw [if_neg (by simp [hrest.2]), if_neg (by simp [hrest.1]), if_pos hmem]

/-- A lexeme that ends where it does is not the beginning of a longer one of its kind. -/
theorem Ends.eq_nil (hends : kind.Ends piece (more ++ rest)) (hpiece : kind.Spells piece)
    (hlonger : kind.Spells (piece ++ more)) : more = [] := by
  cases kind with
  | number =>
    by_contra hne
    exact hends more hne (List.prefix_append more rest) hlonger
  | name =>
    obtain ⟨c, letters, -, -, rfl⟩ := hpiece
    obtain ⟨c', letters', -, hletters, heq⟩ := isName_iff.mp hlonger
    obtain ⟨-, rfl⟩ := List.cons.inj heq
    -- a character of the longer name would go on with the shorter one
    exact (ends_name_iff.mp hends).eq_nil fun d hd => hletters d (List.mem_append_right letters hd)
  | symbol =>
    obtain ⟨c, -, rfl⟩ := hpiece
    obtain ⟨c', -, heq⟩ := hlonger
    exact (List.cons.inj heq).2

end LexemeKind

namespace Stands

variable {piece piece' rest rest' more : List Char}

theorem ne_nil (h : Stands rest piece) : piece ≠ [] := by
  cases h with
  | lexeme kind hspells hends =>
    obtain ⟨c, body, rfl⟩ := hspells.exists_cons
    exact List.cons_ne_nil c body
  | stray hstray => exact List.cons_ne_nil _ _

/-- Nothing longer can stand where a piece stands. -/
theorem eq_nil (h : Stands (more ++ rest) piece) (hlonger : Stands rest (piece ++ more)) :
    more = [] := by
  generalize hpiece : piece ++ more = longer at hlonger
  cases hlonger with
  | lexeme kind' hspells' hends' =>
    subst hpiece
    cases h with
    | lexeme kind hspells hends =>
      obtain ⟨c, body, rfl⟩ := hspells.exists_cons
      -- both are decided by the same first character
      have hkind : kind = kind' :=
        Option.some.inj (hspells.ofChar?_eq.symm.trans hspells'.ofChar?_eq)
      subst hkind
      exact hends.eq_nil hspells hspells'
    | stray hstray => exact absurd hspells' (hstray kind' more)
  | stray hstray =>
    obtain ⟨c, body, rfl⟩ := List.exists_cons_of_ne_nil h.ne_nil
    -- a stray piece is a single character
    obtain ⟨-, hnil⟩ := List.cons.inj hpiece
    exact (List.append_eq_nil_iff.mp hnil).2

/-- Only one piece can stand at the front of a text. -/
theorem piece_eq (h : Stands rest piece) (h' : Stands rest' piece')
    (heq : piece ++ rest = piece' ++ rest') : piece = piece' := by
  rcases List.append_eq_append_iff.mp heq with ⟨more, rfl, rfl⟩ | ⟨more, rfl, rfl⟩
  · rw [h.eq_nil h', List.append_nil]
  · rw [h'.eq_nil h, List.append_nil]

end Stands

/-- A source has one cut at most: its first piece is decided by the first character and by where it
ends. Induction on the first cut. -/
theorem IsCut.unique {pieces other : List (List Char)} {source : List Char}
    (h : IsCut pieces source) (hother : IsCut other source) : pieces = other := by
  induction h generalizing other with
  | nil =>
    generalize hsource : ([] : List Char) = source at hother
    cases hother with
    | nil => rfl
    | cons hpiece _ => exact absurd (List.append_eq_nil_iff.mp hsource.symm).1 hpiece.ne_nil
  | @cons piece rest pieces hpiece _ ih =>
    generalize hsource : piece ++ rest = source at hother
    cases hother with
    | nil => exact absurd (List.append_eq_nil_iff.mp hsource).1 hpiece.ne_nil
    | cons hpiece' hpieces' =>
      -- the first pieces are equal, so both cuts go on from the same place
      obtain rfl := hpiece.piece_eq hpiece' hsource
      obtain rfl := List.append_cancel_left hsource
      rw [ih hpieces']

/-! ## The pieces of the lexer

One piece after the other: what it is, and that it ends where the rest of the text begins. -/

section Pieces

variable {c : Char} {whole fraction cs rest : List Char}

theorem allDigits_cons_takeWhile (hc : isDigit c = true) (rest : List Char) :
    AllDigits (c :: rest.takeWhile isDigit) :=
  ⟨List.cons_ne_nil _ _, List.forall_mem_cons.mpr ⟨hc, fun _ => List.mem_takeWhile_imp⟩⟩

/-- A point without a digit behind it is no part of a number. Else all digits behind it are. -/
theorem splitFraction_cases (cs : List Char) :
    (splitFraction cs = ([], cs)
        ∧ ∀ fraction rest, AllDigits fraction → cs ≠ '.' :: (fraction ++ rest))
      ∨ ∃ fraction rest, splitFraction cs = (fraction, rest) ∧ cs = '.' :: (fraction ++ rest)
        ∧ AllDigits fraction ∧ RunEnds isDigit rest := by
  -- a fraction starts with a digit
  have hnone : (∀ d more, cs = '.' :: d :: more → isDigit d = false) →
      ∀ fraction rest, AllDigits fraction → cs ≠ '.' :: (fraction ++ rest) := by
    rintro hdigit fraction rest ⟨hne, hdigits⟩ rfl
    obtain ⟨d, more, rfl⟩ := List.exists_cons_of_ne_nil hne
    exact absurd (hdigits d List.mem_cons_self) (by simp [hdigit d (more ++ rest) rfl])
  unfold splitFraction
  split
  · next d more =>
    split
    · next hd =>
      refine .inr ⟨_, _, rfl, ?_, allDigits_cons_takeWhile hd more, runEnds_dropWhile isDigit more⟩
      rw [List.cons_append, List.takeWhile_append_dropWhile]
    · next hd =>
      refine .inl ⟨rfl, hnone fun d' more' heq => ?_⟩
      cases heq
      exact Bool.eq_false_iff.mpr hd
  · next hpoint => exact .inl ⟨rfl, hnone fun d more heq => absurd heq (hpoint d more)⟩

/-- A fraction consists of digits. -/
theorem isDigit_of_mem_splitFraction (cs : List Char) :
    ∀ d ∈ (splitFraction cs).1, isDigit d = true := by
  rcases splitFraction_cases cs with ⟨hsplit, -⟩ | ⟨fraction, rest, hsplit, -, hfraction, -⟩
  · rw [hsplit]
    exact nofun
  · rw [hsplit]
    exact hfraction.2

/-- A number with a fraction is spelled with its point. -/
theorem lexeme_of_ne_nil (whole : List Char) (h : fraction ≠ []) :
    (Piece.number whole fraction).lexeme = whole ++ '.' :: fraction := by
  obtain ⟨d, more, rfl⟩ := List.exists_cons_of_ne_nil h
  rfl

/-- What the lexer cuts off as a number is one. -/
theorem isNumber_lexeme (hwhole : AllDigits whole) (hfraction : ∀ d ∈ fraction, isDigit d = true) :
    IsNumber (Piece.number whole fraction).lexeme := by
  rw [isNumber_iff]
  cases fraction with
  | nil => exact .inl hwhole
  | cons d more => exact .inr ⟨whole, d :: more, hwhole, ⟨List.cons_ne_nil d more, hfraction⟩, rfl⟩

/-- Digits that are followed by no digit are the whole part of every number that starts there. -/
theorem isNumber_append (hwhole : AllDigits whole) (hrest : RunEnds isDigit rest)
    (h : IsNumber (whole ++ rest)) :
    rest = [] ∨ ∃ fraction, AllDigits fraction ∧ rest = '.' :: fraction := by
  have hpoint : ∀ ds, RunEnds isDigit ('.' :: ds) := runEnds_cons rfl
  rcases isNumber_iff.mp h with ⟨-, hdigits⟩ | ⟨whole', fraction, hwhole', hfraction, heq⟩
  · rw [← List.append_nil rest] at hrest
    exact .inl (hrest.eq_nil fun d hd => hdigits d (List.mem_append_right whole hd))
  · obtain ⟨-, rfl⟩ := append_inj_of_runs hwhole.2 hwhole'.2 hrest (hpoint fraction) heq
    exact .inr ⟨fraction, hfraction, rfl⟩

/-- What the lexer cuts off as a number ends there: a point that is left behind has no digit to go
with it. -/
theorem ends_number (hwhole : AllDigits whole) (hcs : RunEnds isDigit cs) :
    LexemeKind.number.Ends (Piece.number whole (splitFraction cs).1).lexeme
      (splitFraction cs).2 := by
  intro more hne hprefix hnumber
  obtain ⟨back, hback⟩ := hprefix
  rcases splitFraction_cases cs with
    ⟨hsplit, hnone⟩ | ⟨fraction, rest, hsplit, rfl, ⟨hfraction, hdigits⟩, hrest⟩
  · rw [hsplit] at hback hnumber
    subst hback
    rcases isNumber_append hwhole hcs.of_append hnumber with rfl | ⟨fraction, hfraction, rfl⟩
    · exact hne rfl
    · exact hnone fraction back hfraction rfl
  · rw [hsplit] at hback hnumber
    subst hback
    obtain ⟨d, ds, rfl⟩ := List.exists_cons_of_ne_nil hfraction
    rw [Piece.lexeme, List.append_assoc] at hnumber
    rcases isNumber_append hwhole (runEnds_cons rfl _) hnumber with hnil | ⟨longer, hlonger, heq⟩
    · exact absurd hnil (List.cons_ne_nil _ _)
    · -- the digits would go on where they end
      obtain rfl := (List.cons.inj heq).2
      exact hne (hrest.eq_nil fun d' hd' => hlonger.2 d' (List.mem_append_right (d :: ds) hd'))

/-- The characters that neither a number nor a name starts with are symbols or start nothing. -/
theorem ofChar?_of_single (hdigit : ¬ isDigit c = true) (hname : ¬ isNameStart c = true) :
    LexemeKind.ofChar? c = if c ∈ symbols then some .symbol else none := by
  rw [LexemeKind.ofChar?, if_neg hdigit, if_neg hname]

/-- Each symbol is the token that stands for it. -/
theorem symbolToken?_of_mem_symbols : ∀ c ∈ symbols, IsTokenOf [c] (symbolToken? c) := by
  simp only [symbols, List.forall_mem_cons]
  exact ⟨.operator .add, .operator .sub, .operator .mul, .operator .div, .caret, .openParen,
    .closeParen, nofun⟩

theorem symbolToken?_of_notMem_symbols (h : c ∉ symbols) : symbolToken? c = none := by
  unfold symbolToken?
  split
  case h_8 => rfl
  all_goals exact absurd (by decide) h

theorem stray_of_ofChar? (h : LexemeKind.ofChar? c = none) (kind : LexemeKind)
    (more : List Char) : ¬ kind.Spells (c :: more) := fun hspells =>
  nomatch h.symm.trans hspells.ofChar?_eq

/-- The first piece that the lexer cuts off stands in front of what it leaves. The cases are those
of the first character. -/
theorem stands_splitPiece (c : Char) (rest : List Char) :
    Stands (splitPiece c rest).2 (splitPiece c rest).1.lexeme := by
  unfold splitPiece
  split
  · next hdigit =>
    have hwhole := allDigits_cons_takeWhile hdigit rest
    exact .lexeme .number (isNumber_lexeme hwhole (isDigit_of_mem_splitFraction _))
      (ends_number hwhole (runEnds_dropWhile isDigit rest))
  · split
    · next hname =>
      exact .lexeme .name (isName_iff.mpr ⟨c, _, hname, fun _ => List.mem_takeWhile_imp, rfl⟩)
        (ends_name_iff.mpr (runEnds_dropWhile isNameRest rest))
    · next hdigit hname =>
      -- a character that starts neither a number nor a name is a symbol or stray
      have hkind := ofChar?_of_single hdigit hname
      by_cases hmem : c ∈ symbols
      · exact .lexeme .symbol ⟨c, hmem, rfl⟩ trivial
      · rw [if_neg hmem] at hkind
        exact .stray (stray_of_ofChar? hkind)

/-! ## The double of a number -/

theorem splitSign_of_isDigit (hdigit : isDigit c = true) (cs : List Char) :
    splitSign (c :: cs) = (false, c :: cs) := by
  unfold splitSign
  split
  · next heq =>
    obtain ⟨rfl, -⟩ := List.cons.inj heq
    exact absurd hdigit (by decide)
  · next heq =>
    obtain ⟨rfl, -⟩ := List.cons.inj heq
    exact absurd hdigit (by decide)
  · rfl

/-- A text that starts with a digit is no word. -/
theorem readUnsigned?_of_isDigit (hdigit : isDigit c = true) (cs : List Char) :
    readUnsigned? (c :: cs) = readNumeral? (c :: cs) := by
  have hall : ∀ d : Fin 10, (digitChar d).toLower ≠ 'i' ∧ (digitChar d).toLower ≠ 'n' := by decide
  obtain ⟨d, rfl⟩ := exists_digitChar hdigit
  have hword : ∀ first word, (digitChar d).toLower ≠ first →
      (digitChar d :: cs).map Char.toLower ≠ first :: word :=
    fun _ _ hne heq => hne (List.cons.inj heq).1
  have hinfinity := not_or.mpr
    ⟨hword 'i' "nf".toList (hall d).1, hword 'i' "nfinity".toList (hall d).1⟩
  exact (if_neg hinfinity).trans (if_neg (hword 'n' "an".toList (hall d).2))

/-- The digits of a number and of its fraction are what the reader of decimals finds in its
lexeme. -/
theorem readNumeral?_lexeme (hwhole : AllDigits whole)
    (hfraction : ∀ d ∈ fraction, isDigit d = true) :
    readNumeral? (Piece.number whole fraction).lexeme = some (ofDigits whole fraction) := by
  have htake : ∀ rest, RunEnds isDigit rest → (whole ++ rest).takeWhile isDigit = whole :=
    fun rest hrest => (takeWhile_append hrest).trans (List.takeWhile_eq_self_iff.mpr hwhole.2)
  have hdrop : ∀ rest, RunEnds isDigit rest → (whole ++ rest).dropWhile isDigit = rest := by
    intro rest hrest
    rw [dropWhile_append hrest, List.dropWhile_eq_nil_iff.mpr hwhole.2, List.nil_append]
  -- the exponent is zero
  have hvalue : ∀ ds : List Char, (readExponent? []).map (fun e =>
      nearest (valueOf (whole ++ ds)) (e - ds.length)) = some (ofDigits whole ds) := by
    intro ds
    show some (nearest _ (0 - (ds.length : Int))) = _
    rw [Int.zero_sub, ofDigits]
  cases fraction with
  | nil =>
    have hread := htake [] nofun
    have hrest := hdrop [] nofun
    rw [List.append_nil] at hread hrest
    rw [Piece.lexeme, readNumeral?, hread, hrest]
    exact (if_neg fun hnil => hwhole.1 hnil.1).trans (hvalue [])
  | cons d more =>
    have hpoint : RunEnds isDigit ('.' :: d :: more) := runEnds_cons rfl _
    rw [Piece.lexeme, readNumeral?, htake _ hpoint, hdrop _ hpoint]
    show (if whole = [] ∧ (d :: more).takeWhile isDigit = [] then none
      else (readExponent? ((d :: more).dropWhile isDigit)).map fun e =>
        nearest (valueOf (whole ++ (d :: more).takeWhile isDigit))
          (e - ((d :: more).takeWhile isDigit).length)) = _
    rw [List.takeWhile_eq_self_iff.mpr hfraction, List.dropWhile_eq_nil_iff.mpr hfraction]
    exact (if_neg fun hnil => hwhole.1 hnil.1).trans (hvalue (d :: more))

/-- A number reads as the double of its digits: no word such as infinity starts with a digit. -/
theorem readDouble?_lexeme (hwhole : AllDigits whole)
    (hfraction : ∀ d ∈ fraction, isDigit d = true) :
    readDouble? (Piece.number whole fraction).lexeme = some (ofDigits whole fraction) := by
  have hread := readNumeral?_lexeme hwhole hfraction
  have hnumber : IsNumber (Piece.number whole fraction).lexeme := isNumber_lexeme hwhole hfraction
  have hspells : LexemeKind.number.Spells (Piece.number whole fraction).lexeme := hnumber
  obtain ⟨c, body, hcons⟩ := hspells.exists_cons
  rw [hcons] at hnumber hread ⊢
  -- the lexeme starts with a digit, so it has no sign and is no word
  have hdigit := isDigit_of_isNumber_cons hnumber
  rw [readDouble?, splitSign_of_isDigit hdigit]
  show (readUnsigned? (c :: body)).map _ = _
  rw [readUnsigned?_of_isDigit hdigit, hread]
  rfl

/-- The first piece that the lexer cuts off is read as the token of its lexeme. -/
theorem isTokenOf_splitPiece (c : Char) (rest : List Char) :
    IsTokenOf (splitPiece c rest).1.lexeme (splitPiece c rest).1.token? := by
  unfold splitPiece
  split
  · next hdigit =>
    have hwhole := allDigits_cons_takeWhile hdigit rest
    have hfraction := isDigit_of_mem_splitFraction (rest.dropWhile isDigit)
    exact .number (isNumber_lexeme hwhole hfraction) (readDouble?_lexeme hwhole hfraction)
  · split
    · next hname => exact .name (isName_iff.mpr ⟨c, _, hname, fun _ => List.mem_takeWhile_imp, rfl⟩)
    · next hdigit hname =>
      have hkind := ofChar?_of_single hdigit hname
      -- a single character is read by the table of symbols
      show IsTokenOf [c] (symbolToken? c)
      by_cases hmem : c ∈ symbols
      · exact symbolToken?_of_mem_symbols c hmem
      · rw [symbolToken?_of_notMem_symbols hmem]
        rw [if_neg hmem] at hkind
        exact .stray (stray_of_ofChar? hkind)

end Pieces

/-! ## Whole texts -/

/-- **The lexer cuts a text into pieces that stand where they do.** -/
theorem isCut_cut (source : List Char) : IsCut ((cut source).map Piece.lexeme) source := by
  fun_induction cut source with
  | case1 => exact .nil
  | case2 c rest ih =>
    have hcut := IsCut.cons (stands_splitPiece c rest) ih
    rw [lexeme_splitPiece] at hcut
    exact hcut

/-- Every piece of a source is read as the token of its lexeme. -/
theorem isTokenOf_of_mem_cut {source : List Char} {piece : Piece} (h : piece ∈ cut source) :
    IsTokenOf piece.lexeme piece.token? := by
  fun_induction cut source with
  | case1 => exact absurd h List.not_mem_nil
  | case2 c rest ih =>
    rcases List.mem_cons.mp h with rfl | hmem
    · exact isTokenOf_splitPiece c rest
    · exact ih hmem

/-- Every word is what some lexeme says. -/
theorem exists_isTokenOf {source : String} {token : Token} (h : token ∈ tokenize source) :
    ∃ lexeme, IsTokenOf lexeme (some token) := by
  obtain ⟨piece, hmem, htoken⟩ := List.mem_filterMap.mp h
  have hpiece := isTokenOf_of_mem_cut hmem
  rw [htoken] at hpiece
  exact ⟨piece.lexeme, hpiece⟩

/-- **The lexer is leftmost-longest tokenization.** There is exactly one way to cut a text into
pieces that stand where they do, and the tokens are those of the pieces, in order. White space is
never one of them. -/
theorem tokenize_longest (source : String) :
    ∃ pieces tokens, IsCut pieces source.toList
      ∧ (∀ other, IsCut other source.toList → other = pieces)
      ∧ List.Forall₂ IsTokenOf pieces tokens
      ∧ tokenize source = tokens.reduceOption
      ∧ .blank ∉ tokenize source := by
  have hcut := isCut_cut source.toList
  -- each piece of the cut is read by itself
  have htokens : List.Forall₂ IsTokenOf ((cut source.toList).map Piece.lexeme)
      ((cut source.toList).map Piece.token?) := by
    rw [List.forall₂_map_left_iff, List.forall₂_map_right_iff, List.forall₂_same]
    exact fun piece hmem => isTokenOf_of_mem_cut hmem
  refine ⟨_, _, hcut, fun other hother => hother.unique hcut, htokens, ?_, fun hblank => ?_⟩
  · rw [tokenize, List.reduceOption, List.filterMap_map]
    rfl
  · obtain ⟨piece, hmem, htoken⟩ := List.mem_filterMap.mp hblank
    have hpiece := isTokenOf_of_mem_cut hmem
    replace htoken : piece.token? = some .blank := htoken
    rw [htoken] at hpiece
    -- a blank is the token of no lexeme
    generalize piece.lexeme = lexeme at hpiece
    cases hpiece

end FormulaSheet
