import FormulaSheet.Decimal.Reader
import FormulaSheet.Formula.Token

/-!
# FormulaSheet — from source text to tokens

A source text is cut into consecutive pieces, each as long as it can be: a number, a name,
a symbol, or a single character that starts none of these. `cut` loses nothing
(`flatMap_lexeme_cut`); `tokenize` keeps the tokens of the pieces and drops the characters
that have none.
-/

namespace FormulaSheet

/-- Letters of ASCII and the underscore start a name. -/
def isNameStart (c : Char) : Bool :=
  ('a' ≤ c && c ≤ 'z') || ('A' ≤ c && c ≤ 'Z') || c == '_'

/-- A name goes on with letters, digits and underscores. -/
def isNameRest (c : Char) : Bool := isNameStart c || Decimal.isDigit c

/-- The token of a character that is one on its own. -/
def symbolToken? : Char → Option Token
  | '+' => some (.operator .add)
  | '-' => some (.operator .sub)
  | '*' => some (.operator .mul)
  | '/' => some (.operator .div)
  | '^' => some .caret
  | '(' => some .openParen
  | ')' => some .closeParen
  | _ => none

/-- A stretch of source text. -/
inductive Piece where
  /-- Digits, and those after a decimal point if there are any. -/
  | number (whole fraction : List Char)
  | name (letters : List Char)
  /-- A character on its own: a symbol, or one that is dropped. -/
  | single (c : Char)
deriving DecidableEq, Repr

namespace Piece

/-- The source text of a piece. -/
def lexeme : Piece → List Char
  | number whole [] => whole
  | number whole (d :: fraction) => whole ++ '.' :: d :: fraction
  | name letters => letters
  | single c => [c]

/-- The token of a piece, if it has one. -/
def token? : Piece → Option Token
  | number whole fraction => some (.number (Decimal.ofDigits whole fraction))
  | name letters => some (.name (String.ofList letters))
  | single c => symbolToken? c

end Piece

/-- The digits after a decimal point, and what follows them. A point without a digit
behind it is none. -/
def splitFraction (cs : List Char) : List Char × List Char :=
  match cs with
  | '.' :: d :: rest =>
    if Decimal.isDigit d then
      (d :: rest.takeWhile Decimal.isDigit, rest.dropWhile Decimal.isDigit)
    else ([], cs)
  | _ => ([], cs)

/-- The longest piece that starts with `c`, and what follows it. -/
def splitPiece (c : Char) (rest : List Char) : Piece × List Char :=
  if Decimal.isDigit c then
    let (fraction, after) := splitFraction (rest.dropWhile Decimal.isDigit)
    (.number (c :: rest.takeWhile Decimal.isDigit) fraction, after)
  else if isNameStart c then
    (.name (c :: rest.takeWhile isNameRest), rest.dropWhile isNameRest)
  else (.single c, rest)

theorem splitFraction_snd_length (cs : List Char) :
    (splitFraction cs).2.length ≤ cs.length := by
  unfold splitFraction
  split
  · split
    · have := (List.dropWhile_sublist Decimal.isDigit (l := by assumption)).length_le
      simp only [List.length_cons]
      omega
    · exact Nat.le_refl _
  · exact Nat.le_refl _

/-- A piece takes its first character, so less is left. -/
theorem splitPiece_snd_length (c : Char) (rest : List Char) :
    (splitPiece c rest).2.length ≤ rest.length := by
  unfold splitPiece
  split
  · exact Nat.le_trans (splitFraction_snd_length _)
      (List.dropWhile_sublist Decimal.isDigit).length_le
  · split
    · exact (List.dropWhile_sublist isNameRest).length_le
    · exact Nat.le_refl _

/-- The pieces of a text, from left to right. -/
def cut : List Char → List Piece
  | [] => []
  | c :: rest => (splitPiece c rest).1 :: cut (splitPiece c rest).2
termination_by cs => cs.length
decreasing_by exact Nat.lt_succ_of_le (splitPiece_snd_length c rest)

theorem lexeme_splitFraction (whole cs : List Char) :
    (Piece.number whole (splitFraction cs).1).lexeme ++ (splitFraction cs).2 = whole ++ cs := by
  unfold splitFraction
  split
  · split
    · simp [Piece.lexeme, List.takeWhile_append_dropWhile]
    · rfl
  · rfl

/-- A piece and what follows it make up the text. -/
theorem lexeme_splitPiece (c : Char) (rest : List Char) :
    (splitPiece c rest).1.lexeme ++ (splitPiece c rest).2 = c :: rest := by
  unfold splitPiece
  split
  · simp only [lexeme_splitFraction, List.cons_append, List.takeWhile_append_dropWhile]
  · split
    · simp [Piece.lexeme, List.takeWhile_append_dropWhile]
    · rfl

/-- The pieces make up the text. -/
theorem flatMap_lexeme_cut (cs : List Char) : (cut cs).flatMap Piece.lexeme = cs := by
  fun_induction cut cs with
  | case1 => rfl
  | case2 c rest ih => rw [List.flatMap_cons, ih, lexeme_splitPiece]

def tokenize (source : String) : List Token :=
  (cut source.toList).filterMap Piece.token?

end FormulaSheet
