/-!
# FormulaSheet — what can be wrong with a formula
-/

namespace FormulaSheet

/-- Why a list of tokens is no formula. -/
inductive ParseError where
  /-- A name out of scope, or a word that cannot start an operand. -/
  | unknownIdentifier (name : String)
  /-- A `(` is not closed where it has to be. -/
  | missingParen
  /-- The formula ends where an operand has to stand. -/
  | unexpectedEnd
  /-- A whole formula is followed by another word. -/
  | trailingTokens (token : String)
  /-- The formula holds more operators and parentheses than its budget. -/
  | tooComplex (limit : Nat)
deriving DecidableEq, Repr

def ParseError.message : ParseError → String
  | unknownIdentifier name => "Unknown identifier '" ++ name ++ "'."
  | missingParen => "Missing closing parenthesis ')'."
  | unexpectedEnd => "Unexpected end of expression."
  | trailingTokens token => "Unexpected token '" ++ token ++ "' after expression."
  | tooComplex limit =>
    "Expression is too complex (more than " ++ toString limit ++ " operators and parentheses)."

end FormulaSheet
