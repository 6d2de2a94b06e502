import FormulaSheet.Formula.Basic
import FormulaSheet.Formula.Error
import FormulaSheet.Formula.Token

/-!
# FormulaSheet — the grammar of formulas

The rules are

    expression     := additive
    additive       := multiplicative (("+" | "-") multiplicative)*
    multiplicative := primary (("*" | "/") primary)*
    primary        := number | name | "(" expression ")"

Both chains associate to the left. Every operator and every parenthesis spends one unit of
a budget before what follows it is read, so the budget bounds the size of every tree. A
rule that fails leaves the cursor where it stopped.

The recursion is on the number of tokens that are left: every rule but the empty chain
takes one, so a bound that starts there is never met with tokens left.
-/

namespace FormulaSheet

/-- The names that a formula may refer to. -/
abbrev Scope := String → Bool

/-- The tokens still to be read, and the budget left for operators and parentheses. -/
structure Cursor where
  rest : List Token
  /-- The budget at the start; errors report it. -/
  limit : Nat
  /-- How much of the budget is left. -/
  remaining : Nat
deriving DecidableEq

/-- A cursor in front of `tokens` with a whole budget of `limit`. -/
def Cursor.start (tokens : List Token) (limit : Nat) : Cursor := ⟨tokens, limit, limit⟩

/-- A grammar rule moves the cursor, and gives a tree or fails. -/
abbrev Rule := EStateM ParseError Cursor Formula

namespace Grammar

def next? : EStateM ParseError Cursor (Option Token) :=
  modifyGet fun cursor => (cursor.rest.head?, { cursor with rest := cursor.rest.tail })

/-- The operator that comes next, if it is one of the level; it is not taken. -/
def peek? (level : Level) : EStateM ParseError Cursor (Option Operator) := do
  return ((← get).rest.head?.bind Token.operator?).filter (·.level == level)

/-- Spends one unit of the budget. -/
def spend : EStateM ParseError Cursor Unit := do
  let cursor ← get
  match cursor.remaining with
  | 0 => throw (.tooComplex cursor.limit)
  | remaining + 1 => set { cursor with remaining := remaining }

/-- An operand on its own; `inner` reads what stands in parentheses. -/
def primary (scope : Scope) (inner : Rule) : Rule := do
  match ← next? with
  | none => throw .unexpectedEnd
  | some (.number value) => return .literal value .parsed
  | some .openParen => do
    spend
    let tree ← inner
    match ← next? with
    | some .closeParen => return .group tree
    | _ => throw .missingParen
  | some (.name name) =>
    if scope name then return .reference name else throw (.unknownIdentifier name)
  | some token => throw (.unknownIdentifier token.text)

/-- Extends `left` by operators of one level and their right operands, as long as they come.
The bound is at least the number of tokens left. -/
def links (level : Level) (operand : Rule) : Nat → Formula → Rule
  | 0, left => return left
  | bound + 1, left => do
    match ← peek? level with
    | none => return left
    | some op => do
      let _ ← next?
      -- an operator is paid for before its right operand is read
      spend
      let right ← operand
      links level operand bound (.binary op left right .parsed)

/-- Operands of one kind, joined by the operators of one level. -/
def chain (level : Level) (operand : Rule) : Rule := do
  let first ← operand
  links level operand (← get).rest.length first

/-- `primary (("*" | "/") primary)*` -/
def multiplicative (scope : Scope) (inner : Rule) : Rule :=
  chain .multiplicative (primary scope inner)

/-- `multiplicative (("+" | "-") multiplicative)*` -/
def additive (scope : Scope) (inner : Rule) : Rule :=
  chain .additive (multiplicative scope inner)

/-- An expression of at most `bound` tokens. -/
def bounded (scope : Scope) : Nat → Rule
  | 0 => throw .unexpectedEnd
  | bound + 1 => additive scope (bounded scope bound)

def expression (scope : Scope) : Rule := do
  bounded scope (← get).rest.length

end Grammar

/-- The rules of the grammar. -/
inductive GrammarRule where
  | expression
  | additive
  | multiplicative
  | primary
deriving DecidableEq, Repr

def GrammarRule.read (scope : Scope) : GrammarRule → Rule
  | expression => Grammar.expression scope
  | additive => Grammar.additive scope (Grammar.expression scope)
  | multiplicative => Grammar.multiplicative scope (Grammar.expression scope)
  | primary => Grammar.primary scope (Grammar.expression scope)

/-- The most operators and parentheses that the formula of a row may hold. -/
def complexityLimit : Nat := 512

/-- The tree of a whole list of tokens: one expression, and nothing after it. -/
def parse (scope : Scope) (tokens : List Token) : Except ParseError Formula :=
  match Grammar.expression scope (Cursor.start tokens complexityLimit) with
  | .ok tree cursor =>
    match cursor.rest with
    | [] => .ok tree
    | token :: _ => .error (.trailingTokens token.text)
  | .error e _ => .error e

end FormulaSheet
