/-!
# FormulaSheet — operators

The four arithmetic operators, on two levels of binding strength.
-/

namespace FormulaSheet

/-- How tightly an operator binds. -/
inductive Level where
  /-- `+` and `-`. -/
  | additive
  /-- `*` and `/`, which bind tighter. -/
  | multiplicative
deriving DecidableEq, Repr

inductive Operator where
  | add
  | sub
  | mul
  | div
deriving DecidableEq, Repr

namespace Operator

def level : Operator → Level
  | add | sub => .additive
  | mul | div => .multiplicative

/-- The operators of sums are plus and minus. -/
theorem level_eq_additive_iff {op : Operator} : op.level = .additive ↔ op = .add ∨ op = .sub := by
  cases op <;> decide

/-- The operators of products are times and divided by. -/
theorem level_eq_multiplicative_iff {op : Operator} :
    op.level = .multiplicative ↔ op = .mul ∨ op = .div := by
  cases op <;> decide

/-- The double arithmetic of the operator. A division by zero gives an infinity or NaN. -/
def apply : Operator → Float → Float → Float
  | add, x, y => x + y
  | sub, x, y => x - y
  | mul, x, y => x * y
  | div, x, y => x / y

def symbol : Operator → Char
  | add => '+'
  | sub => '-'
  | mul => '*'
  | div => '/'

def text (op : Operator) : String := String.singleton op.symbol

end Operator

end FormulaSheet
