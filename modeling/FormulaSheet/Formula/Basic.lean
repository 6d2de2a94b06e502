import FormulaSheet.Decimal.Fixed
import FormulaSheet.Formula.Operator

/-!
# FormulaSheet — formula trees

The tree of a formula. Literals and operators carry their origin: a tree on display may
hold nodes that a buff put around what was written. The origin is for showing only, and
evaluation never looks at it.
-/

namespace FormulaSheet

/-- Where a node of a tree comes from. -/
inductive Origin where
  | parsed
  /-- An active buff put it there. -/
  | buff
deriving DecidableEq, Repr

/-- The tree of a formula. -/
inductive Formula where
  | literal (value : Float) (origin : Origin)
  | binary (op : Operator) (left right : Formula) (origin : Origin)
  /-- The value of a named row. -/
  | reference (name : String)
  /-- A formula in parentheses. They matter to the text only. -/
  | group (inner : Formula)
deriving DecidableEq

namespace Formula

/-- The origin of the root. References and groups are always written. -/
def origin : Formula → Origin
  | literal _ origin => origin
  | binary _ _ _ origin => origin
  | reference _ => .parsed
  | group _ => .parsed

def containsBuff : Formula → Bool
  | literal _ origin => origin == .buff
  | binary _ left right origin => origin == .buff || left.containsBuff || right.containsBuff
  | reference _ => false
  | group inner => inner.containsBuff

def isBinary : Formula → Bool
  | binary .. => true
  | _ => false

/-- The number of operators and groups, which is what a formula's complexity counts. -/
def weight : Formula → Nat
  | literal .. => 0
  | binary _ left right _ => left.weight + right.weight + 1
  | reference _ => 0
  | group inner => inner.weight + 1

/-- The formula as it reads, operators between their operands. No parentheses are added. -/
def text : Formula → String
  | literal value _ => Decimal.formatNumber value
  | binary op left right _ => left.text ++ " " ++ op.text ++ " " ++ right.text
  | reference name => name
  | group inner => "(" ++ inner.text ++ ")"

/-- The value of a formula under an assignment of values to names. -/
def eval (valueOf : String → Float) : Formula → Float
  | literal value _ => value
  | binary op left right _ => op.apply (left.eval valueOf) (right.eval valueOf)
  | reference name => valueOf name
  | group inner => inner.eval valueOf

end Formula

end FormulaSheet
