import FormulaSheet.Json.Quoted
import FormulaSheet.Json.Value

/-!
# FormulaSheet — writing JSON

A value is written in one line, or with a line for every item and member, indented by two
spaces for every container around it.
-/

namespace FormulaSheet.Json

def Number.text : Number → List Char
  | integer n => (toString n).toList
  | double x => (Decimal.exchangeLayout.write x).toList

/-- A line break and the indentation of the line behind it. -/
def newLine (depth : Nat) : List Char := '\n' :: List.replicate (2 * depth) ' '

namespace Value

mutual

/-- The value in one line. -/
def compact : Value → List Char
  | null => "null".toList
  | boolean b => (toString b).toList
  | number n => n.text
  | string s => quote s
  | array items => '[' :: compactItems true items
  | object members => '\x7b' :: compactMembers true members

/-- The items of an array and its closing bracket. -/
def compactItems : Bool → List Value → List Char
  | _, [] => [']']
  | isFirst, item :: rest =>
    (if isFirst then [] else [',']) ++ compact item ++ compactItems false rest

/-- The members of an object and its closing brace. -/
def compactMembers : Bool → List (String × Value) → List Char
  | _, [] => ['\x7d']
  | isFirst, (key, item) :: rest =>
    (if isFirst then [] else [',']) ++ quote key ++ ':' :: compact item
      ++ compactMembers false rest

end

mutual

/-- The value on lines of its own, `depth` containers deep. -/
def pretty (depth : Nat) : Value → List Char
  | null => "null".toList
  | boolean b => (toString b).toList
  | number n => n.text
  | string s => quote s
  | array [] => ['[', ']']
  | array (item :: rest) => '[' :: prettyItems depth true (item :: rest)
  | object [] => ['\x7b', '\x7d']
  | object (member :: rest) => '\x7b' :: prettyMembers depth true (member :: rest)

/-- The items of an array at `depth`, and its closing bracket on a line of its own. -/
def prettyItems (depth : Nat) : Bool → List Value → List Char
  | _, [] => newLine depth ++ [']']
  | isFirst, item :: rest =>
    (if isFirst then [] else [',']) ++ newLine (depth + 1) ++ pretty (depth + 1) item
      ++ prettyItems depth false rest

/-- The members of an object at `depth`, and its closing brace on a line of its own. -/
def prettyMembers (depth : Nat) : Bool → List (String × Value) → List Char
  | _, [] => newLine depth ++ ['\x7d']
  | isFirst, (key, item) :: rest =>
    (if isFirst then [] else [',']) ++ newLine (depth + 1) ++ quote key ++ ':' :: ' '
      :: pretty (depth + 1) item ++ prettyMembers depth false rest

end

end Value

end FormulaSheet.Json
