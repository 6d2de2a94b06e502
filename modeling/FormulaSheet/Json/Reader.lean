import FormulaSheet.Json.Numeral
import FormulaSheet.Json.Quoted

/-!
# FormulaSheet — reading JSON from left to right

A reader takes what it needs off the front of a text or fails. There are readers for the
punctuation of arrays and objects, for whole values, and for values of one kind, which say
what they found instead if it is another.

Nesting is bounded: a reader of values is told how many containers may still be opened
inside of each other.
-/

namespace FormulaSheet.Json

/-- Takes a value off the front of a text. -/
abbrev Reader := StateT (List Char) (Except Error)

/-- Blanks between the parts of a text. -/
def isJsonBlank (c : Char) : Bool :=
  c == ' ' || c == '\n' || c == '\t' || c == '\r'

namespace Reader

/-- Fails because the value does not fit. -/
def refuse {α : Type} (reason : Mismatch) : Reader α := throw (.mismatch reason)

/-- A reader that is given as a function on the text. -/
def ofFunction {α : Type} (f : List Char → Except Error (α × List Char)) : Reader α := f

def drop : Reader Unit := modify List.tail

/-- Passes over blanks, and shows the character behind them. -/
def peek? : Reader (Option Char) := do
  modify (List.dropWhile isJsonBlank)
  return (← get).head?

def length : Reader Nat := do
  return (← get).length

/-! ## Words, strings and numbers -/

/-- Takes the characters of a word one by one. -/
def word : List Char → Reader Unit
  | [] => return
  | expected :: more => do
    match (← get).head? with
    | none => throw .truncated
    | some c =>
      if c = expected then
        drop
        word more
      else throw .malformed

/-- A string, from behind its opening mark on. -/
def body : Reader String := ofFunction (readBody [])

/-- A number, from its first character on. -/
def number : Reader Number := ofFunction readNumber

/-- Can a number start with this character? -/
def startsNumber (c : Char) : Bool := c == '-' || Decimal.isDigit c

/-! ## Punctuation -/

/-- Before an item of an array: does another one follow? If so the comma between the two is
taken, if not the closing bracket is left. -/
def another? (isFirst : Bool) : Reader Bool := do
  match ← peek? with
  | none => throw .truncated
  | some c =>
    if c = ']' then return false
    else if isFirst then return true
    else if c = ',' then
      drop
      match ← peek? with
      | none => throw .truncated
      | some d => if d = ']' then throw .malformed else return true
    else throw .malformed

/-- The key of the next member of an object. If there is none the closing brace is left. -/
def key? (isFirst : Bool) : Reader (Option String) := do
  match ← peek? with
  | none => throw .truncated
  | some c =>
    if c = '\x7d' then return none
    else if isFirst then
      if c = '"' then
        drop
        return some (← body)
      else throw .malformed
    else if c = ',' then
      drop
      match ← peek? with
      | none => throw .truncated
      | some d =>
        if d = '"' then
          drop
          return some (← body)
        else throw .malformed
    else throw .malformed

/-- The colon between a key and its value. -/
def colon : Reader Unit := do
  match ← peek? with
  | none => throw .truncated
  | some c => if c = ':' then drop else throw .malformed

/-! ## Arrays and objects -/

/-- The items of an array up to its closing bracket. Every item takes a character, so the
number of characters bounds the recursion. -/
def items {α : Type} (item : Reader α) : Nat → Bool → Reader (List α)
  | 0, _ => throw .truncated
  | bound + 1, isFirst => do
    if ← another? isFirst then
      let x ← item
      return x :: (← items item bound false)
    else return []

/-- An array from its opening bracket to its closing one. -/
def array {α : Type} (item : Reader α) : Reader (List α) := do
  drop
  let xs ← items item ((← length) + 1) true
  drop
  return xs

/-- The members of an object up to its closing brace. -/
def members {α : Type} (item : Reader α) : Nat → Bool → Reader (List (String × α))
  | 0, _ => throw .truncated
  | bound + 1, isFirst => do
    match ← key? isFirst with
    | none => return []
    | some key =>
      colon
      let x ← item
      return (key, x) :: (← members item bound false)

/-- An object from its opening brace to its closing one. -/
def object {α : Type} (item : Reader α) : Reader (List (String × α)) := do
  drop
  let xs ← members item ((← length) + 1) true
  drop
  return xs

/-! ## Values -/

/-- A value without containers. -/
def scalar : Reader Value := do
  match ← peek? with
  | none => throw .truncated
  | some c =>
    if c = 'n' then
      word "null".toList
      return .null
    else if c = 't' then
      word "true".toList
      return .boolean true
    else if c = 'f' then
      word "false".toList
      return .boolean false
    else if c = '"' then
      drop
      return .string (← body)
    else if startsNumber c then
      return .number (← number)
    else throw .malformed

/-- A value in which at most `room` containers are nested in each other. -/
def value : Nat → Reader Value
  | 0 => scalar
  | room + 1 => do
    match ← peek? with
    | none => throw .truncated
    | some c =>
      if c = '[' then return .array (← array (value room))
      else if c = '\x7b' then return .object (← object (value room))
      else scalar

/-! ## Values of one kind -/

/-- What stands next, as far as it takes to name it. -/
def found : Reader Found := do
  match ← peek? with
  | none => throw .truncated
  | some c =>
    if c = '[' then return .array
    else if c = '\x7b' then return .object
    else
      match ← scalar with
      | .boolean b => return .boolean b
      | .number (.integer n) => return .integer n
      | .number (.double x) => return .double x
      | .string s => return .string s
      | _ => return .null

/-- Fails, naming what stands next and what is expected there. -/
def refuseFound {α : Type} (expected : String) : Reader α := do
  refuse (.wrongType (← found) expected)

/-- A text. -/
def text : Reader String := do
  match ← peek? with
  | none => throw .truncated
  | some c =>
    if c = '"' then
      drop
      body
    else refuseFound "a string"

/-- A `null` that carries no information. -/
def null : Reader Unit := do
  match ← peek? with
  | none => throw .truncated
  | some c => if c = 'n' then word "null".toList else refuseFound "unit"

/-- A value, or `null` for its absence. -/
def optional {α : Type} (item : Reader α) : Reader (Option α) := do
  match ← peek? with
  | none => throw .truncated
  | some c =>
    if c = 'n' then
      word "null".toList
      return none
    else return some (← item)

/-- A list in which `item` reads the items; `room` bounds the nesting. -/
def list {α : Type} (item : Nat → Reader α) (room : Nat) : Reader (List α) := do
  match ← peek? with
  | none => throw .truncated
  | some c =>
    if c = '[' then
      match room with
      | 0 => throw .malformed
      | room + 1 => array (item room)
    else refuseFound "a sequence"

/-- A whole number of 32 bits. -/
def word32 : Reader UInt32 := do
  match ← peek? with
  | none => throw .truncated
  | some c =>
    if startsNumber c then
      match ← number with
      | .double x => refuse (.wrongType (.double x) "u32")
      | .integer n =>
        if 0 ≤ n ∧ n < UInt32.size then return UInt32.ofNat n.toNat
        else refuse (.outOfRange n "u32")
    else refuseFound "u32"

/-- Applies a reader to a whole text, behind which only blanks may stand. -/
def run {α : Type} (reader : Reader α) (source : String) : Except Error α := do
  let (x, rest) ← StateT.run reader source.toList
  if rest.all isJsonBlank then return x else throw .malformed

end Reader

/-- The most containers that a text may nest in each other. -/
def nestingLimit : Nat := 127

end FormulaSheet.Json
