import FormulaSheet.Json.Reader

/-!
# FormulaSheet — values that nobody asked for

A value under an unknown key is passed over. It has to be well-formed, but its numbers may
be out of range, its surrogates alone and its nesting as deep as it likes: instead of
recursing, the walk keeps the containers that are open on a stack.
-/

namespace FormulaSheet.Json.Reader

/-- A container that is open. -/
inductive Bracket where
  | square
  | curly
deriving DecidableEq, Repr

/-- The character that closes a container. -/
def Bracket.closing : Bracket → Char
  | square => ']'
  | curly => '\x7d'

/-- Passes over a string from behind its opening mark on. -/
def skipString : Reader Unit := ofFunction fun cs => (skipBody cs).map ((), ·)

/-- Passes over a number. It may be too large, but not cut short. -/
def skipNumber : Reader Unit :=
  ofFunction fun cs => (Numeral.read .malformed cs).map fun (_, rest) => ((), rest)

/-- Passes over a value without containers, from its first character on. -/
def skipScalar (c : Char) : Reader Unit :=
  if c = 'n' then word "null".toList
  else if c = 't' then word "true".toList
  else if c = 'f' then word "false".toList
  else if c = '"' then do
    drop
    skipString
  else if startsNumber c then skipNumber
  else throw .malformed

/-- Passes over the key and the colon that a value in an object has. -/
def skipKey : Bracket → Reader Unit
  | .square => return
  | .curly => do
    match ← peek? with
    | none => throw .truncated
    | some c =>
      if c = '"' then
        drop
        skipString
        colon
      else throw .malformed

/-- Where the walk stands. -/
inductive SkipState where
  /-- A value has to follow. -/
  | value
  /-- A container was just opened. -/
  | opened
  /-- A value is complete. -/
  | complete
deriving DecidableEq, Repr

/-- Walks to the end of a value, inside the containers on the stack that are open. Of two
steps in a row at least one takes a character. -/
def skipFrom : Nat → List Bracket → SkipState → Reader Unit
  | 0, _, _ => throw .truncated
  | bound + 1, stack, .value => do
    match ← peek? with
    | none => throw .truncated
    | some c =>
      if c = '[' then
        drop
        skipFrom bound (.square :: stack) .opened
      else if c = '\x7b' then
        drop
        skipFrom bound (.curly :: stack) .opened
      else
        skipScalar c
        skipFrom bound stack .complete
  -- no container is open, so the value was the one to pass over
  | _ + 1, [], _ => return
  | bound + 1, bracket :: stack, state => do
    match ← peek? with
    | none => throw .truncated
    | some c =>
      if c = bracket.closing then
        drop
        skipFrom bound stack .complete
      else if state = .complete then
        if c = ',' then
          drop
          skipKey bracket
          skipFrom bound (bracket :: stack) .value
        else throw .malformed
      else
        skipKey bracket
        skipFrom bound (bracket :: stack) .value

/-- Passes over a value. -/
def skip : Reader Unit := do
  skipFrom (2 * (← length) + 2) [] .value

end FormulaSheet.Json.Reader
