import FormulaSheet.Sheet.Context

/-!
# FormulaSheet — formulas with their references expanded

A reference is shown as `name{…}`, with the tree on display of that name in the braces.
Each name is expanded once, at its first place in the text, and not inside of
`expansionDepth` nested braces; elsewhere it stands bare. So entries that refer to each
other are no danger.

Which references are expanded is one matter (`Formula.expand`), and how the result is
written another (`Expansion.text`): marks for buffs change the text, and nothing else.
-/

namespace FormulaSheet

/-! ## Expanding -/

/-- A formula in which every reference is expanded or left bare. -/
inductive Expansion where
  | literal (value : Float) (origin : Origin)
  | binary (op : Operator) (left right : Expansion) (origin : Origin)
  /-- A reference that is not expanded. -/
  | bare (name : String)
  /-- A reference with what stands in its braces. -/
  | expanded (name : String) (body : Expansion)
  | group (inner : Expansion)
deriving DecidableEq

/-- The most braces that may be nested in each other. -/
def expansionDepth : Nat := 32

/-- Expands with the names at hand that have been expanded before. -/
abbrev Expanding := StateM (List String)

namespace Formula

/-- Expands the references of a tree; `body` gives what stands in the braces of a name, if
it is to have any. -/
def expandWith (body : String → Expanding (Option Expansion)) : Formula → Expanding Expansion
  | literal value origin => return .literal value origin
  | binary op left right origin => do
    let left ← expandWith body left
    let right ← expandWith body right
    return .binary op left right origin
  | group inner => do
    return .group (← expandWith body inner)
  | reference name => do
    match ← body name with
    | none => return .bare name
    | some inner => return .expanded name inner

/-- What stands in the braces of a name, with room for that many nested braces. A name that
is expanded counts as such from its opening brace on. -/
def body (context : Context) : Nat → String → Expanding (Option Expansion)
  | 0, _ => return none
  | room + 1, name => do
    match context.get? name with
    | none => return none
    | some entry =>
      if (← get).contains name then return none
      else
        -- the name counts as expanded inside of its own braces too
        modify (name :: ·)
        return some (← expandWith (body context room) entry.display)

def expand (context : Context) (tree : Formula) : Expansion :=
  (StateT.run (expandWith (body context expansionDepth) tree) []).1

end Formula

/-! ## Writing -/

/-- Whether nodes from buffs are told apart. -/
inductive BuffMarker where
  /-- They look like all others. -/
  | plain
  /-- They stand in square brackets. -/
  | brackets
deriving DecidableEq, Repr

/-- Marks a piece of text by its origin. -/
def BuffMarker.mark : BuffMarker → Origin → String → String
  | .brackets, .buff, text => "[" ++ text ++ "]"
  | _, _, text => text

def Expansion.text (marker : BuffMarker) : Expansion → String
  | literal value origin => marker.mark origin (Decimal.formatNumber value)
  | binary op left right origin =>
    left.text marker ++ " " ++ marker.mark origin op.text ++ " " ++ right.text marker
  | bare name => name
  | expanded name body => name ++ "\x7b" ++ body.text marker ++ "\x7d"
  | group inner => "(" ++ inner.text marker ++ ")"

/-- The text of a tree with its references expanded. -/
def Formula.render (context : Context) (marker : BuffMarker) (tree : Formula) : String :=
  (tree.expand context).text marker

end FormulaSheet
