import Std.Data.ExtTreeSet
import FormulaSheet.Decimal.Reader

/-!
# FormulaSheet — buffs

A buff is a named bundle of modifiers that is switched on or off as a unit. Which buffs
are on is a set of ids, listed in the order of the ids' code points.
-/

namespace FormulaSheet

abbrev BuffId := String

/-- The buffs that are on. -/
abbrev ActivationSet := Std.ExtTreeSet BuffId

/-- How a modifier changes its target. -/
inductive ModifierKind where
  /-- Its value adds to the factor by which the target is scaled. -/
  | multiplicative
  /-- Its value is added to the target after scaling. -/
  | flat
deriving DecidableEq, Repr

/-- An adjustment of the rows of one name. -/
structure Modifier where
  id : String
  /-- The name of the rows it adjusts. An empty name is that of no row. -/
  target : String
  kind : ModifierKind
  value : Float
deriving DecidableEq

/-- A modifier whose value is a number: a NaN counts as `0`. -/
def Modifier.ofValue (id target : String) (kind : ModifierKind) (value : Float) : Modifier :=
  ⟨id, target, kind, Decimal.numberOrZero value⟩

/-- A bundle of modifiers. -/
structure Buff where
  id : BuffId
  name : String
  mods : List Modifier
deriving DecidableEq

/-- The modifiers of the buffs that are on, in the order in which they are listed. -/
def activeModifiers (buffs : List Buff) (active : ActivationSet) : List Modifier :=
  (buffs.filter fun buff => active.contains buff.id).flatMap Buff.mods

end FormulaSheet
