/-!
# FormulaSheet — changes of a value
-/

namespace FormulaSheet

/-- A change against a reference value. -/
structure Delta where
  absolute : Float
  /-- The change in percent of the reference's magnitude. -/
  percent : Float
deriving DecidableEq

/-- The change from `reference` to `value`. Against a zero reference any change counts as
a hundred percent, by its sign. -/
def Delta.between (reference value : Float) : Delta :=
  let absolute := value - reference
  let percent :=
    if reference != 0.0 then absolute / reference.abs * 100.0
    else if 0.0 < absolute then 100.0
    else if absolute < 0.0 then -100.0
    else 0.0
  ⟨absolute, percent⟩

end FormulaSheet
