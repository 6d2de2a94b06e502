import FormulaSheet.Decimal.Layout
import FormulaSheet.Text.Printable

/-!
# FormulaSheet — what can be wrong with a JSON text

A text is read from left to right, and the first error ends the reading. It ends too early,
or it is malformed, or it is well-formed so far and does not fit what is expected there.
-/

namespace FormulaSheet.Json

/-- What stands where something else is expected. -/
inductive Found where
  | null
  | boolean (b : Bool)
  | integer (n : Int)
  | double (x : Float)
  | string (s : String)
  | array
  | object
deriving DecidableEq

/-- A part of a document as messages call it. -/
def Found.text : Found → String
  | null => "null"
  | boolean b => "boolean `" ++ toString b ++ "`"
  | integer n => "integer `" ++ toString n ++ "`"
  | double x => "floating point `" ++ Decimal.exchangeLayout.write x ++ "`"
  | string s => "string " ++ Text.quoted s
  | array => "sequence"
  | object => "map"

/-- Why a well-formed value is not what is expected. -/
inductive Mismatch where
  /-- A value of another kind. -/
  | wrongType (found : Found) (expected : String)
  /-- An integer out of range. -/
  | outOfRange (n : Int) (expected : String)
  /-- A list of fields ends before the required field at `index`. -/
  | tooShort (index : Nat) (record : String) (fields : Nat)
  | missingField (key : String)
  | duplicateField (key : String)
  /-- A word that is none of the alternatives. -/
  | unknownVariant (found : String) (alternatives : String)
deriving DecidableEq

def Mismatch.message : Mismatch → String
  | wrongType found expected => "invalid type: " ++ found.text ++ ", expected " ++ expected
  | outOfRange n expected =>
    "invalid value: integer `" ++ toString n ++ "`, expected " ++ expected
  | tooShort index record fields =>
    "invalid length " ++ toString index ++ ", expected struct " ++ record ++ " with "
      ++ toString fields ++ " elements"
  | missingField key => "missing field `" ++ key ++ "`"
  | duplicateField key => "duplicate field `" ++ key ++ "`"
  | unknownVariant found alternatives =>
    "unknown variant `" ++ found ++ "`, expected " ++ alternatives

/-- Why a text cannot be read. -/
inductive Error where
  /-- The text ends too early. -/
  | truncated
  | malformed
  /-- The text does not fit what is expected. -/
  | mismatch (reason : Mismatch)
deriving DecidableEq

end FormulaSheet.Json
