import FormulaSheet.Json.Skip

/-!
# FormulaSheet — records in JSON

A record is read from an object, in which its keys come in any order and unknown ones are
passed over, or from an array of its fields in their order. Fields are gathered in a draft
of type `δ`, from which the record is built once the object or array ends.
-/

namespace FormulaSheet.Json

/-- A field of a record that is read into a draft. -/
structure Field (δ : Type) where
  key : String
  /-- Has the draft got the field? -/
  isSet : δ → Bool
  /-- Reads the field into the draft; the number bounds the nesting. -/
  read : Nat → δ → Reader δ
  /-- May the field be missing at the end of an array? -/
  isOptional : Bool

/-- A field with its place in the draft. -/
def Field.of {δ β : Type} (key : String) (isOptional : Bool) (get : δ → Option β)
    (set : δ → β → δ) (item : Nat → Reader β) : Field δ where
  key := key
  isSet := fun draft => (get draft).isSome
  read := fun room draft => do return set draft (← item room)
  isOptional := isOptional

/-- How records of type `α` are read. -/
structure RecordFormat (δ α : Type) where
  /-- The name of the record in messages. -/
  name : String
  /-- The fields in their order. -/
  fields : List (Field δ)
  /-- The draft without a field. -/
  blank : δ
  /-- The record, or the required field that the draft lacks. -/
  build : δ → Except Mismatch α

/-- The value of a required field. -/
def required {β : Type} (key : String) : Option β → Except Mismatch β
  | some x => .ok x
  | none => .error (.missingField key)

namespace RecordFormat

variable {δ α : Type}

/-- The field of a key. -/
def field? (format : RecordFormat δ α) (key : String) : Option (Field δ) :=
  format.fields.find? fun field => field.key == key

/-- Reads the members of an object into a draft. -/
def readMembers (format : RecordFormat δ α) (room : Nat) : Nat → Bool → δ → Reader δ
  | 0, _, _ => throw .truncated
  | bound + 1, isFirst, draft => do
    match ← Reader.key? isFirst with
    | none => return draft
    | some key =>
      match format.field? key with
      | none =>
        Reader.colon
        Reader.skip
        format.readMembers room bound false draft
      | some field =>
        if field.isSet draft then Reader.refuse (.duplicateField key)
        else
          Reader.colon
          let draft ← field.read room draft
          format.readMembers room bound false draft

/-- Reads the items of an array into a draft, one for each field in order; `index` is the
number of fields before them. -/
def readItems (format : RecordFormat δ α) (room : Nat) : Nat → List (Field δ) → δ → Reader δ
  | _, [], draft => return draft
  | index, field :: fields, draft => do
    if ← Reader.another? (index == 0) then
      let draft ← field.read room draft
      format.readItems room (index + 1) fields draft
    else if field.isOptional then
      format.readItems room (index + 1) fields draft
    else
      Reader.refuse (.tooShort index format.name format.fields.length)

/-- The record of a draft. -/
def finish (format : RecordFormat δ α) (draft : δ) : Reader α :=
  match format.build draft with
  | .ok x => return x
  | .error reason => Reader.refuse reason

/-- The end of an array behind its last item. -/
def closeArray : Reader Unit := do
  match ← Reader.peek? with
  | none => throw .truncated
  | some c => if c = ']' then Reader.drop else throw .malformed

/-- Reads a record. -/
def read (format : RecordFormat δ α) (room : Nat) : Reader α := do
  match ← Reader.peek? with
  | none => throw .truncated
  | some c =>
    if c = '\x7b' then
      match room with
      | 0 => throw .malformed
      | room + 1 =>
        Reader.drop
        let draft ← format.readMembers room ((← Reader.length) + 1) true format.blank
        -- the members end at a closing brace, which is still to be taken
        let x ← format.finish draft
        Reader.drop
        return x
    else if c = '[' then
      match room with
      | 0 => throw .malformed
      | room + 1 =>
        Reader.drop
        let draft ← format.readItems room 0 format.fields format.blank
        closeArray
        format.finish draft
    else Reader.refuseFound ("struct " ++ format.name)

end RecordFormat

end FormulaSheet.Json
