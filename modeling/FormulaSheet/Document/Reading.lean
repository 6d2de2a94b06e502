import FormulaSheet.Document.Basic
import FormulaSheet.Json.Record

/-!
# FormulaSheet — documents from JSON

How a document and its parts are read. A modifier is read loosely: its kind and value may
be any JSON values, and what makes no sense counts as flat and as zero. All else has to
fit.
-/

namespace FormulaSheet

open Json (Field Reader RecordFormat required)

/-! ## Rows -/

/-- The fields of a row that have been read. -/
structure RowDraft where
  id : Option String := none
  name : Option String := none
  expression : Option String := none

def Row.format : RecordFormat RowDraft Row where
  name := "Row"
  fields := [
    .of "id" false RowDraft.id (fun d x => { d with id := some x }) fun _ => Reader.text,
    .of "name" false RowDraft.name (fun d x => { d with name := some x }) fun _ => Reader.text,
    .of "expression" false RowDraft.expression (fun d x => { d with expression := some x })
      fun _ => Reader.text]
  blank := {}
  build := fun d => do
    return ⟨← required "id" d.id, ← required "name" d.name, ← required "expression" d.expression⟩

/-! ## Modifiers -/

/-- The kind that a JSON value stands for: anything but `"mult"` is flat. -/
def ModifierKind.ofJson : Json.Value → ModifierKind
  | .string s => if s = "mult" then .multiplicative else .flat
  | _ => .flat

/-- The number that a JSON value stands for: a number, or the number in a text. Anything
else is `0`, and so is a NaN. -/
def Modifier.valueOfJson : Json.Value → Float
  | .number n => Decimal.numberOrZero n.toDouble
  | .string s => Decimal.textOrZero s
  | _ => 0.0

structure ModifierDraft where
  id : Option String := none
  target : Option String := none
  kind : Option ModifierKind := none
  value : Option Float := none

def Modifier.format : RecordFormat ModifierDraft Modifier where
  name := "Modifier"
  fields := [
    .of "id" false ModifierDraft.id (fun d x => { d with id := some x }) fun _ => Reader.text,
    .of "targetVar" true ModifierDraft.target (fun d x => { d with target := some x })
      fun _ => Reader.text,
    .of "type" true ModifierDraft.kind (fun d x => { d with kind := some x })
      fun room => ModifierKind.ofJson <$> Reader.value room,
    .of "value" true ModifierDraft.value (fun d x => { d with value := some x })
      fun room => Modifier.valueOfJson <$> Reader.value room]
  blank := {}
  build := fun d => do
    return ⟨← required "id" d.id, d.target.getD "", d.kind.getD .flat, d.value.getD 0.0⟩

/-! ## Buffs and scenarios -/

structure BuffDraft where
  id : Option String := none
  name : Option String := none
  mods : Option (List Modifier) := none

def Buff.format : RecordFormat BuffDraft Buff where
  name := "Buff"
  fields := [
    .of "id" false BuffDraft.id (fun d x => { d with id := some x }) fun _ => Reader.text,
    .of "name" false BuffDraft.name (fun d x => { d with name := some x }) fun _ => Reader.text,
    .of "mods" true BuffDraft.mods (fun d x => { d with mods := some x })
      (Reader.list Modifier.format.read)]
  blank := {}
  build := fun d => do
    return ⟨← required "id" d.id, ← required "name" d.name, d.mods.getD []⟩

/-- Reads a list of ids as a set. -/
def ActivationSet.read (room : Nat) : Reader ActivationSet :=
  (Std.ExtTreeSet.ofList ·) <$> Reader.list (fun _ => Reader.text) room

structure ScenarioDraft where
  id : Option String := none
  name : Option String := none
  active : Option ActivationSet := none

def Scenario.format : RecordFormat ScenarioDraft Scenario where
  name := "Scenario"
  fields := [
    .of "id" false ScenarioDraft.id (fun d x => { d with id := some x }) fun _ => Reader.text,
    .of "name" false ScenarioDraft.name (fun d x => { d with name := some x })
      fun _ => Reader.text,
    .of "activeBuffIds" true ScenarioDraft.active (fun d x => { d with active := some x })
      ActivationSet.read]
  blank := {}
  build := fun d => do
    return ⟨← required "id" d.id, ← required "name" d.name, d.active.getD ∅⟩

/-! ## Kinds on their own -/

/-- The kind that a word stands for. -/
def ModifierKind.ofWord (word : String) : Reader ModifierKind :=
  if word = "mult" then return .multiplicative
  else if word = "flat" then return .flat
  else Reader.refuse (.unknownVariant word "`mult` or `flat`")

/-- Reads a kind that has to be one: as its word, or as the only key of an object, whose
value is `null`. -/
def ModifierKind.read (room : Nat) : Reader ModifierKind := do
  match ← Reader.peek? with
  | none => throw .truncated
  | some c =>
    if c = '"' then
      ofWord (← Reader.text)
    else if c = '\x7b' ∧ room ≠ 0 then
      Reader.drop
      match ← Reader.key? true with
      | none => throw .malformed
      | some word =>
        let kind ← ofWord word
        Reader.colon
        Reader.null
        match ← Reader.peek? with
        | none => throw .truncated
        | some d =>
          if d = '\x7d' then
            Reader.drop
            return kind
          else throw .malformed
    else throw .malformed

/-! ## Documents -/

structure DocumentDraft where
  version : Option UInt32 := none
  rows : Option (List Row) := none
  buffs : Option (List Buff) := none
  active : Option ActivationSet := none
  target : Option (Option String) := none
  scenarios : Option (List Scenario) := none
  baseline : Option (Option String) := none

def Document.format : RecordFormat DocumentDraft Document where
  name := "Document"
  fields := [
    .of "version" true DocumentDraft.version (fun d x => { d with version := some x })
      fun _ => Reader.word32,
    .of "rows" false DocumentDraft.rows (fun d x => { d with rows := some x })
      (Reader.list Row.format.read),
    .of "buffs" false DocumentDraft.buffs (fun d x => { d with buffs := some x })
      (Reader.list Buff.format.read),
    .of "activeBuffIds" true DocumentDraft.active (fun d x => { d with active := some x })
      ActivationSet.read,
    .of "activeTargetId" true DocumentDraft.target (fun d x => { d with target := some x })
      fun _ => Reader.optional Reader.text,
    .of "scenarios" true DocumentDraft.scenarios (fun d x => { d with scenarios := some x })
      (Reader.list Scenario.format.read),
    .of "baselineScenarioId" true DocumentDraft.baseline
      (fun d x => { d with baseline := some x }) fun _ => Reader.optional Reader.text]
  blank := {}
  build := fun d => do
    let rows ← required "rows" d.rows
    let buffs ← required "buffs" d.buffs
    return {
      version := d.version.getD documentVersion
      sheet := ⟨rows, buffs⟩
      active := d.active.getD ∅
      target := d.target.getD none
      scenarios := d.scenarios.getD []
      baseline := d.baseline.getD none }

namespace Document

/-- Reads a document from its text, and refuses other format versions. -/
def read (source : String) : Except DocumentError Document :=
  match (Document.format.read Json.nestingLimit).run source with
  | .error e => .error (.json e)
  | .ok document =>
    if document.version = documentVersion then .ok document
    else .error (.unsupportedVersion document.version)

/-- Reads a document from the bytes of a file, if there are any. -/
def ofFile (contents : Option ByteArray) : Except DocumentError Document :=
  match contents.bind String.fromUTF8? with
  | none => .error .unreadable
  | some source => read source

end Document

end FormulaSheet
