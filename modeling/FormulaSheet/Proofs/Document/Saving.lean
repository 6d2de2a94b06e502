import FormulaSheet.Document.Reading
import FormulaSheet.Document.Writing
import FormulaSheet.Proofs.Json.Doubles
import FormulaSheet.Proofs.Json.Restoring

/-!
# FormulaSheet — a saved document is read as it was

Whatever is written of a document is read by the reader of the same part, with room for as many
levels of containers as the part has. All of it is restored but for the values of modifiers, of
which those are read that their texts have (`resaved`). A value is its own if the reader of numbers
gets it back from its own text (`KeepsDouble`).

* `restores_value` — values, the infinite ones among them.
* `restores_row`, `restores_modifier`, `restores_buff`, `restores_scenario` — the records in a
  document, each by its members.
* `restores_active` — a set of ids, by the list of its ids.
* `Document.restores_resaved` — the document, whose last members may be missing.
* `Document.read_write` — the headline, on texts.
-/

namespace FormulaSheet

open Json (Fills Reader Restores restores_optional_text restores_text)

/-! ## Parts of modifiers -/

/-- The double is written as a number, and it is the one that is read from the text. -/
def KeepsDouble (x : Float) : Prop :=
  x.isFinite = true ∧ Json.reread? x = some x

instance (x : Float) : Decidable (KeepsDouble x) := inferInstanceAs (Decidable (_ ∧ _))

theorem isNaN_of_isFinite {x : Float} (h : x.isFinite = true) : x.isNaN = false := by
  show x.toModel.unpack.isNaN = false
  have hunpack : x.toModel.unpack.isFinite = true := h
  cases hx : x.toModel.unpack with
  | notANumber =>
    rw [hx] at hunpack
    cases hunpack
  | infinity sign => rfl
  | zero sign => rfl
  | finite sign mantissa exponent positive => rfl

/-- The value that is read from the text of one. A value that is not finite is written as `null`,
which is read as zero. -/
def resaved (x : Float) : Float :=
  if x.isFinite then Decimal.numberOrZero ((Json.reread? x).getD 0.0) else 0.0

theorem reread?_zero : Json.reread? 0.0 = some 0.0 := by with_unfolding_all decide

/-- A value is its own after saving and loading if and only if its text gives it back. -/
theorem resaved_eq_iff {x : Float} : resaved x = x ↔ KeepsDouble x := by
  rw [resaved]
  constructor
  · intro h
    split at h
    · next hfinite =>
      obtain ⟨y, hreread⟩ := Json.exists_reread hfinite
      rw [hreread, Option.getD_some, Decimal.numberOrZero] at h
      split at h
      · next hnan =>
        -- zero stands for a NaN, but the text of zero gives zero
        rw [← h, reread?_zero] at hreread
        rw [← Option.some.inj hreread] at hnan
        exact absurd hnan (by decide)
      · rw [h] at hreread
        exact ⟨hfinite, hreread⟩
    · next hfinite =>
      rw [← h] at hfinite
      exact absurd (by decide) hfinite
  · rintro ⟨hfinite, hreread⟩
    rw [if_pos hfinite, hreread, Option.getD_some, Decimal.numberOrZero, isNaN_of_isFinite hfinite]
    rfl

-- seventeen digits may come back as the double next to the one that was written
example : resaved 0.011000000000000001 = 0.011 := by decide +kernel

/-- The value of a modifier is restored as the double that its text reads as. -/
theorem restores_value (x : Float) :
    Restores 0 (fun room => Modifier.valueOfJson <$> Reader.value room) (.double x)
      (resaved x) := by
  rw [Json.Value.double, resaved]
  split
  · next hfinite =>
    obtain ⟨y, hreread⟩ := Json.exists_reread hfinite
    rw [hreread]
    rw [Json.reread?] at hreread
    split at hreread
    · next n hread =>
      rw [← Option.some.inj hreread]
      exact (Json.restores_number hread).map Modifier.valueOfJson
    · cases hreread
  · exact Json.restores_null.map Modifier.valueOfJson

theorem restores_kind (kind : ModifierKind) :
    Restores 0 (fun room => ModifierKind.ofJson <$> Reader.value room) kind.toJson kind := by
  cases kind with
  | multiplicative => exact (Json.restores_string "mult").map ModifierKind.ofJson
  | flat => exact (Json.restores_string "flat").map ModifierKind.ofJson

/-! ## Parts of a document -/

theorem restores_row (row : Row) : Restores 1 Row.format.read row.toJson row := by
  have hbuild : Row.format.build ⟨some row.id, some row.name, some row.expression⟩ = .ok row := rfl
  refine .record ?_ hbuild
  refine .cons rfl rfl (restores_text row.id) ?_
  refine .cons rfl rfl (restores_text row.name) ?_
  refine .cons rfl rfl (restores_text row.expression) ?_
  exact .nil _

/-- The modifier with the value that is read from its text. -/
def Modifier.resaved (modifier : Modifier) : Modifier :=
  { modifier with value := FormulaSheet.resaved modifier.value }

theorem Modifier.resaved_eq_iff {modifier : Modifier} :
    modifier.resaved = modifier ↔ KeepsDouble modifier.value := by
  rw [← FormulaSheet.resaved_eq_iff]
  exact ⟨congrArg Modifier.value, fun h => by rw [Modifier.resaved, h]⟩

/-- A modifier is restored with the value that its text reads as. -/
theorem restores_modifier (modifier : Modifier) :
    Restores 1 Modifier.format.read modifier.toJson modifier.resaved := by
  have hbuild : Modifier.format.build ⟨some modifier.id, some modifier.target, some modifier.kind,
      some (resaved modifier.value)⟩ = .ok modifier.resaved := rfl
  refine .record ?_ hbuild
  refine .cons rfl rfl (restores_text modifier.id) ?_
  refine .cons rfl rfl (restores_text modifier.target) ?_
  refine .cons rfl rfl (restores_kind modifier.kind) ?_
  refine .cons rfl rfl (restores_value modifier.value) ?_
  exact .nil _

def Buff.resaved (buff : Buff) : Buff := { buff with mods := buff.mods.map Modifier.resaved }

theorem map_eq_self_iff {α : Type} {f : α → α} {xs : List α} :
    xs.map f = xs ↔ ∀ x ∈ xs, f x = x := by
  have hid : xs.map f = xs.map id ↔ ∀ x ∈ xs, f x = id x := List.map_inj_left
  rwa [List.map_id] at hid

/-- A buff is as it was exactly when every value of its modifiers is kept. -/
theorem Buff.resaved_eq_iff {buff : Buff} :
    buff.resaved = buff ↔ ∀ modifier ∈ buff.mods, KeepsDouble modifier.value := by
  have hmods : buff.resaved = buff ↔ buff.mods.map Modifier.resaved = buff.mods :=
    ⟨congrArg Buff.mods, fun h => by rw [Buff.resaved, h]⟩
  rw [hmods, map_eq_self_iff]
  exact forall₂_congr fun _ _ => Modifier.resaved_eq_iff

/-- A buff is restored with the values that their texts read as. -/
theorem restores_buff (buff : Buff) : Restores 3 Buff.format.read buff.toJson buff.resaved := by
  have hmods : Restores 2 (Reader.list Modifier.format.read)
      (.array (buff.mods.map Modifier.toJson)) (buff.mods.map Modifier.resaved) :=
    .listMap fun modifier _ => restores_modifier modifier
  have hbuild : Buff.format.build ⟨some buff.id, some buff.name,
      some (buff.mods.map Modifier.resaved)⟩ = .ok buff.resaved := rfl
  refine .record ?_ hbuild
  refine .cons rfl rfl ((restores_text buff.id).mono (Nat.zero_le 2)) ?_
  refine .cons rfl rfl ((restores_text buff.name).mono (Nat.zero_le 2)) ?_
  refine .cons rfl rfl hmods ?_
  exact .nil _

theorem ofList_toList (active : ActivationSet) : Std.ExtTreeSet.ofList active.toList = active := by
  refine Std.ExtTreeSet.ext_mem fun id => ?_
  rw [Std.ExtTreeSet.mem_ofList, List.contains_iff_mem, Std.ExtTreeSet.mem_toList]

/-- A set is written as a list, and a list has one set. -/
theorem restores_active (active : ActivationSet) :
    Restores 1 ActivationSet.read active.toJson active := by
  have hids : Restores 1 (Reader.list fun _ => Reader.text) active.toJson active.toList :=
    .list fun id _ => restores_text id
  have hset := hids.map (Std.ExtTreeSet.ofList ·)
  rw [ofList_toList] at hset
  exact hset

theorem restores_scenario (scenario : Scenario) :
    Restores 2 Scenario.format.read scenario.toJson scenario := by
  have hbuild : Scenario.format.build ⟨some scenario.id, some scenario.name, some scenario.active⟩
      = .ok scenario := rfl
  refine .record ?_ hbuild
  refine .cons rfl rfl ((restores_text scenario.id).mono (Nat.zero_le 1)) ?_
  refine .cons rfl rfl ((restores_text scenario.name).mono (Nat.zero_le 1)) ?_
  refine .cons rfl rfl (restores_active scenario.active) ?_
  exact .nil _

/-! ## Documents -/

namespace Document

/-- The draft that the members of a document fill. -/
def draft (document : Document) : DocumentDraft where
  version := some document.version
  rows := some document.sheet.rows
  buffs := some document.sheet.buffs
  active := some document.active
  target := document.target.map some
  scenarios := if document.scenarios.isEmpty then none else some document.scenarios
  baseline := document.baseline.map some

/-- A document is built from the draft of its own fields. -/
theorem build_draft (document : Document) : format.build document.draft = .ok document := by
  have htarget : (document.target.map some).getD none = document.target := by
    cases document.target <;> rfl
  have hbaseline : (document.baseline.map some).getD none = document.baseline := by
    cases document.baseline <;> rfl
  have hscenarios : (if document.scenarios.isEmpty then none else some document.scenarios).getD []
      = document.scenarios := by
    cases document.scenarios <;> rfl
  show Except.ok (⟨document.version, document.sheet, document.active,
    (document.target.map some).getD none, (if document.scenarios.isEmpty then none
      else some document.scenarios).getD [], (document.baseline.map some).getD none⟩ : Document) = _
  rw [htarget, hbaseline, hscenarios]

variable {document : Document}

theorem restores_version (h : document.version = documentVersion) :
    Restores 0 (fun _ => Reader.word32) (.integer document.version.toNat) document.version := by
  rw [h]
  exact .of_takes (fun _ => rfl) fun _ => Json.takes_word32 rfl

/-- A member for what may be missing fills its field, and if it is missing it leaves the draft as
it is. -/
theorem fills_optionalMember (filled : Option (Option String) → DocumentDraft) {key : String}
    {isOptional : Bool} {get : DocumentDraft → Option (Option String)}
    {set : DocumentDraft → Option String → DocumentDraft}
    (hfield : format.field? key
      = some (.of key isOptional get set fun _ => Reader.optional Reader.text))
    (hunset : get (filled none) = none)
    (hset : ∀ s, set (filled none) (some s) = filled (some (some s))) (value : Option String) :
    Fills format 4 (filled none) (optionalMember key value) (filled (value.map some)) := by
  cases value with
  | none => exact .nil _
  | some s =>
    refine .cons hfield hunset ((restores_optional_text s).mono (Nat.zero_le 4)) ?_
    rw [hset]
    exact .nil _

/-- The scenarios of a document are left out where there are none, and fill the draft either way. -/
theorem fills_scenariosMember (document : Document) :
    Fills format 4 { document.draft with scenarios := none, baseline := none }
      (scenariosMember document.scenarios) { document.draft with baseline := none } := by
  have hlist : Restores 3 (Reader.list Scenario.format.read)
      (.array (document.scenarios.map Scenario.toJson)) document.scenarios :=
    .list fun scenario _ => restores_scenario scenario
  dsimp only [draft]
  rw [scenariosMember]
  split
  · exact .nil _
  · exact .cons rfl rfl (hlist.mono (by decide)) (.nil _)

end Document

/-- The document with the values that are read from their texts. -/
def Document.resaved (document : Document) : Document :=
  { document with sheet := { document.sheet with buffs := document.sheet.buffs.map Buff.resaved } }

namespace Document

variable {document : Document}

/-- A document of the current version is restored with the values that their texts read as: its
members fill the draft one after the other. -/
theorem restores_resaved (hversion : document.version = documentVersion) :
    Restores 5 format.read document.toJson document.resaved := by
  have hrows : Restores 2 (Reader.list Row.format.read)
      (.array (document.sheet.rows.map Row.toJson)) document.sheet.rows :=
    .list fun row _ => restores_row row
  have hbuffs : Restores 4 (Reader.list Buff.format.read)
      (.array (document.sheet.buffs.map Buff.toJson)) document.resaved.sheet.buffs :=
    .listMap fun buff _ => restores_buff buff
  have htarget : Fills format 4
      { document.resaved.draft with target := none, scenarios := none, baseline := none }
      (optionalMember "activeTargetId" document.target)
      { document.resaved.draft with scenarios := none, baseline := none } :=
    fills_optionalMember
      (fun target => { document.resaved.draft with target, scenarios := none, baseline := none })
      rfl rfl (fun _ => rfl) document.target
  have hbaseline : Fills format 4 { document.resaved.draft with baseline := none }
      (optionalMember "baselineScenarioId" document.baseline) document.resaved.draft :=
    fills_optionalMember (fun baseline => { document.resaved.draft with baseline })
      rfl rfl (fun _ => rfl) document.baseline
  refine .record ?_ document.resaved.build_draft
  -- the last three members may be missing, the four before them are always there
  refine .append (.append (.append ?_ htarget) document.resaved.fills_scenariosMember) hbaseline
  refine .cons rfl rfl ((restores_version hversion).mono (by decide)) ?_
  refine .cons rfl rfl (hrows.mono (by decide)) ?_
  refine .cons rfl rfl hbuffs ?_
  refine .cons rfl rfl ((restores_active document.active).mono (by decide)) ?_
  exact .nil _

/-- A document is as it was exactly when every value of its buffs is kept. -/
theorem resaved_eq_iff : document.resaved = document
    ↔ ∀ buff ∈ document.sheet.buffs, ∀ modifier ∈ buff.mods, KeepsDouble modifier.value := by
  have hbuffs : document.resaved = document
      ↔ document.sheet.buffs.map Buff.resaved = document.sheet.buffs :=
    ⟨congrArg fun d : Document => d.sheet.buffs, fun h => by rw [resaved, h]⟩
  rw [hbuffs, map_eq_self_iff]
  exact forall₂_congr fun _ _ => Buff.resaved_eq_iff

/-- A document of the current version whose values are all kept is restored as it was. -/
theorem restores_document (hversion : document.version = documentVersion)
    (hvalues : ∀ buff ∈ document.sheet.buffs, ∀ modifier ∈ buff.mods, KeepsDouble modifier.value) :
    Restores 5 format.read document.toJson document := by
  have hrestores := restores_resaved hversion
  rwa [resaved_eq_iff.mpr hvalues] at hrestores

/-- **Saving and loading loses nothing.** A document of the version that is written, whose modifiers
have values that JSON keeps, is read from its own text as it was. -/
theorem read_write (document : Document) (hversion : document.version = documentVersion)
    (hvalues : ∀ buff ∈ document.sheet.buffs, ∀ modifier ∈ buff.mods, KeepsDouble modifier.value) :
    read document.write = .ok document := by
  rw [read, write, (restores_document hversion hvalues).run (by decide)]
  dsimp only
  rw [if_pos hversion]

end Document

/-- A document with ids that repeat, texts that have to be escaped, values at the ends of the range
of doubles, and neither a target nor a baseline of its own. -/
def keepsake : Document where
  version := documentVersion
  sheet := {
    rows := [⟨"r", "Größe", "1 + \"2\"\n"⟩, ⟨"r", "", "\\\t😀"⟩]
    buffs := [⟨"b", "Empty", []⟩, ⟨"b", "\x7f\x01", [⟨"m", "Größe", .multiplicative, -0.0⟩,
      ⟨"m", "", .flat, 0.1⟩, ⟨"", "r", .flat, -1.7976931348623157e308⟩, ⟨"m", "r", .flat, 5e-324⟩]⟩] }
  active := .ofList ["b", "", "ß"]
  target := none
  scenarios := [⟨"s", "First", ∅⟩, ⟨"s", "Second", .ofList ["b"]⟩]
  baseline := none

theorem keepsake_read_write : keepsake.version = documentVersion
    ∧ (∀ buff ∈ keepsake.sheet.buffs, ∀ modifier ∈ buff.mods, KeepsDouble modifier.value)
    ∧ Document.read keepsake.write = .ok keepsake := by
  have hvalues : ∀ buff ∈ keepsake.sheet.buffs, ∀ modifier ∈ buff.mods,
      KeepsDouble modifier.value := by
    decide +kernel
  exact ⟨rfl, hvalues, keepsake.read_write rfl hvalues⟩

end FormulaSheet
