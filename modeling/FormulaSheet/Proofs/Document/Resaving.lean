import FormulaSheet.Proofs.Document.Saving

/-!
# FormulaSheet — what saving does to values

The text of a modifier's value can hold more than a saved document: it may be that of an infinity,
for which there is only `null`, and of a double that is not read from its own text. So a document
that was read need not be read again as it was.

* `Document.version_of_read` — a document that was read has the version that is written.
* `Document.evaluate_resaved` — the evaluation stays if the modifiers that are on keep their values.
* `Document.read_write_of_read` — the headline: what becomes of a document that was read, and when
  it is the same.
* `Document.infinite_value_lost` — a text that is read as a document that is not.
-/

namespace FormulaSheet

/-! ## Evaluation -/

theorem activeModifiers_resaved (buffs : List Buff) (active : ActivationSet) :
    activeModifiers (buffs.map Buff.resaved) active
      = (activeModifiers buffs active).map Modifier.resaved := by
  have hon : (fun buff : Buff => active.contains buff.id) ∘ Buff.resaved
      = fun buff => active.contains buff.id := rfl
  rw [activeModifiers, activeModifiers, List.filter_map, hon, List.flatMap_map, List.map_flatMap]
  rfl

namespace Document

variable {document : Document}

/-- The evaluation asks for the modifiers that are on only. -/
theorem evaluate_resaved (h : ∀ modifier ∈ activeModifiers document.sheet.buffs document.active,
    KeepsDouble modifier.value) : document.resaved.evaluate = document.evaluate := by
  have hmodifiers : activeModifiers document.resaved.sheet.buffs document.active
      = activeModifiers document.sheet.buffs document.active := by
    show activeModifiers (document.sheet.buffs.map Buff.resaved) document.active = _
    rw [activeModifiers_resaved, map_eq_self_iff]
    exact fun modifier hmem => Modifier.resaved_eq_iff.mpr (h modifier hmem)
  show document.resaved.sheet.evaluate document.active = document.sheet.evaluate document.active
  rw [Sheet.evaluate, Sheet.evaluate, Aggregation.collect, Aggregation.collect, hmodifiers]
  rfl

/-! ## Texts -/

/-- A text of characters is read without being made a string first, which is what takes the time when
a concrete one is evaluated. -/
theorem read_of_toOption {text : List Char}
    (h : (Document.format.read Json.nestingLimit text).toOption = some (document, [])
      ∧ document.version = documentVersion) :
    Document.read (String.ofList text) = .ok document := by
  obtain ⟨hread, hversion⟩ := h
  cases hresult : Document.format.read Json.nestingLimit text with
  | error e =>
    rw [hresult] at hread
    cases hread
  | ok found =>
    rw [hresult] at hread
    obtain rfl := Option.some.inj hread
    have hrun : StateT.run (Document.format.read Json.nestingLimit) text = .ok (document, []) := hresult
    rw [Document.read, Json.Reader.run, String.toList_ofList, hrun]
    exact if_pos hversion

/-- A document that is read has the current version. -/
theorem version_of_read {source : String} (h : read source = .ok document) :
    document.version = documentVersion := by
  rw [read] at h
  split at h
  · cases h
  · split at h
    · next hversion =>
      rw [← Except.ok.inj h]
      exact hversion
    · cases h

/-- Saving and loading gives the document with the values that their texts read as. -/
theorem read_write_resaved (hversion : document.version = documentVersion) :
    read document.write = .ok document.resaved := by
  rw [read, write, (restores_resaved hversion).run (by decide)]
  dsimp only
  rw [if_pos (show document.resaved.version = documentVersion from hversion)]

/-- **What saving makes of a document that was read.** It is read again, with the values that are
read from their texts. It is the same if and only if all modifiers keep their values, and it is
evaluated to the same if those do that are on. -/
theorem read_write_of_read {source : String} (h : read source = .ok document) :
    read document.write = .ok document.resaved
    ∧ (document.resaved = document
        ↔ ∀ buff ∈ document.sheet.buffs, ∀ modifier ∈ buff.mods, KeepsDouble modifier.value)
    ∧ ((∀ modifier ∈ activeModifiers document.sheet.buffs document.active,
          KeepsDouble modifier.value) → document.resaved.evaluate = document.evaluate) := by
  exact ⟨read_write_resaved (version_of_read h), resaved_eq_iff, evaluate_resaved⟩

/-- A document with a value of each kind: a number, the text of one, and something else. -/
def looseValues : String :=
  "\x7b\"rows\": [[\"r\", \"A\", \"1\"]], \"activeBuffIds\": [\"b\"],
    \"buffs\": [[\"b\", \"B\", [[\"m\", \"A\", \"flat\", 2.5], [\"m\", \"A\", \"mult\", \" 1e-7 \"],
      [\"m\", \"A\", \"flat\", [true]]]]]\x7d"

/-- The document with a row `A = 1` and with a buff on that has these modifiers. -/
def oneRow (mods : List Modifier) : Document :=
  ⟨1, ⟨[⟨"r", "A", "1"⟩], [⟨"b", "B", mods⟩]⟩, .ofList ["b"], none, [], none⟩

-- the recursion is along the characters of the text
set_option maxRecDepth 1024 in
theorem looseValues_read_write :
    let document := oneRow [⟨"m", "A", .flat, 2.5⟩, ⟨"m", "A", .multiplicative, 1e-7⟩,
      ⟨"m", "A", .flat, 0.0⟩]
    read looseValues = .ok document ∧ read document.write = .ok document := by
  intro document
  have hread : read looseValues = .ok document := read_of_toOption (by with_unfolding_all decide)
  obtain ⟨hwrite, hsame, -⟩ := read_write_of_read hread
  refine ⟨hread, ?_⟩
  rw [hwrite, hsame.mpr (by with_unfolding_all decide)]

/-- A document with a value that is infinite. -/
def infiniteValue : String :=
  "\x7b\"rows\": [[\"r\", \"A\", \"1\"]], \"activeBuffIds\": [\"b\"],
    \"buffs\": [[\"b\", \"B\", [[\"m\", \"A\", \"flat\", \"inf\"]]]]\x7d"

/-- An infinite value is lost: the text is read as a document that is read from its own text as
another one, and the row has another value in it. -/
theorem infinite_value_lost :
    let document := oneRow [⟨"m", "A", .flat, 1.0 / 0.0⟩]
    let reloaded := oneRow [⟨"m", "A", .flat, 0.0⟩]
    read infiniteValue = .ok document ∧ read document.write = .ok reloaded ∧ reloaded ≠ document
      ∧ document.evaluate.targetValue "A" = 1.0 / 0.0
      ∧ reloaded.evaluate.targetValue "A" = 1.0 := by
  intro document reloaded
  have hresaved : document.resaved = reloaded := by with_unfolding_all decide
  have hwrite : read document.write = .ok reloaded := by rw [read_write_resaved rfl, hresaved]
  exact ⟨read_of_toOption (by with_unfolding_all decide), hwrite, by with_unfolding_all decide,
    by with_unfolding_all decide, by with_unfolding_all decide⟩

end Document

end FormulaSheet
