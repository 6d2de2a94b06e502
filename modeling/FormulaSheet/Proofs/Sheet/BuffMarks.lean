import FormulaSheet.Proofs.Buff.Summing
import FormulaSheet.Proofs.Sheet.Grouping

/-!
# FormulaSheet — what buffs leave in a tree

Whether a row is buffed, and whether this shows in its tree, are two matters. A row is buffed if some
active modifier targets it. It shows if one of its two sums compares different from zero: modifiers that
cancel out leave no node, and a sum that is NaN leaves one. What is left without the nodes from buffs is
the formula, in parentheses if a factor needed them.

* `GrammarRule.Derives.containsBuff_eq` — a formula has no node from a buff.
* `Totals.containsBuff_display`, `Totals.withoutBuffs_display` — the nodes that the overlay adds, and
  the tree without them.
* `Sheet.display_eq_of_sums`, `Sheet.buffed_iff` — the tree on display of an entry, and its flag.
* `Sheet.evaluate_buff_marks` — the headline.
-/

namespace FormulaSheet

/-! ## Trees without nodes from buffs -/

/-- The tree without the operators from buffs along its left spine, and without what stands on their
right. -/
def Formula.withoutBuffs : Formula → Formula
  | binary _ left _ .buff => left.withoutBuffs
  | binary op left right .parsed => binary op left.withoutBuffs right .parsed
  | literal value origin => literal value origin
  | reference name => reference name
  | group inner => group inner

/-- There is nothing to take out of a tree without nodes from buffs. -/
theorem Formula.withoutBuffs_eq {tree : Formula} (h : tree.containsBuff = false) :
    tree.withoutBuffs = tree := by
  induction tree with
  | literal value origin => rfl
  | reference name => rfl
  | group inner _ => rfl
  | binary op left right origin ihl _ =>
    rw [containsBuff, Bool.or_eq_false_iff, Bool.or_eq_false_iff] at h
    obtain ⟨⟨horigin, hleft⟩, -⟩ := h
    -- a node from a buff would be seen at the top
    cases origin with
    | parsed => rw [withoutBuffs, ihl hleft]
    | buff => cases horigin

theorem Formula.containsBuff_asFactor (tree : Formula) : tree.asFactor.containsBuff = tree.containsBuff := by
  rw [asFactor]
  split <;> rfl

theorem Formula.containsBuff_buffed (left : Formula) (op : Operator) (amount : Float) :
    (left.buffed op amount).containsBuff = true := rfl

/-- A formula that is parsed has no node from buffs. Induction on its derivation. -/
theorem GrammarRule.Derives.containsBuff_eq {scope : Scope} {rule : GrammarRule} {tree : Formula}
    (h : rule.Derives scope tree) : tree.containsBuff = false := by
  induction h with
  | number value => rfl
  | name _ => rfl
  | group _ ih => exact ih
  | factor _ ih => exact ih
  | term _ ih => exact ih
  | whole _ ih => exact ih
  | product _ _ _ ihl ihr => rw [Formula.containsBuff, ihl, ihr]; rfl
  | sum _ _ _ ihl ihr => rw [Formula.containsBuff, ihl, ihr]; rfl

/-! ## What the overlay adds -/

namespace Totals

variable (totals : Totals) {tree : Formula}

/-- A sum shows if it compares different from zero. -/
theorem containsBuff_display (h : tree.containsBuff = false) :
    (totals.display tree).containsBuff = (totals.multiplier != 0.0 || totals.flat != 0.0) := by
  have hmultiplier : (totals.showMultiplier tree).containsBuff = (totals.multiplier != 0.0) := by
    rw [showMultiplier]
    split
    · next hshown => rw [hshown, Formula.containsBuff_buffed]
    · next hhidden => rw [h, Bool.eq_false_iff.mpr hhidden]
  rw [display, showFlat]
  split
  · next hshown => rw [hshown, Formula.containsBuff_buffed, Bool.or_true]
  · next hhidden => rw [hmultiplier, Bool.eq_false_iff.mpr hhidden, Bool.or_false]

/-- Without the nodes of the overlay, the tree is left, with its parentheses as a factor. -/
theorem withoutBuffs_display (h : tree.containsBuff = false) :
    (totals.display tree).withoutBuffs
      = if totals.multiplier != 0.0 && tree.isBinary then .group tree else tree := by
  have hfactor : tree.asFactor.withoutBuffs = tree.asFactor :=
    Formula.withoutBuffs_eq (tree.containsBuff_asFactor.trans h)
  -- the flat amount is a node from buffs above all others
  have hflat : (totals.display tree).withoutBuffs = (totals.showMultiplier tree).withoutBuffs := by
    rw [display, showFlat]
    split <;> rfl
  rw [hflat, showMultiplier]
  split
  · next hshown =>
    show tree.asFactor.withoutBuffs = _
    rw [hfactor, Formula.asFactor, hshown, Bool.true_and]
  · next hhidden =>
    rw [Formula.withoutBuffs_eq h, Bool.eq_false_iff.mpr hhidden, Bool.false_and]
    rfl

/-- No modifiers change no tree. -/
theorem display_of_nil (tree : Formula) : (Totals.of []).display tree = tree := rfl

/-- The totals count every modifier. -/
theorem count_of (modifiers : List Modifier) : (Totals.of modifiers).count = modifiers.length := by
  show (valuesOf .multiplicative modifiers).length + (valuesOf .flat modifiers).length = _
  induction modifiers with
  | nil => rfl
  | cons modifier rest ih =>
    obtain ⟨id, target, kind, value⟩ := modifier
    simp only [valuesOf, List.length_map] at ih
    cases kind with
    | multiplicative => simp [valuesOf, ← ih]; omega
    | flat => simp [valuesOf, ← ih]; omega

end Totals

/-! ## Entries -/

variable {sheet : Sheet} {active : ActivationSet} {name : String} {entry : Entry}

/-- The active modifiers that target a name. -/
def Sheet.modifiersOf (sheet : Sheet) (active : ActivationSet) (name : String) : List Modifier :=
  targeting name (activeModifiers sheet.buffs active)

/-- The tree on display of an entry shows the sums for its name, if there are any. -/
theorem Sheet.display_eq_of_sums (h : (sheet.evaluate active).context.get? name = some entry) :
    entry.display = (Totals.of (sheet.modifiersOf active name)).display entry.base := by
  -- no totals are kept for a name without modifiers, and their sums would show nothing
  rw [Sheet.display_eq h, Aggregation.getElem?_collect, modifiersOf]
  split
  · next hnone =>
    split at hnone
    · next hnil => rw [hnil, Totals.display_of_nil]
    · cases hnone
  · next totals hsome =>
    split at hsome
    · cases hsome
    · rw [Option.some.inj hsome]

/-- The flag of an entry says whether its name is targeted, whatever the sums are. -/
theorem Sheet.buffed_iff (h : (sheet.evaluate active).context.get? name = some entry) :
    entry.buffed = true ↔ sheet.modifiersOf active name ≠ [] := by
  obtain ⟨above, result, below, hresults, rfl, hentry⟩ := Sheet.exists_row_of_get? h
  obtain ⟨value, heq⟩ := (Sheet.sees_of_results hresults).exists_overlaid hentry
  have hflag := congrArg Entry.buffed heq
  rw [Aggregation.getElem?_collect] at hflag
  rw [hflag, modifiersOf]
  split
  · next hnil => exact ⟨nofun, fun hne => absurd hnil hne⟩
  · next hne =>
    refine ⟨fun _ => hne, fun _ => ?_⟩
    -- every modifier is counted, whatever its value
    have hcount : 0
        < (Totals.of (targeting result.row.name (activeModifiers sheet.buffs active))).count := by
      rw [Totals.count_of]
      exact List.length_pos_iff.mpr hne
    show Totals.isBuffed _ = true
    rw [Totals.isBuffed, decide_eq_true hcount, Bool.or_true]

/-- **Buff marks are sound, complete and bounded.** The tree of an entry has no node from a buff, keeps
to the budget, and refers to names that are known in the end. The entry is flagged if and only if some
modifier of a buff that is on targets its name, and its tree on display has a node from a buff if and
only if one of the two sums compares different from zero. Without these nodes it is the tree, in
parentheses if it is an operator and a multiplier is shown. So it is the tree if nothing targets the
name, and it never has more than three nodes over the budget. -/
theorem Sheet.evaluate_buff_marks (sheet : Sheet) (active : ActivationSet) (name : String)
    (entry : Entry) (h : (sheet.evaluate active).context.get? name = some entry) :
    let modifiers := sheet.modifiersOf active name
    let multiplier := leftSum (valuesOf .multiplicative modifiers)
    let flat := leftSum (valuesOf .flat modifiers)
    entry.base.containsBuff = false
    ∧ entry.base.weight ≤ 512
    ∧ (∀ reference ∈ entry.base.references, (sheet.evaluate active).context.defines reference = true)
    ∧ (entry.buffed = true ↔ ∃ buff ∈ sheet.buffs, active.contains buff.id = true
        ∧ ∃ modifier ∈ buff.mods, modifier.target = name)
    ∧ (entry.display.containsBuff = true ↔ (multiplier != 0.0) = true ∨ (flat != 0.0) = true)
    ∧ entry.display.withoutBuffs
        = (if multiplier != 0.0 && entry.base.isBinary then .group entry.base else entry.base)
    ∧ ((∀ buff ∈ sheet.buffs, active.contains buff.id = true →
          ∀ modifier ∈ buff.mods, modifier.target ≠ name) → entry.display = entry.base)
    ∧ entry.display.weight ≤ 515 := by
  intro modifiers multiplier flat
  obtain ⟨hderives, hweight⟩ := Sheet.derives_base h
  obtain ⟨-, hlimit⟩ := Sheet.derives_display h
  have hbase := hderives.containsBuff_eq
  have hdisplay := Sheet.display_eq_of_sums h
  -- no modifier is left for the name exactly when no active buff has one
  have hnil : sheet.modifiersOf active name = [] ↔ ∀ buff ∈ sheet.buffs, active.contains buff.id = true →
      ∀ modifier ∈ buff.mods, modifier.target ≠ name :=
    targeting_eq_nil_iff.trans forall_mem_activeModifiers
  refine ⟨hbase, hweight, hderives.defines, ?_, ?_, ?_, fun hother => ?_, hlimit⟩
  · rw [Sheet.buffed_iff h, Ne, hnil]
    simp only [Classical.not_forall, ne_eq, Classical.not_not, exists_prop]
  · rw [hdisplay, Totals.containsBuff_display _ hbase, Bool.or_eq_true]
    rfl
  · rw [hdisplay, Totals.withoutBuffs_display _ hbase]
    rfl
  · rw [hdisplay, hnil.mpr hother, Totals.display_of_nil]

/-- A `Total` with multipliers of which the sum is NaN, and with flat values that cancel out. -/
def undecided : Sheet where
  rows := [⟨"r1", "Base", "3"⟩, ⟨"r2", "Total", "Base + 1"⟩]
  buffs := [⟨"b", "Doubt",
    [⟨"m1", "Total", .multiplicative, 1.0 / 0.0⟩, ⟨"m2", "Total", .flat, 5.0⟩,
      ⟨"m3", "Total", .multiplicative, -1.0 / 0.0⟩, ⟨"m4", "Total", .flat, -5.0⟩]⟩]

/-- The factor is shown, and the term is not. -/
theorem undecided_buff_marks :
    let active : ActivationSet := .ofList ["b"]
    let sum : Formula := .binary .add (.reference "Base") (.literal 1.0 .parsed) .parsed
    let total : Entry := ⟨sum, (Formula.group sum).buffed .mul (0.0 / 0.0), 0.0 / 0.0, true⟩
    let modifiers := undecided.modifiersOf active "Total"
    let multiplier := leftSum (valuesOf .multiplicative modifiers)
    let flat := leftSum (valuesOf .flat modifiers)
    (undecided.evaluate active).context.get? "Total" = some total
    ∧ total.base.containsBuff = false
    ∧ total.base.weight ≤ 512
    ∧ (∀ reference ∈ total.base.references,
        (undecided.evaluate active).context.defines reference = true)
    ∧ (total.buffed = true ↔ ∃ buff ∈ undecided.buffs, active.contains buff.id = true
        ∧ ∃ modifier ∈ buff.mods, modifier.target = "Total")
    ∧ (total.display.containsBuff = true ↔ (multiplier != 0.0) = true ∨ (flat != 0.0) = true)
    ∧ total.display.withoutBuffs
        = (if multiplier != 0.0 && total.base.isBinary then .group total.base else total.base)
    ∧ ((∀ buff ∈ undecided.buffs, active.contains buff.id = true →
          ∀ modifier ∈ buff.mods, modifier.target ≠ "Total") → total.display = total.base)
    ∧ total.display.weight ≤ 515 := by
  intro active sum total modifiers multiplier flat
  have hget : (undecided.evaluate active).context.get? "Total" = some total := by
    with_unfolding_all decide
  exact ⟨hget, undecided.evaluate_buff_marks active "Total" total hget⟩

end FormulaSheet
