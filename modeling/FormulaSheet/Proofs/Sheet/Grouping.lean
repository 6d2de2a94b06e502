import FormulaSheet.Proofs.Sheet.Visibility

/-!
# FormulaSheet — trees on display group as they read

A tree on display is shown without parentheses of its own. So it has to be one that the grammar
itself gives to its words. The trees of formulas are such, and what buffs put around them keeps
them so: a factor takes the whole formula in parentheses where these are needed, and a term comes
last, where the weakest operators stand.

* `GrammarRule.Derives.asFactor`, `Totals.derives_showMultiplier`, `Totals.derives_showFlat` — each
  step of the overlay keeps a tree derived, but for the origins of its nodes.
* `Totals.weight_display_le` — it adds three nodes at most.
* `Sheet.expression_display` — the headline: the tree on display is read back from its tokens.
-/

namespace FormulaSheet

/-! ## Trees without their origins -/

/-- The tree as if all of it had been written. -/
def Formula.asWritten : Formula → Formula
  | literal value _ => literal value .parsed
  | binary op left right _ => binary op left.asWritten right.asWritten .parsed
  | reference name => reference name
  | group inner => group inner.asWritten

namespace Formula

/-- The origins of literals and nodes are not written. -/
theorem tokens_asWritten (tree : Formula) : tree.asWritten.tokens = tree.tokens := by
  induction tree with
  | literal value origin => rfl
  | reference name => rfl
  | group inner ih => rw [asWritten, tokens, tokens, ih]
  | binary op left right origin ihl ihr => rw [asWritten, tokens, tokens, ihl, ihr]

/-- Nor are they paid for. -/
theorem weight_asWritten (tree : Formula) : tree.asWritten.weight = tree.weight := by
  induction tree with
  | literal value origin => rfl
  | reference name => rfl
  | group inner ih => rw [asWritten, weight, weight, ih]
  | binary op left right origin ihl ihr => rw [asWritten, weight, weight, ihl, ihr]

theorem asWritten_buffed (left : Formula) (op : Operator) (amount : Float) :
    (left.buffed op amount).asWritten
      = .binary op left.asWritten (.literal amount .parsed) .parsed := rfl

theorem weight_buffed (left : Formula) (op : Operator) (amount : Float) :
    (left.buffed op amount).weight = left.weight + 1 := rfl

theorem weight_asFactor_le (tree : Formula) : tree.asFactor.weight ≤ tree.weight + 1 := by
  rw [asFactor]
  split
  · exact Nat.le_refl _
  · exact Nat.le_succ _

end Formula

namespace GrammarRule.Derives

variable {scope : Scope} {rule : GrammarRule} {tree : Formula}

/-- A tree that is parsed has only origins of the text. -/
theorem asWritten_eq (h : rule.Derives scope tree) : tree.asWritten = tree := by
  induction h with
  | number value => rfl
  | name _ => rfl
  | group _ ih => rw [Formula.asWritten, ih]
  | factor _ ih => exact ih
  | term _ ih => exact ih
  | whole _ ih => exact ih
  | product _ _ _ ihl ihr => rw [Formula.asWritten, ihl, ihr]
  | sum _ _ _ ihl ihr => rw [Formula.asWritten, ihl, ihr]

/-- What is no operator at its root can stand wherever an operand can. -/
theorem primary_of_not_binary (h : rule.Derives scope tree) (hroot : tree.isBinary = false) :
    GrammarRule.primary.Derives scope tree := by
  induction h with
  | number value => exact .number value
  | name hname => exact .name hname
  | group hinner _ => exact .group hinner
  | factor _ ih => exact ih hroot
  | term _ ih => exact ih hroot
  | whole _ ih => exact ih hroot
  | product _ _ _ _ _ => nomatch hroot
  | sum _ _ _ _ _ => nomatch hroot

/-- A formula can stand as a factor, in parentheses if it has to. -/
theorem asFactor (h : GrammarRule.expression.Derives scope tree) :
    GrammarRule.primary.Derives scope tree.asFactor := by
  rw [Formula.asFactor]
  split
  · exact .group h
  · next hroot => exact h.primary_of_not_binary (Bool.eq_false_iff.mpr hroot)

end GrammarRule.Derives

/-! ## What buffs put around a formula -/

namespace Totals

variable (totals : Totals) {scope : Scope} {tree : Formula}

/-- A formula with its multiplier is an expression of the grammar: it is put into parentheses where
it needs them. -/
theorem derives_showMultiplier (h : GrammarRule.expression.Derives scope tree) :
    GrammarRule.expression.Derives scope (totals.showMultiplier tree).asWritten := by
  rw [showMultiplier]
  split
  · rw [Formula.asWritten_buffed, h.asFactor.asWritten_eq]
    exact .whole (.term (.product (.inl rfl) (.factor h.asFactor) (.number _)))
  · rw [h.asWritten_eq]
    exact h

/-- A formula with its flat amount is an expression of the grammar, as sums go on to the right. -/
theorem derives_showFlat (h : GrammarRule.expression.Derives scope tree.asWritten) :
    GrammarRule.expression.Derives scope (totals.showFlat tree).asWritten := by
  have hop : (if 0.0 < totals.flat then Operator.add else .sub) = .add
      ∨ (if 0.0 < totals.flat then Operator.add else .sub) = .sub := by
    split
    · exact .inl rfl
    · exact .inr rfl
  rw [showFlat]
  split
  · rw [Formula.asWritten_buffed]
    -- a sum takes one more operand on its right without parentheses
    cases h with
    | whole h => exact .whole (.sum hop h (.factor (.number _)))
  · exact h

/-- What is shown for an entry is an expression of the grammar. -/
theorem derives_display (h : GrammarRule.expression.Derives scope tree) :
    GrammarRule.expression.Derives scope (totals.display tree).asWritten :=
  totals.derives_showFlat (totals.derives_showMultiplier h)

/-- A group and a factor, and a term. -/
theorem weight_display_le (tree : Formula) : (totals.display tree).weight ≤ tree.weight + 3 := by
  have hfactor := tree.weight_asFactor_le
  -- parentheses and a multiplication
  have hmultiplier : (totals.showMultiplier tree).weight ≤ tree.weight + 2 := by
    rw [showMultiplier]
    split
    · rw [Formula.weight_buffed]
      omega
    · omega
  rw [display, showFlat]
  split
  · rw [Formula.weight_buffed]
    omega
  · omega

end Totals

/-! ## Entries -/

variable {sheet : Sheet} {active : ActivationSet} {name : String} {entry : Entry}

/-- The tree of an entry is one that the grammar allows, within the budget. The names that it refers
to were known above its row, and names never get lost. -/
theorem Sheet.derives_base (h : (sheet.evaluate active).context.get? name = some entry) :
    GrammarRule.expression.Derives (sheet.evaluate active).context.defines entry.base
      ∧ entry.base.weight ≤ complexityLimit := by
  obtain ⟨above, result, below, hresults, -, hentry⟩ := Sheet.exists_row_of_get? h
  have hparse := (Sheet.sees_of_results hresults).base entry hentry
  obtain ⟨hderives, -, hweight⟩ := parse_eq_ok_iff.mp hparse
  refine ⟨hderives.inScope fun reference hmem => ?_, hweight⟩
  exact Sheet.defines_of_scopeAbove hresults (hderives.defines reference hmem)

/-- The tree on display of an entry is its tree, with what the sums for its name put around it if
there are any. -/
theorem Sheet.display_eq (h : (sheet.evaluate active).context.get? name = some entry) :
    entry.display = match (Aggregation.collect sheet.buffs active)[name]? with
      | none => entry.base
      | some totals => totals.display entry.base := by
  obtain ⟨above, result, below, hresults, rfl, hentry⟩ := Sheet.exists_row_of_get? h
  obtain ⟨value, heq⟩ := (Sheet.sees_of_results hresults).exists_overlaid hentry
  have hdisplay := congrArg Entry.display heq
  rw [hdisplay]
  cases (Aggregation.collect sheet.buffs active)[result.row.name]? <;> rfl

/-- The most operators and parentheses that a tree on display may hold: those of the formula, and
the three that buffs may put around it. -/
def displayLimit : Nat := complexityLimit + 3

/-- The tree on display is one that the grammar allows, too, but for the origins of its nodes. -/
theorem Sheet.derives_display (h : (sheet.evaluate active).context.get? name = some entry) :
    GrammarRule.expression.Derives (sheet.evaluate active).context.defines entry.display.asWritten
      ∧ entry.display.weight ≤ displayLimit := by
  obtain ⟨hbase, hweight⟩ := Sheet.derives_base h
  rw [Sheet.display_eq h]
  -- without totals the base is shown as it is
  cases (Aggregation.collect sheet.buffs active)[name]? with
  | none =>
    rw [hbase.asWritten_eq]
    exact ⟨hbase, Nat.le_trans hweight (Nat.le_add_right _ 3)⟩
  | some totals =>
    have hadded := totals.weight_display_le entry.base
    exact ⟨totals.derives_display hbase, Nat.le_trans hadded (Nat.add_le_add_right hweight 3)⟩

/-- **Trees on display group exactly as they read.** With the names in the end as its scope and a
budget of 515, the grammar reads all of the tokens of the tree on display, and gets the tree back,
every node as if it had been written. No other tree of the grammar has these tokens, in whatever
scope. -/
theorem Sheet.expression_display (sheet : Sheet) (active : ActivationSet) (name : String)
    (entry : Entry) (h : (sheet.evaluate active).context.get? name = some entry) :
    Grammar.expression (sheet.evaluate active).context.defines (.start entry.display.tokens 515)
        = .ok entry.display.asWritten ⟨[], 515, 515 - entry.display.weight⟩
      ∧ ∀ (scope : Scope) (tree : Formula), GrammarRule.expression.Derives scope tree →
          tree.tokens = entry.display.tokens → tree = entry.display.asWritten := by
  obtain ⟨hderives, hweight⟩ := Sheet.derives_display h
  constructor
  · rw [← entry.display.weight_asWritten] at hweight ⊢
    rw [← entry.display.tokens_asWritten]
    exact expression_start_of_derives hderives hweight
  · intro scope tree htree htokens
    -- which names are in scope does not matter for the shape of a tree
    have hwidened : GrammarRule.expression.Derives (fun _ => true) tree :=
      htree.inScope fun _ _ => rfl
    refine hwidened.eq_of_tokens_eq (hderives.inScope fun _ _ => rfl) ?_
    rw [htokens, Formula.tokens_asWritten]

/-- A `Total` that buffs multiply by a negative number and lower, so that it is shown as a sum in
parentheses, times `-2`, minus `10`. -/
theorem lowered_expression_display :
    let sheet : Sheet := {
      rows := [⟨"r1", "Base", "3"⟩, ⟨"r2", "Total", "Base + 1"⟩]
      buffs := [⟨"b", "Curse",
        [⟨"m1", "Total", .multiplicative, -3.0⟩, ⟨"m2", "Total", .flat, -10.0⟩]⟩] }
    let active : ActivationSet := .ofList ["b"]
    let sum : Formula := .binary .add (.reference "Base") (.literal 1.0 .parsed) .parsed
    let scaled : Formula := .binary .mul (.group sum) (.literal (-2.0) .buff) .buff
    let total : Entry := ⟨sum, .binary .sub scaled (.literal 10.0 .buff) .buff, -18.0, true⟩
    (sheet.evaluate active).context.get? "Total" = some total
      ∧ Grammar.expression (sheet.evaluate active).context.defines (.start total.display.tokens 515)
        = .ok total.display.asWritten ⟨[], 515, 511⟩
      ∧ ∀ (scope : Scope) (tree : Formula), GrammarRule.expression.Derives scope tree →
          tree.tokens = total.display.tokens → tree = total.display.asWritten := by
  intro sheet active sum scaled total
  have hget : (sheet.evaluate active).context.get? "Total" = some total := by
    with_unfolding_all decide
  exact ⟨hget, sheet.expression_display active "Total" total hget⟩

end FormulaSheet
