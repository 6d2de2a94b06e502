import FormulaSheet.Proofs.Formula.Acceptance
import FormulaSheet.Proofs.Sheet.History

/-!
# FormulaSheet — what a row sees

The state of an evaluation is overwritten as it goes. What a row gets to see of it can be said
without it: of each name the row above it that evaluated last, and nothing of itself or the rows
below.

* `Row.evaluate_eq_ok_iff` — when a row evaluates, and to which entry.
* `Row.sees_of_summarizes` — against a state that summarizes the rows above, a row evaluates as
  their outcomes say.
* `Sheet.sees_of_results` — so does every row of a sheet.
* `Sheet.evaluate_visibility` — the headline: each row of a sheet, and what is left in the end.
-/

namespace FormulaSheet

/-! ## One row -/

/-- The entry of a tree with its value, and the sums for its row laid over both. -/
def Entry.overlaid (totals? : Option Totals) (value : Float) (tree : Formula) : Entry :=
  let shown := overlay totals? value tree
  ⟨tree, shown.display, shown.value, shown.buffed⟩

/-- A row evaluates if it has a name and an expression, and the expression has a tree in the scope
of the names known above. -/
theorem Row.evaluate_eq_ok_iff {row : Row} {sums : Aggregation} {context : Context} {entry : Entry} :
    row.evaluate sums context = .ok entry ↔
      row.name ≠ "" ∧ row.expression ≠ "" ∧
        ∃ tree, parse context.defines (tokenize row.expression) = .ok tree
          ∧ entry = .overlaid sums[row.name]? (context.evaluate tree) tree := by
  unfold Row.evaluate Context.parse
  by_cases hname : row.name = ""
  · simp [hname]
  by_cases hexpression : row.expression = ""
  · simp [hname, hexpression]
  simp only [String.isEmpty_iff, hname, hexpression, if_false, ne_eq, not_false_iff, true_and]
  -- with a name and an expression the row succeeds as its expression parses
  cases parse context.defines (tokenize row.expression) with
  | error e => simp
  | ok tree => simp [Entry.overlaid, eq_comm]

/-- The value of a formula depends on the entries of its references only. -/
theorem Context.evaluate_congr {first second : Context} {tree : Formula}
    (h : ∀ name ∈ tree.references, first.get? name = second.get? name) :
    first.evaluate tree = second.evaluate tree := by
  refine Formula.eval_congr fun name hname => ?_
  rw [Context.value?, Context.value?, h name hname]

/-! ## The rows above -/

/-- The scope of a row: the names of the rows above that evaluated. -/
def scopeAbove (above : List RowResult) : Scope :=
  fun name => decide (name ∈ (evaluated above).map Prod.fst)

/-- The entry that a row sees under a name: that of the last row above of this name that
evaluated. -/
def lastAbove? (above : List RowResult) (name : String) : Option Entry :=
  last? name (evaluated above)

theorem scopeAbove_eq_isSome (above : List RowResult) (name : String) :
    scopeAbove above name = (lastAbove? above name).isSome := by
  rw [Bool.eq_iff_iff, scopeAbove, decide_eq_true_iff, lastAbove?, last?_isSome_iff]

theorem Summarizes.defines_eq {above : List RowResult} {evaluation : Evaluation}
    (h : Summarizes above evaluation) : evaluation.context.defines = scopeAbove above := by
  funext name
  rw [scopeAbove_eq_isSome, Context.defines, h.entries, lastAbove?]

/-- The outcome of a row is what the outcomes of the rows above make it. -/
structure Sees (sums : Aggregation) (above : List RowResult) (result : RowResult) : Prop where
  /-- It evaluates if it has a name, and an expression with a tree in its scope. -/
  evaluates : (∃ entry, result.outcome = .ok entry) ↔
    result.row.name ≠ "" ∧ result.row.expression ≠ ""
      ∧ ∃ tree, parse (scopeAbove above) (tokenize result.row.expression) = .ok tree
  /-- The tree is the one of its expression. -/
  base : ∀ entry, result.outcome = .ok entry →
    parse (scopeAbove above) (tokenize result.row.expression) = .ok entry.base
  /-- Every reference has an entry above, so none falls back on a default value. -/
  resolved : ∀ entry, result.outcome = .ok entry →
    ∀ name ∈ entry.base.references, ∃ seen, lastAbove? above name = some seen
  /-- Its value is that of the tree with the final values of those entries, and the sums for its
  name laid over it. -/
  value : ∀ entry, result.outcome = .ok entry → ∀ valueOf : String → Float,
    (∀ name ∈ entry.base.references, ∀ seen, lastAbove? above name = some seen →
      valueOf name = seen.value) →
    entry = .overlaid sums[result.row.name]? (entry.base.eval valueOf) entry.base

/-- The entry of a row is its tree with some value, and the sums for its name laid over both. -/
theorem Sees.exists_overlaid {sums : Aggregation} {above : List RowResult} {result : RowResult}
    {entry : Entry} (h : Sees sums above result) (hentry : result.outcome = .ok entry) :
    ∃ value, entry = .overlaid sums[result.row.name]? value entry.base := by
  refine ⟨_, h.value entry hentry (fun name => ((lastAbove? above name).map Entry.value).getD 0.0) ?_⟩
  intro name _ seen hseen
  rw [hseen]
  rfl

/-- **A row sees the rows above it**, by what the state keeps of them. -/
theorem Row.sees_of_summarizes {above : List RowResult} {evaluation : Evaluation}
    (h : Summarizes above evaluation) (sums : Aggregation) (row : Row) :
    Sees sums above ⟨row, row.evaluate sums evaluation.context⟩ := by
  have hresolved : ∀ tree, parse (scopeAbove above) (tokenize row.expression) = .ok tree →
      ∀ name ∈ tree.references, ∃ seen, lastAbove? above name = some seen := by
    intro tree hparse name hname
    have hscope := (parse_scope.mp hparse).2 name hname
    rw [scopeAbove_eq_isSome] at hscope
    exact Option.isSome_iff_exists.mp hscope
  have hok : ∀ entry, row.evaluate sums evaluation.context = .ok entry ↔
      row.name ≠ "" ∧ row.expression ≠ "" ∧
        ∃ tree, parse (scopeAbove above) (tokenize row.expression) = .ok tree
          ∧ entry = .overlaid sums[row.name]? (evaluation.context.evaluate tree) tree := by
    intro entry
    rw [Row.evaluate_eq_ok_iff, h.defines_eq]
  constructor
  · constructor
    · rintro ⟨entry, houtcome⟩
      obtain ⟨hname, hexpression, tree, hparse, -⟩ := (hok entry).mp houtcome
      exact ⟨hname, hexpression, tree, hparse⟩
    · rintro ⟨hname, hexpression, tree, hparse⟩
      exact ⟨_, (hok _).mpr ⟨hname, hexpression, tree, hparse, rfl⟩⟩
  · intro entry houtcome
    obtain ⟨-, -, tree, hparse, rfl⟩ := (hok entry).mp houtcome
    exact hparse
  · intro entry houtcome
    obtain ⟨-, -, tree, hparse, rfl⟩ := (hok entry).mp houtcome
    exact hresolved tree hparse
  · intro entry houtcome valueOf hvalues
    obtain ⟨-, -, tree, hparse, rfl⟩ := (hok entry).mp houtcome
    -- the state and the assignment agree on the references, since all of them are known
    have heval : evaluation.context.evaluate tree = tree.eval valueOf := by
      refine Formula.eval_congr fun name hname => ?_
      obtain ⟨seen, hseen⟩ := hresolved tree hparse name hname
      have hget : evaluation.context.get? name = some seen := (h.entries name).trans hseen
      rw [Context.value?, hget, hvalues name hname seen hseen]
      rfl
    change _ = Entry.overlaid _ (tree.eval valueOf) tree
    rw [heval]

/-! ## A whole sheet -/

/-- The rows of a sheet with their outcomes. -/
def Sheet.results (sheet : Sheet) (active : ActivationSet) : List RowResult :=
  Evaluation.start.results (.collect sheet.buffs active) sheet.rows

/-- The state in the end summarizes the outcomes of all rows. -/
theorem Sheet.summarizes (sheet : Sheet) (active : ActivationSet) :
    Summarizes (sheet.results active) (sheet.evaluate active) :=
  Summarizes.start.run sheet.rows

/-- Every row of a sheet is evaluated against a state that summarizes the rows above it, which are a
sheet of their own. -/
theorem Sheet.exists_state_of_results {sheet : Sheet} {active : ActivationSet}
    {above below : List RowResult} {result : RowResult}
    (h : sheet.results active = above ++ result :: below) :
    ∃ evaluation, Summarizes above evaluation
      ∧ result.outcome
        = result.row.evaluate (.collect sheet.buffs active) evaluation.context := by
  obtain ⟨habove, houtcome⟩ := Evaluation.results_eq_append_cons h
  have hstate := Sheet.summarizes ⟨above.map RowResult.row, sheet.buffs⟩ active
  rw [Sheet.results, ← habove] at hstate
  exact ⟨_, hstate, houtcome⟩

/-- Every row of a sheet sees the rows above it. -/
theorem Sheet.sees_of_results {sheet : Sheet} {active : ActivationSet}
    {above below : List RowResult} {result : RowResult}
    (h : sheet.results active = above ++ result :: below) :
    Sees (.collect sheet.buffs active) above result := by
  obtain ⟨evaluation, hstate, houtcome⟩ := Sheet.exists_state_of_results h
  have hresult : result = ⟨result.row, result.row.evaluate (.collect sheet.buffs active) _⟩ :=
    congrArg (RowResult.mk result.row) houtcome
  rw [hresult]
  exact Row.sees_of_summarizes hstate _ result.row

/-- The entry that a name has in the end comes from a row that evaluated under it, the last one. -/
theorem Sheet.exists_row_of_get? {sheet : Sheet} {active : ActivationSet} {name : String}
    {entry : Entry} (h : (sheet.evaluate active).context.get? name = some entry) :
    ∃ above result below, sheet.results active = above ++ result :: below
      ∧ result.row.name = name ∧ result.outcome = .ok entry := by
  rw [(sheet.summarizes active).entries] at h
  obtain ⟨_, _, hsplit, -⟩ := last?_eq_some h
  obtain ⟨above, result, below, hresults, -, hname, hentry⟩ := evaluated_eq_append_cons hsplit
  exact ⟨above, result, below, hresults, hname, hentry⟩

/-- The error of a row stays under its id if no row below with this id fails. -/
theorem Sheet.getElem?_errors_of_last {sheet : Sheet} {active : ActivationSet}
    {above below : List RowResult} {result : RowResult} {e : RowError}
    (h : sheet.results active = above ++ result :: below) (houtcome : result.outcome = .error e)
    (hlast : ∀ other ∈ below, other.row.id = result.row.id → ∃ entry, other.outcome = .ok entry) :
    (sheet.evaluate active).errors[result.row.id]? = some e := by
  have hfailed : failed (above ++ result :: below)
      = failed above ++ [(result.row.id, e)] ++ failed below := by
    simp [failed, RowResult.error?, houtcome]
  -- no row below fails with that id
  have hbelow : result.row.id ∉ (failed below).map Prod.fst := by
    intro hmem
    obtain ⟨other, hother, hid, e', herror⟩ := mem_ids_failed_iff.mp hmem
    obtain ⟨entry, hentry⟩ := hlast other hother hid
    cases herror.symm.trans hentry
  rw [(sheet.summarizes active).errors, h, hfailed, last?_append_of_notMem hbelow, last?_concat,
    if_pos rfl]

/-- A name that a row sees is known in the end. -/
theorem Sheet.defines_of_scopeAbove {sheet : Sheet} {active : ActivationSet}
    {above below : List RowResult} {result : RowResult}
    (h : sheet.results active = above ++ result :: below) {name : String}
    (hname : scopeAbove above name = true) :
    (sheet.evaluate active).context.defines name = true := by
  rw [(sheet.summarizes active).defines_eq, h, scopeAbove, decide_eq_true_iff, evaluated,
    List.filterMap_append, List.map_append]
  exact List.mem_append_left _ (decide_eq_true_iff.mp hname)

/-- **Visibility and shadowing over a whole pass.** Every row has an outcome, in order, and it is
what the rows above make it. In the end the names are those of the rows that evaluated, each once
and at the place where it first did, with the entry of the last one; the errors are those of the
rows that failed, for each id the last one. -/
theorem Sheet.evaluate_visibility (sheet : Sheet) (active : ActivationSet) :
    (sheet.results active).map RowResult.row = sheet.rows
    ∧ (∀ above result below, sheet.results active = above ++ result :: below →
        Sees (.collect sheet.buffs active) above result)
    ∧ (sheet.evaluate active).context.names
        = ((evaluated (sheet.results active)).map Prod.fst).eraseDups
    ∧ (sheet.evaluate active).context.names.Nodup
    ∧ (∀ name, (sheet.evaluate active).context.get? name
        = last? name (evaluated (sheet.results active)))
    ∧ (∀ id : RowId, (sheet.evaluate active).errors[id]?
        = last? id (failed (sheet.results active)))
    ∧ ((sheet.evaluate active).isOk = true ↔
        ∀ result ∈ sheet.results active, ∃ entry, result.outcome = .ok entry) := by
  -- the state in the end is a summary of all results
  have hfinal := sheet.summarizes active
  exact ⟨Evaluation.map_row_results sheet.rows, fun _ _ _ hresults => Sheet.sees_of_results hresults,
    hfinal.names, hfinal.nodup, hfinal.entries, hfinal.errors, hfinal.isOk_iff⟩

/-- A row that fails leaves the earlier entry of its name to the rows below. -/
example : ((⟨[⟨"r1", "X", "4"⟩, ⟨"r2", "X", "(1"⟩, ⟨"r3", "Y", "X"⟩], []⟩ : Sheet).evaluate
    ∅).context.value? "Y" = some 4.0 := by decide +kernel

end FormulaSheet
