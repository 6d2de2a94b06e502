import FormulaSheet.Sheet.Evaluation

/-!
# FormulaSheet — the history of an evaluation

An evaluation goes over its rows once, and keeps of each what the rows below may need. The history
keeps all of it: every row with its own outcome (`Evaluation.results`). The state of an evaluation
is a summary of its history (`Summarizes`): the names in the order in which they first evaluated,
of each name the entry that evaluated last, and of each id the error that occurred last.

* `Summarizes.step` — what one row does to the state is what its outcome does to the history.
* `Summarizes.run` — so the state after some rows summarizes their outcomes.
* `results_eq_append_cons` — the outcome of a row is that of evaluating it against the state
  after the rows above it.
* `evaluated_eq_append_cons` — the row that an entry comes from.
-/

namespace FormulaSheet

/-! ## Last entries of a list of pairs -/

/-- What stands last under a key. -/
def last? {α β : Type} [BEq α] (key : α) (pairs : List (α × β)) : Option β :=
  pairs.reverse.lookup key

section Last

variable {α β : Type} [DecidableEq α]

theorem last?_nil (key : α) : last? key ([] : List (α × β)) = none := rfl

/-- A new pair hides what stood under its key. -/
theorem last?_concat (key known : α) (value : β) (pairs : List (α × β)) :
    last? key (pairs ++ [(known, value)]) = if key = known then some value else last? key pairs := by
  rw [last?, List.reverse_concat, List.lookup_cons]
  by_cases h : key = known
  · simp [h]
  · simp [h, beq_false_of_ne h, last?]

theorem last?_isSome_iff {key : α} {pairs : List (α × β)} :
    (last? key pairs).isSome ↔ key ∈ pairs.map Prod.fst := by
  simp [last?, List.lookup_isSome_iff]

/-- No key has a last entry exactly when there are no pairs. -/
theorem forall_last?_eq_none_iff {pairs : List (α × β)} :
    (∀ key, last? key pairs = none) ↔ pairs = [] := by
  constructor
  · intro hnone
    refine List.eq_nil_iff_forall_not_mem.mpr fun pair hmem => ?_
    have hsome := last?_isSome_iff.mpr (List.mem_map_of_mem (f := Prod.fst) hmem)
    rw [hnone] at hsome
    exact nomatch hsome
  · rintro rfl key
    exact last?_nil key

/-- What stands last is looked for behind first. -/
theorem last?_append (key : α) (pairs after : List (α × β)) :
    last? key (pairs ++ after) = (last? key after).or (last? key pairs) := by
  rw [last?, List.reverse_append, List.lookup_append, last?, last?]

/-- Pairs with other keys behind do not change the last entry of a key. -/
theorem last?_append_of_notMem {key : α} {pairs after : List (α × β)}
    (h : key ∉ after.map Prod.fst) : last? key (pairs ++ after) = last? key pairs := by
  have hafter : last? key after = none :=
    Option.not_isSome_iff_eq_none.mp fun hsome => h (last?_isSome_iff.mp hsome)
  rw [last?_append, hafter, Option.none_or]

/-- The value under a key stands in its last pair. -/
theorem last?_eq_some {key : α} {value : β} {pairs : List (α × β)}
    (h : last? key pairs = some value) :
    ∃ above below, pairs = above ++ (key, value) :: below ∧ key ∉ below.map Prod.fst := by
  obtain ⟨below, above, hsplit, hbelow⟩ := List.lookup_eq_some_iff.mp h
  refine ⟨above.reverse, below.reverse, ?_, fun hmem => ?_⟩
  · rw [← List.reverse_reverse pairs, hsplit]
    simp
  · obtain ⟨pair, hpair, rfl⟩ := List.mem_map.mp hmem
    simpa using hbelow pair (List.mem_reverse.mp hpair)

end Last

/-! ## Outcomes of rows -/

/-- A row with what became of it. -/
structure RowResult where
  row : Row
  outcome : Except RowError Entry

namespace RowResult

/-- The entry of a row that evaluated, under its name. -/
def entry? (result : RowResult) : Option (String × Entry) :=
  match result.outcome with
  | .ok entry => some (result.row.name, entry)
  | .error _ => none

/-- The error of a row that failed, under its id. -/
def error? (result : RowResult) : Option (RowId × RowError) :=
  match result.outcome with
  | .ok _ => none
  | .error e => some (result.row.id, e)

variable {result : RowResult}

/-- A row gives the entry of its name exactly when it is evaluated to it. -/
theorem entry?_eq_some_iff {name : String} {entry : Entry} :
    result.entry? = some (name, entry) ↔ result.row.name = name ∧ result.outcome = .ok entry := by
  rw [RowResult.entry?]
  cases result.outcome <;> simp

theorem error?_eq_some_iff {id : RowId} {e : RowError} :
    result.error? = some (id, e) ↔ result.row.id = id ∧ result.outcome = .error e := by
  rw [RowResult.error?]
  cases result.outcome <;> simp

end RowResult

/-- The entries of the rows that evaluated, in order. -/
def evaluated (results : List RowResult) : List (String × Entry) :=
  results.filterMap RowResult.entry?

/-- The errors of the rows that failed, in order. -/
def failed (results : List RowResult) : List (RowId × RowError) :=
  results.filterMap RowResult.error?

/-- The names that entries are found under are those of the rows that evaluated. -/
theorem mem_names_evaluated_iff {results : List RowResult} {name : String} :
    name ∈ (evaluated results).map Prod.fst ↔
      ∃ result ∈ results, result.row.name = name ∧ ∃ entry, result.outcome = .ok entry := by
  rw [evaluated, List.map_filterMap, List.mem_filterMap]
  refine exists_congr fun result => and_congr_right fun _ => ?_
  rw [RowResult.entry?]
  cases result.outcome <;> simp

/-- The ids that errors are found under are those of the rows that failed. -/
theorem mem_ids_failed_iff {results : List RowResult} {id : RowId} :
    id ∈ (failed results).map Prod.fst ↔
      ∃ result ∈ results, result.row.id = id ∧ ∃ e, result.outcome = .error e := by
  rw [failed, List.map_filterMap, List.mem_filterMap]
  refine exists_congr fun result => and_congr_right fun _ => ?_
  rw [RowResult.error?]
  cases result.outcome <;> simp

/-- No row fails exactly when every row is evaluated. -/
theorem failed_eq_nil_iff {results : List RowResult} :
    failed results = [] ↔ ∀ result ∈ results, ∃ entry, result.outcome = .ok entry := by
  refine List.filterMap_eq_nil_iff.trans (forall₂_congr fun result _ => ?_)
  rw [RowResult.error?]
  cases result.outcome <;> simp

/-- An entry comes from a row, with the rows above it and below it. -/
theorem evaluated_eq_append_cons {results : List RowResult} {above below : List (String × Entry)}
    {name : String} {entry : Entry} (h : evaluated results = above ++ (name, entry) :: below) :
    ∃ before result after, results = before ++ result :: after ∧ above = evaluated before
      ∧ result.row.name = name ∧ result.outcome = .ok entry := by
  obtain ⟨first, rest, rfl, hfirst, hrest⟩ := List.filterMap_eq_append_iff.mp h
  obtain ⟨failing, result, after, rfl, hfailing, hresult, -⟩ := List.filterMap_eq_cons_iff.mp hrest
  refine ⟨first ++ failing, result, after, (List.append_assoc ..).symm, ?_, ?_⟩
  · -- the rows in between failed
    rw [evaluated, List.filterMap_append, List.filterMap_eq_nil_iff.mpr hfailing,
      List.append_nil, hfirst]
  · exact RowResult.entry?_eq_some_iff.mp hresult

namespace Evaluation

/-- The rows with their outcomes, evaluated from the given state on. -/
def results (sums : Aggregation) : Evaluation → List Row → List RowResult
  | _, [] => []
  | evaluation, row :: below =>
    ⟨row, row.evaluate sums evaluation.context⟩ :: results sums (evaluation.step sums row) below

variable {sums : Aggregation} {evaluation : Evaluation}

/-- There is one result for each row, in their order. -/
theorem map_row_results (rows : List Row) :
    (results sums evaluation rows).map RowResult.row = rows := by
  induction rows generalizing evaluation with
  | nil => rfl
  | cons row below ih => rw [results, List.map_cons, ih]

theorem run_cons (row : Row) (below : List Row) :
    run sums evaluation (row :: below) = run sums (evaluation.step sums row) below := rfl

theorem run_append (above below : List Row) :
    run sums evaluation (above ++ below) = run sums (run sums evaluation above) below :=
  List.foldl_append

/-- The outcome of a row is that of evaluating it against the state after the rows above it. By
induction on those. -/
theorem results_eq_append_cons {rows : List Row} {above below : List RowResult}
    {result : RowResult} (h : results sums evaluation rows = above ++ result :: below) :
    above = results sums evaluation (above.map RowResult.row)
      ∧ result.outcome
        = result.row.evaluate sums (run sums evaluation (above.map RowResult.row)).context := by
  induction above generalizing evaluation rows with
  | nil =>
    cases rows with
    | nil => exact nomatch h
    | cons row rows =>
      obtain ⟨rfl, -⟩ := List.cons.inj h
      exact ⟨rfl, rfl⟩
  | cons first above ih =>
    cases rows with
    | nil => exact nomatch h
    | cons row rows =>
      obtain ⟨rfl, htail⟩ := List.cons.inj h
      -- the first row is evaluated, and the others go on from there
      obtain ⟨habove, houtcome⟩ := ih htail
      refine ⟨?_, houtcome⟩
      rw [List.map_cons, results, ← habove]

end Evaluation

/-! ## The state as a summary

The invariant of an evaluation. It relates the state to the whole history, so what a row sees and
what is left in the end are read off the history. -/

/-- The state of an evaluation after rows with these outcomes. -/
structure Summarizes (past : List RowResult) (evaluation : Evaluation) : Prop where
  /-- The names, each at the place where it first evaluated. -/
  names : evaluation.context.names = ((evaluated past).map Prod.fst).eraseDups
  /-- No name is there twice. -/
  nodup : evaluation.context.names.Nodup
  /-- Of each name the entry that evaluated last. -/
  entries : ∀ name, evaluation.context.get? name = last? name (evaluated past)
  /-- Of each id the error that occurred last. -/
  errors : ∀ id : RowId, evaluation.errors[id]? = last? id (failed past)

/-- A name at the end of a list is new there, or else there already. -/
theorem eraseDups_concat (names : List String) (name : String) :
    (names ++ [name]).eraseDups
      = if name ∈ names.eraseDups then names.eraseDups else names.eraseDups ++ [name] := by
  rw [List.eraseDups_append]
  by_cases h : name ∈ names
  · simp [h, List.removeAll]
  · simp [h, List.removeAll, List.eraseDups_cons]

namespace Summarizes

variable {past : List RowResult} {evaluation : Evaluation} {sums : Aggregation}

theorem start : Summarizes [] .start where
  names := rfl
  nodup := List.nodup_nil
  entries _ := rfl
  errors _ := Std.ExtTreeMap.getElem?_empty

/-- A row that evaluates is stored under its name, and the errors stay. -/
theorem store (h : Summarizes past evaluation) (row : Row) (entry : Entry) :
    Summarizes (past ++ [⟨row, .ok entry⟩])
      { evaluation with context := evaluation.context.insert row.name entry } := by
  -- the row adds its entry and no error
  have hevaluated : evaluated (past ++ [⟨row, .ok entry⟩])
      = evaluated past ++ [(row.name, entry)] := by
    simp [evaluated, RowResult.entry?]
  have hfailed : failed (past ++ [⟨row, .ok entry⟩]) = failed past := by
    simp [failed, RowResult.error?]
  constructor
  · rw [Context.names_insert, hevaluated, List.map_append, List.map_singleton, eraseDups_concat,
      h.names]
  · rw [Context.names_insert]
    split
    · exact h.nodup
    · next hnew =>
      -- a name that was not there before comes last
      exact List.nodup_append.mpr
        ⟨h.nodup, List.pairwise_singleton _ _, fun known hknown other hother hsame =>
          hnew (List.mem_singleton.mp hother ▸ hsame ▸ hknown)⟩
  · intro name
    rw [Context.get?_insert, hevaluated, last?_concat, h.entries]
  · rw [hfailed]
    exact h.errors

/-- A row that fails leaves its error under its id, and the entries stay. -/
theorem record (h : Summarizes past evaluation) (row : Row) (e : RowError) :
    Summarizes (past ++ [⟨row, .error e⟩])
      { evaluation with errors := evaluation.errors.insert row.id e } := by
  have hevaluated : evaluated (past ++ [⟨row, .error e⟩]) = evaluated past := by
    simp [evaluated, RowResult.entry?]
  have hfailed : failed (past ++ [⟨row, .error e⟩]) = failed past ++ [(row.id, e)] := by
    simp [failed, RowResult.error?]
  constructor
  · rw [hevaluated]
    exact h.names
  · exact h.nodup
  · rw [hevaluated]
    exact h.entries
  · intro id
    -- the map finds ids by comparison, the history by equality
    have hsame : compare row.id id = .eq ↔ id = row.id :=
      Std.LawfulEqCmp.compare_eq_iff_eq.trans eq_comm
    rw [Std.ExtTreeMap.getElem?_insert, hfailed, last?_concat, h.errors]
    simp only [hsame]

/-- **One row**: the state takes up its outcome as the history does. -/
theorem step (h : Summarizes past evaluation) (row : Row) :
    Summarizes (past ++ [⟨row, row.evaluate sums evaluation.context⟩])
      (evaluation.step sums row) := by
  rw [Evaluation.step]
  cases row.evaluate sums evaluation.context with
  | ok entry => exact h.store row entry
  | error e => exact h.record row e

/-- **A whole run**: the state summarizes the outcomes of all rows. By induction on the rows, with
the history so far as what varies. -/
theorem run (h : Summarizes past evaluation) (rows : List Row) :
    Summarizes (past ++ evaluation.results sums rows) (evaluation.run sums rows) := by
  induction rows generalizing past evaluation with
  | nil =>
    rw [Evaluation.results, List.append_nil]
    exact h
  | cons row below ih =>
    rw [Evaluation.results, Evaluation.run_cons, List.append_cons]
    exact ih (h.step row)

/-- The evaluation succeeds exactly when every row so far does. -/
theorem isOk_iff (h : Summarizes past evaluation) :
    evaluation.isOk = true ↔ ∀ result ∈ past, ∃ entry, result.outcome = .ok entry := by
  rw [← failed_eq_nil_iff, ← forall_last?_eq_none_iff, Evaluation.isOk,
    Std.ExtTreeMap.isEmpty_iff]
  constructor
  · intro hempty id
    rw [← h.errors, hempty, Std.ExtTreeMap.getElem?_empty]
  · intro hnone
    refine Std.ExtTreeMap.ext_getElem? fun id => ?_
    rw [h.errors, hnone, Std.ExtTreeMap.getElem?_empty]

end Summarizes

end FormulaSheet
