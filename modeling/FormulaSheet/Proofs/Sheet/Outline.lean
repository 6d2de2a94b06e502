import FormulaSheet.Proofs.Sheet.Visibility

/-!
# FormulaSheet — what buffs cannot change

Buffs change values, the trees on display and the flag of an entry. Without these three, what is
left of an evaluation is its outline: the names in order with the trees as they were written, and
the errors. Two evaluations of the same rows have the same outline, whatever buffs are on.

* `Row.map_base_evaluate` — what a row adds to the outline is settled by which names are known
  above it (`Row.outline`), so no value and no modifier comes into it.
* `SameOutline.step`, `SameOutline.run` — two evaluations with the same outline keep it the same,
  over a row and over all rows.
* `Sheet.evaluate_outline` — the headline.
-/

namespace FormulaSheet

/-! ## Outlines -/

/-- The names in order, with the trees as they were written. -/
def Context.outline (context : Context) : List (String × Formula) :=
  context.entries.map (Prod.map id Entry.base)

/-- The tree of a row in a scope, or why it has none. -/
def Row.outline (row : Row) (scope : Scope) : Except RowError Formula :=
  if row.name.isEmpty then .error .missingName
  else if row.expression.isEmpty then .error .missingExpression
  else (parse scope (tokenize row.expression)).mapError .parse

/-- A row with its tree, or with why it has none. -/
def RowResult.outline (result : RowResult) : Row × Except RowError Formula :=
  (result.row, result.outcome.map Entry.base)

namespace Context

theorem map_fst_outline (context : Context) : context.outline.map Prod.fst = context.names := by
  rw [outline, names, List.map_map]
  rfl

/-- The outline of a context has the base formula of each entry. -/
theorem lookup_outline (context : Context) (name : String) :
    context.outline.lookup name = (context.get? name).map Entry.base := by
  rw [outline, get?]
  induction context.entries with
  | nil => rfl
  | cons head rest ih =>
    obtain ⟨known, entry⟩ := head
    rw [List.map_cons, Prod.map_apply, List.lookup_cons, List.lookup_cons, ih, id]
    cases name == known <;> rfl

/-- Which names are defined is seen in the outline. -/
theorem defines_eq_outline (context : Context) :
    context.defines = fun name => (context.outline.lookup name).isSome := by
  funext name
  rw [defines, lookup_outline, Option.isSome_map]

/-- Entries of one tree, put under one name, leave lists with the same outline so. By induction on
both lists at once: the name has the same place in the two. -/
theorem map_base_insertEntry {name : String} {entry entry' : Entry}
    (hentry : entry.base = entry'.base) {entries entries' : List (String × Entry)}
    (h : entries.map (Prod.map id Entry.base) = entries'.map (Prod.map id Entry.base)) :
    (insertEntry name entry entries).map (Prod.map id Entry.base)
      = (insertEntry name entry' entries').map (Prod.map id Entry.base) := by
  have hhere : Prod.map id Entry.base (name, entry) = Prod.map id Entry.base (name, entry') :=
    congrArg (Prod.mk name) hentry
  induction entries generalizing entries' with
  | nil =>
    obtain rfl : entries' = [] := List.map_eq_nil_iff.mp h.symm
    rw [insertEntry, insertEntry, List.map_singleton, List.map_singleton, hhere]
  | cons head rest ih =>
    obtain ⟨⟨known, old⟩, rest', rfl, hhead, htail⟩ := List.map_eq_cons_iff.mp h.symm
    obtain ⟨known', old'⟩ := head
    obtain rfl : known = known' := congrArg Prod.fst hhead
    rw [insertEntry, insertEntry]
    -- the names are the same, so both replace their entry here or both go on
    by_cases hname : (known == name) = true
    · rw [if_pos hname, if_pos hname, List.map_cons, List.map_cons, hhere, htail]
    · rw [if_neg hname, if_neg hname, List.map_cons, List.map_cons, hhead, ih htail.symm]

/-- Entries with the same base formula keep the outlines the same. -/
theorem outline_insert {first second : Context} (h : first.outline = second.outline) (name : String)
    {entry entry' : Entry} (hentry : entry.base = entry'.base) :
    (first.insert name entry).outline = (second.insert name entry').outline :=
  map_base_insertEntry hentry h

end Context

/-- **What a row adds to the outline** is settled by which names are known above it. -/
theorem Row.map_base_evaluate (row : Row) (sums : Aggregation) (context : Context) :
    (row.evaluate sums context).map Entry.base = row.outline context.defines := by
  rw [evaluate, outline, Context.parse]
  split
  · rfl
  · split
    · rfl
    · cases parse context.defines (tokenize row.expression) <;> rfl

/-! ## Two evaluations side by side -/

/-- The two evaluations have the same outline. -/
structure SameOutline (first second : Evaluation) : Prop where
  context : first.context.outline = second.context.outline
  errors : first.errors = second.errors

namespace SameOutline

theorem start : SameOutline .start .start := ⟨rfl, rfl⟩

variable {first second : Evaluation} (h : SameOutline first second) (sums sums' : Aggregation)
include h

/-- A row has the same base formula or the same error in both passes, since the scopes are the
same. -/
theorem map_base_evaluate (row : Row) :
    (row.evaluate sums first.context).map Entry.base
      = (row.evaluate sums' second.context).map Entry.base := by
  rw [Row.map_base_evaluate, Row.map_base_evaluate, Context.defines_eq_outline,
    Context.defines_eq_outline, h.context]

/-- **One row**: it evaluates in both, to the same tree, or it fails in both alike. -/
theorem step (row : Row) :
    SameOutline (first.step sums row) (second.step sums' row) := by
  have hrow := h.map_base_evaluate sums sums' row
  rw [Evaluation.step, Evaluation.step]
  -- the mixed cases cannot occur: the outcomes have the same tree or the same error
  cases hfirst : row.evaluate sums first.context with
  | ok entry =>
    cases hsecond : row.evaluate sums' second.context with
    | ok entry' =>
      rw [hfirst, hsecond] at hrow
      exact ⟨Context.outline_insert h.context row.name (Except.ok.inj hrow), h.errors⟩
    | error e =>
      rw [hfirst, hsecond] at hrow
      cases hrow
  | error e =>
    cases hsecond : row.evaluate sums' second.context with
    | ok entry =>
      rw [hfirst, hsecond] at hrow
      cases hrow
    | error e' =>
      rw [hfirst, hsecond] at hrow
      have herror : e = e' := Except.error.inj hrow
      refine ⟨h.context, ?_⟩
      show first.errors.insert row.id e = second.errors.insert row.id e'
      rw [herror, h.errors]

/-- **A whole run**, in what is known at the end and in what became of every row. -/
theorem run (rows : List Row) :
    SameOutline (first.run sums rows) (second.run sums' rows)
      ∧ (first.results sums rows).map RowResult.outline
        = (second.results sums' rows).map RowResult.outline := by
  induction rows generalizing first second with
  | nil => exact ⟨h, rfl⟩
  | cons row below ih =>
    obtain ⟨hrun, hresults⟩ := ih (h.step sums sums' row)
    refine ⟨hrun, ?_⟩
    -- the row gives the same outline in both, and so do those below
    have hrow := h.map_base_evaluate sums sums' row
    rw [Evaluation.results, Evaluation.results, List.map_cons, List.map_cons, hresults,
      RowResult.outline, RowResult.outline, hrow]

end SameOutline

/-- **Which rows work never depends on buffs.** Under any two choices of buffs, whatever their
values, the same rows have the same errors, the same names in the same order, and under each name
the same tree as it was written; and each row works in both, with the same tree, or fails in both,
with the same error. -/
theorem Sheet.evaluate_outline (rows : List Row) (buffs buffs' : List Buff)
    (active active' : ActivationSet) :
    let first := (⟨rows, buffs⟩ : Sheet)
    let second := (⟨rows, buffs'⟩ : Sheet)
    (first.evaluate active).errors = (second.evaluate active').errors
    ∧ (first.evaluate active).context.names = (second.evaluate active').context.names
    ∧ (∀ name, ((first.evaluate active).context.get? name).map Entry.base
        = ((second.evaluate active').context.get? name).map Entry.base)
    ∧ (first.results active).map RowResult.outline
        = (second.results active').map RowResult.outline := by
  intro first second
  -- the values and the totals are all that differs between the passes
  obtain ⟨⟨hcontext, herrors⟩, hresults⟩ :=
    SameOutline.start.run (.collect buffs active) (.collect buffs' active') rows
  refine ⟨herrors, ?_, fun name => ?_, hresults⟩
  · rw [← Context.map_fst_outline, ← Context.map_fst_outline]
    exact congrArg (List.map Prod.fst) hcontext
  · rw [← Context.lookup_outline, ← Context.lookup_outline]
    exact congrArg (List.lookup name) hcontext

end FormulaSheet
