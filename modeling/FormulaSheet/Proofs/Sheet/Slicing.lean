import FormulaSheet.Proofs.Sheet.Visibility

/-!
# FormulaSheet — what a name depends on

A set of names is closed in a pass if no row under one of them refers to a name outside. The
rows under such names can be evaluated alone: rows and modifiers of other names have no bearing on
them, whether they evaluate or fail.

* `Agrees` — the invariant that ties the pass over all rows to the pass over the wanted ones. It
  holds the second to names that are wanted, so none of its rows evaluates by a name that the
  first does not know.
* `Agrees.toOption_evaluate` — a wanted row comes to the same in both.
* `Agrees.run` — so the passes agree all the way, by induction on the rows of the longer one.
* `Sheet.evaluate_slice` — the headline, for two sheets that share their rows.
-/

namespace FormulaSheet

/-! ## Closed sets of names -/

/-- The names that a row refers to, if it evaluated. -/
def RowResult.references (result : RowResult) : List String :=
  match result.outcome with
  | .ok entry => entry.base.references
  | .error _ => []

/-- A row with its entry, if it evaluated. Why it failed is left out. -/
def RowResult.yield (result : RowResult) : Row × Option Entry :=
  (result.row, result.outcome.toOption)

/-- No row that evaluated under a wanted name refers to one that is not wanted. -/
def Closed (wanted : String → Prop) (results : List RowResult) : Prop :=
  ∀ result ∈ results, wanted result.row.name → ∀ name ∈ result.references, wanted name

instance (wanted : String → Prop) [DecidablePred wanted] (results : List RowResult) :
    Decidable (Closed wanted results) :=
  inferInstanceAs (Decidable (∀ result ∈ results, _ → ∀ name ∈ result.references, _))

/-- The sheet with only the rows of wanted names, and other buffs. -/
def Sheet.slice (sheet : Sheet) (wanted : String → Prop) [DecidablePred wanted]
    (buffs : List Buff) : Sheet :=
  ⟨sheet.rows.filter fun row => wanted row.name, buffs⟩

/-! ## The invariant -/

/-- Takes up what became of a row. -/
def Context.record (context : Context) (name : String) : Option Entry → Context
  | some entry => context.insert name entry
  | none => context

/-- A row is recorded in the context by its name and what came of it. -/
theorem Evaluation.context_step (sums : Aggregation) (evaluation : Evaluation) (row : Row) :
    (evaluation.step sums row).context
      = evaluation.context.record row.name (row.evaluate sums evaluation.context).toOption := by
  rw [Evaluation.step]
  cases row.evaluate sums evaluation.context <;> rfl

/-- Outcomes that succeed alike are recorded alike. -/
theorem toOption_congr {ε α : Type} {first second : Except ε α}
    (h : ∀ value, first = .ok value ↔ second = .ok value) : first.toOption = second.toOption := by
  cases first with
  | ok value => rw [(h value).mp rfl]
  | error e =>
    cases second with
    | ok value => exact nomatch (h value).mpr rfl
    | error e' => rfl

/-- The names known in the pass over all rows, and those known in the pass over the wanted ones. -/
structure Agrees (wanted : String → Prop) (whole slice : Context) : Prop where
  /-- A wanted name has the same entry in both. -/
  entries : ∀ name, wanted name → whole.get? name = slice.get? name
  /-- The second knows wanted names only. -/
  within : ∀ name, slice.defines name = true → wanted name

namespace Agrees

variable {wanted : String → Prop} {whole slice : Context} {sums sums' : Aggregation}

theorem start : Agrees wanted Evaluation.start.context Evaluation.start.context where
  entries _ _ := rfl
  within := nofun

/-- A wanted row that is recorded in both contexts keeps them alike. -/
theorem record (h : Agrees wanted whole slice) {name : String} (hname : wanted name)
    (outcome : Option Entry) :
    Agrees wanted (whole.record name outcome) (slice.record name outcome) := by
  cases outcome with
  | none => exact h
  | some entry =>
    constructor
    · intro other hother
      rw [Context.record, Context.record, Context.get?_insert, Context.get?_insert,
        h.entries other hother]
    · intro other hother
      rw [Context.record, Context.defines_insert, Bool.or_eq_true, beq_iff_eq] at hother
      -- the slice defines nothing but wanted names
      rcases hother with rfl | hother
      · exact hname
      · exact h.within other hother

/-- Whatever becomes of any other row, no wanted name moves. -/
theorem skip (h : Agrees wanted whole slice) {name : String} (hname : ¬ wanted name)
    (outcome : Option Entry) : Agrees wanted (whole.record name outcome) slice := by
  cases outcome with
  | none => exact h
  | some entry =>
    refine ⟨fun other hother => ?_, h.within⟩
    have hne : other ≠ name := fun hsame => hname (hsame ▸ hother)
    rw [Context.record, Context.get?_insert, if_neg hne]
    exact h.entries other hother

/-- A tree that refers to wanted names only is read in both scopes or in neither. -/
theorem parse_iff (h : Agrees wanted whole slice) {tokens : List Token} {tree : Formula}
    (hrefs : ∀ name ∈ tree.references, wanted name) :
    parse whole.defines tokens = .ok tree ↔ parse slice.defines tokens = .ok tree := by
  have hscope : (∀ name ∈ tree.references, whole.defines name = true)
      ↔ ∀ name ∈ tree.references, slice.defines name = true := by
    refine forall₂_congr fun name hname => ?_
    rw [Context.defines, Context.defines, h.entries name (hrefs name hname)]
  exact parse_scope.trans ((and_congr_right fun _ => hscope).trans parse_scope.symm)

/-- A formula all of whose names are wanted has one value in both contexts. -/
theorem evaluate_eq (h : Agrees wanted whole slice) {tree : Formula}
    (hrefs : ∀ name ∈ tree.references, wanted name) :
    whole.evaluate tree = slice.evaluate tree :=
  Context.evaluate_congr fun name hname => h.entries name (hrefs name hname)

/-- **A wanted row comes to the same in both passes.** If it evaluates in the first, its references
are wanted as the set is closed, so they are known in the second. If it evaluates in the second,
they are wanted as no other name is known there. -/
theorem toOption_evaluate (h : Agrees wanted whole slice) {row : Row}
    (htotals : row.name ≠ "" → sums[row.name]? = sums'[row.name]?)
    (hclosed : ∀ entry, row.evaluate sums whole = .ok entry →
      ∀ name ∈ entry.base.references, wanted name) :
    (row.evaluate sums whole).toOption = (row.evaluate sums' slice).toOption := by
  refine toOption_congr fun entry => ⟨fun hwhole => ?_, fun hslice => ?_⟩
  · obtain ⟨hname, hexpression, tree, hparse, rfl⟩ := Row.evaluate_eq_ok_iff.mp hwhole
    -- in the whole pass the names are wanted as the set is closed
    have hrefs : ∀ name ∈ tree.references, wanted name := hclosed _ hwhole
    refine Row.evaluate_eq_ok_iff.mpr
      ⟨hname, hexpression, tree, (h.parse_iff hrefs).mp hparse, ?_⟩
    rw [htotals hname, h.evaluate_eq hrefs]
  · obtain ⟨hname, hexpression, tree, hparse, rfl⟩ := Row.evaluate_eq_ok_iff.mp hslice
    -- in the slice they are wanted as nothing else is defined
    have hrefs : ∀ name ∈ tree.references, wanted name := fun name hmem =>
      h.within name ((parse_scope.mp hparse).2 name hmem)
    refine Row.evaluate_eq_ok_iff.mpr
      ⟨hname, hexpression, tree, (h.parse_iff hrefs).mpr hparse, ?_⟩
    rw [htotals hname, h.evaluate_eq hrefs]

/-! ## Two passes side by side -/

variable [DecidablePred wanted]

/-- **The passes agree all the way**, in what they know at the end and in what became of every
wanted row. -/
theorem run {whole slice : Evaluation} {rows : List Row}
    (h : Agrees wanted whole.context slice.context)
    (htotals : ∀ name, wanted name → name ≠ "" → sums[name]? = sums'[name]?)
    (hclosed : Closed wanted (whole.results sums rows)) :
    Agrees wanted (whole.run sums rows).context
        (slice.run sums' (rows.filter fun row => wanted row.name)).context
      ∧ ((whole.results sums rows).filter fun result => wanted result.row.name).map RowResult.yield
        = (slice.results sums' (rows.filter fun row => wanted row.name)).map RowResult.yield := by
  induction rows generalizing whole slice with
  | nil => exact ⟨h, rfl⟩
  | cons row below ih =>
    obtain ⟨hhere, hbelow⟩ := List.forall_mem_cons.mp hclosed
    rw [Evaluation.results, Evaluation.run_cons]
    by_cases hname : wanted row.name
    · -- all that the row refers to is wanted, and there the passes agree
      have hrow : (row.evaluate sums whole.context).toOption
          = (row.evaluate sums' slice.context).toOption := by
        refine h.toOption_evaluate (htotals row.name hname) fun entry hentry => ?_
        have hrefs := hhere hname
        rw [RowResult.references, hentry] at hrefs
        exact hrefs
      have hnext : Agrees wanted (whole.step sums row).context (slice.step sums' row).context := by
        rw [Evaluation.context_step, Evaluation.context_step, ← hrow]
        exact h.record hname _
      obtain ⟨hcontext, hyields⟩ := ih hnext hbelow
      rw [List.filter_cons_of_pos (by simpa using hname),
        List.filter_cons_of_pos (by simpa using hname), Evaluation.results, Evaluation.run_cons,
        List.map_cons, List.map_cons, hyields, RowResult.yield, RowResult.yield, hrow]
      exact ⟨hcontext, rfl⟩
    · -- the second pass has no such row, and the first gets past it
      have hnext : Agrees wanted (whole.step sums row).context slice.context := by
        rw [Evaluation.context_step]
        exact h.skip hname _
      rw [List.filter_cons_of_neg (by simpa using hname),
        List.filter_cons_of_neg (by simpa using hname)]
      exact ih hnext hbelow

end Agrees

/-- **Only what a name depends on can change it.** Take a set of names that is closed in a pass,
keep only the rows of these names, and take any buffs with the same totals on them. Then each of
the names has the same entry or none in both passes, and so has each of the rows. -/
theorem Sheet.evaluate_slice (sheet : Sheet) (active : ActivationSet) (buffs : List Buff)
    (active' : ActivationSet) (wanted : String → Prop) [DecidablePred wanted]
    (hclosed : Closed wanted (sheet.results active))
    (htotals : ∀ name, wanted name → name ≠ "" →
      (Aggregation.collect sheet.buffs active)[name]?
        = (Aggregation.collect buffs active')[name]?) :
    (∀ name, wanted name → (sheet.evaluate active).context.get? name
        = ((sheet.slice wanted buffs).evaluate active').context.get? name)
      ∧ ((sheet.results active).filter fun result => wanted result.row.name).map RowResult.yield
        = ((sheet.slice wanted buffs).results active').map RowResult.yield := by
  obtain ⟨hcontext, hyields⟩ := Agrees.start.run htotals hclosed
  exact ⟨hcontext.entries, hyields⟩

/-- A sheet in which `Base` and `Total` stand between rows of other names. `Base` is defined anew
and fails, and so does a `Total` that refers to one of the other names. -/
def entangled : Sheet where
  rows := [⟨"r1", "Base", "10"⟩, ⟨"r2", "Other", "Base * 3"⟩, ⟨"r3", "Base", "(Base"⟩,
    ⟨"r4", "Total", "Base + 2"⟩, ⟨"r5", "Total", "Other + Missing"⟩, ⟨"r6", "", "1"⟩]
  buffs := [⟨"b", "Boost", [⟨"m1", "Base", .multiplicative, 0.5⟩, ⟨"m2", "Other", .flat, 7.0⟩,
    ⟨"m3", "", .flat, 1.0⟩]⟩]

/-- `Base` and `Total` are closed there, and need one of the modifiers only. -/
theorem entangled_slice :
    let wanted := fun name => name ∈ ["Base", "Total", ""]
    let alone := entangled.slice wanted [⟨"c", "Half", [⟨"m1", "Base", .multiplicative, 0.5⟩]⟩]
    Closed wanted (entangled.results (.ofList ["b"]))
      ∧ (∀ name, wanted name → name ≠ "" →
        (Aggregation.collect entangled.buffs (.ofList ["b"]))[name]?
          = (Aggregation.collect alone.buffs (.ofList ["c"]))[name]?)
      ∧ (∀ name, wanted name → (entangled.evaluate (.ofList ["b"])).context.get? name
          = (alone.evaluate (.ofList ["c"])).context.get? name)
      ∧ ((entangled.results (.ofList ["b"])).filter
          fun result => wanted result.row.name).map RowResult.yield
        = (alone.results (.ofList ["c"])).map RowResult.yield := by
  intro wanted alone
  have hclosed : Closed wanted (entangled.results (.ofList ["b"])) := by with_unfolding_all decide
  have htotals : ∀ name ∈ ["Base", "Total", ""], name ≠ "" →
      (Aggregation.collect entangled.buffs (.ofList ["b"]))[name]?
        = (Aggregation.collect alone.buffs (.ofList ["c"]))[name]? := by decide
  exact ⟨hclosed, htotals, entangled.evaluate_slice _ _ _ wanted hclosed htotals⟩

end FormulaSheet
