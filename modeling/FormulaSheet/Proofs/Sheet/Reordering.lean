import FormulaSheet.Proofs.Formula.Scoping
import FormulaSheet.Proofs.Sheet.Slicing

/-!
# FormulaSheet — rows that may change places

A row asks the state for the names that stand in its formula, and adds to it under its own name and
id. Two neighbours that ask for none of each other's names, and have different names and ids, come
to the same in either order. What is left in the end differs in the order of the names only, and no
row below can tell.

* `Row.evaluate_congr` — a row comes to the same against all states with the same entries under the
  names that stand in its formula.
* `SameAnswers` — two states that answer alike, by name and by id. Every row keeps them so
  (`SameAnswers.step`, `SameAnswers.run`).
* `sameAnswers_swap` — the two orders of independent neighbours lead to such states.
* `Sheet.evaluate_swap` — the headline.
-/

namespace FormulaSheet

/-! ## What a row asks for -/

/-- **A row asks for the names in its formula only.** -/
theorem Row.evaluate_congr {row : Row} {first second : Context}
    (h : ∀ name, .name name ∈ tokenize row.expression → first.get? name = second.get? name)
    (sums : Aggregation) : row.evaluate sums first = row.evaluate sums second := by
  -- the names of the row are in both scopes or in neither
  have hparse : first.parse row.expression = second.parse row.expression := by
    refine parse_congr fun name hname => ?_
    rw [Context.defines, Context.defines, h name hname]
  rw [evaluate, evaluate, hparse]
  split
  · rfl
  · split
    · rfl
    · cases hread : second.parse row.expression with
      | error e => rfl
      | ok tree =>
        obtain ⟨-, htokens, -⟩ := parse_eq_ok_iff.mp hread
        -- what it refers to has the same value in both
        have hvalue : first.evaluate tree = second.evaluate tree := by
          refine Context.evaluate_congr fun name hname => ?_
          rw [Formula.mem_references_iff, htokens] at hname
          exact h name hname
        dsimp only
        rw [hvalue]

/-! ## What a row adds

The answers of a state after one more row: those under the row's own name and id change as its
outcome says, and all others stay. -/

/-- Why a row failed, if it did. -/
def failure? : Except RowError Entry → Option RowError
  | .ok _ => none
  | .error e => some e

namespace Evaluation

variable (sums : Aggregation) (evaluation : Evaluation) (row : Row)

theorem get?_context_step (name : String) :
    (evaluation.step sums row).context.get? name
      = if name = row.name then
          (row.evaluate sums evaluation.context).toOption.or (evaluation.context.get? name)
        else evaluation.context.get? name := by
  rw [context_step]
  cases (row.evaluate sums evaluation.context).toOption with
  | none => rw [Context.record, Option.none_or, ite_self]
  | some entry => rw [Context.record, Context.get?_insert, Option.some_or]

theorem getElem?_errors_step (id : RowId) :
    (evaluation.step sums row).errors[id]?
      = if id = row.id then
          (failure? (row.evaluate sums evaluation.context)).or evaluation.errors[id]?
        else evaluation.errors[id]? := by
  have hsame : compare row.id id = .eq ↔ id = row.id :=
    Std.LawfulEqCmp.compare_eq_iff_eq.trans eq_comm
  rw [step]
  cases row.evaluate sums evaluation.context with
  | ok entry => rw [failure?, Option.none_or, ite_self]
  | error e => simp only [failure?, Option.some_or, Std.ExtTreeMap.getElem?_insert, hsame]

end Evaluation

/-! ## States that answer alike -/

/-- The two states have the same entry under every name and the same error under every id. -/
structure SameAnswers (first second : Evaluation) : Prop where
  entries : ∀ name, first.context.get? name = second.context.get? name
  errors : ∀ id : RowId, first.errors[id]? = second.errors[id]?

namespace SameAnswers

variable {first second : Evaluation}

theorem step (h : SameAnswers first second) (sums : Aggregation) (row : Row) :
    SameAnswers (first.step sums row) (second.step sums row) := by
  have hrow : row.evaluate sums first.context = row.evaluate sums second.context :=
    Row.evaluate_congr (fun name _ => h.entries name) sums
  constructor
  · intro name
    rw [Evaluation.get?_context_step, Evaluation.get?_context_step, hrow, h.entries]
  · intro id
    rw [Evaluation.getElem?_errors_step, Evaluation.getElem?_errors_step, hrow, h.errors]

/-- **No row below can tell them apart.** -/
theorem run (h : SameAnswers first second) (sums : Aggregation) (rows : List Row) :
    SameAnswers (first.run sums rows) (second.run sums rows) := by
  induction rows generalizing first second with
  | nil => exact h
  | cons row below ih => exact ih (h.step sums row)

end SameAnswers

/-! ## Independent neighbours -/

/-- Neither row has a bearing on the other: they differ in name and id, and neither formula holds
the other's name. -/
structure Row.Independent (a b : Row) : Prop where
  names : a.name ≠ b.name
  ids : a.id ≠ b.id
  left : .name b.name ∉ tokenize a.expression
  right : .name a.name ∉ tokenize b.expression

instance (a b : Row) : Decidable (a.Independent b) :=
  decidable_of_iff (a.name ≠ b.name ∧ a.id ≠ b.id ∧ .name b.name ∉ tokenize a.expression
      ∧ .name a.name ∉ tokenize b.expression)
    ⟨fun ⟨names, ids, left, right⟩ => ⟨names, ids, left, right⟩,
      fun h => ⟨h.names, h.ids, h.left, h.right⟩⟩

/-- A row does not notice another one above it whose name its formula does not hold. -/
theorem Row.evaluate_step {a b : Row} (h : .name a.name ∉ tokenize b.expression)
    (sums : Aggregation) (evaluation : Evaluation) :
    b.evaluate sums (evaluation.step sums a).context = b.evaluate sums evaluation.context := by
  refine Row.evaluate_congr (fun name hname => ?_) sums
  have hne : name ≠ a.name := fun hsame => h (hsame ▸ hname)
  rw [Evaluation.get?_context_step, if_neg hne]

/-- **Independent neighbours commute.** -/
theorem sameAnswers_swap {a b : Row} (h : a.Independent b) (sums : Aggregation)
    (evaluation : Evaluation) :
    SameAnswers ((evaluation.step sums a).step sums b) ((evaluation.step sums b).step sums a) := by
  -- neither row sees what the other has done
  have ha := Row.evaluate_step h.left sums evaluation
  have hb := Row.evaluate_step h.right sums evaluation
  constructor
  · intro name
    simp only [Evaluation.get?_context_step, ha, hb]
    -- the names differ, so no more than one of the rows answers for a name
    by_cases hname : name = a.name
    · have hother : name ≠ b.name := fun hsame => h.names (hname.symm.trans hsame)
      rw [if_neg hother, if_neg hother]
    · rw [if_neg hname, if_neg hname]
  · intro id
    simp only [Evaluation.getElem?_errors_step, ha, hb]
    by_cases hid : id = a.id
    · have hother : id ≠ b.id := fun hsame => h.ids (hid.symm.trans hsame)
      rw [if_neg hother, if_neg hother]
    · rw [if_neg hid, if_neg hid]

/-! ## A whole sheet -/

theorem Context.mem_names_iff {context : Context} {name : String} :
    name ∈ context.names ↔ (context.get? name).isSome = true := by
  rw [names, get?]
  simp [List.lookup_isSome_iff]

/-- **Independent rows may be reordered.** Two neighbours with different names and different ids,
neither of whose formulas holds the other's name, may change places: under every name there is the
same entry or none, and the errors are the same. The names are the same, too; only their order may
be another. -/
theorem Sheet.evaluate_swap (above below : List Row) (a b : Row) (buffs : List Buff)
    (active : ActivationSet) (h : a.Independent b) :
    let first := (⟨above ++ [a, b] ++ below, buffs⟩ : Sheet).evaluate active
    let second := (⟨above ++ [b, a] ++ below, buffs⟩ : Sheet).evaluate active
    (∀ name, first.context.get? name = second.context.get? name)
      ∧ first.errors = second.errors
      ∧ first.context.names.Perm second.context.names := by
  intro first second
  let sums := Aggregation.collect buffs active
  let start := Evaluation.start.run sums above
  -- the pass over the rows is split at the two that are exchanged
  have hrun : ∀ c d, (⟨above ++ [c, d] ++ below, buffs⟩ : Sheet).evaluate active
      = ((start.step sums c).step sums d).run sums below := by
    intro c d
    rw [Sheet.evaluate, Evaluation.run_append, Evaluation.run_append]
    rfl
  have hsame : SameAnswers first second := by
    show SameAnswers (Sheet.evaluate _ active) (Sheet.evaluate _ active)
    rw [hrun a b, hrun b a]
    exact (sameAnswers_swap h sums start).run sums below
  refine ⟨hsame.entries, Std.ExtTreeMap.ext_getElem? hsame.errors, ?_⟩
  -- the same names without repetition, in another order
  refine (List.perm_ext_iff_of_nodup (Sheet.summarizes _ active).nodup
    (Sheet.summarizes _ active).nodup).mpr fun name => ?_
  rw [Context.mem_names_iff, Context.mem_names_iff, hsame.entries]

/-- A `Bonus` and a `Malus` of one `Base`, the second raised by a buff, may change places. So their
order among the names does, and the `Total` of them stays. -/
theorem bonus_malus_swap :
    let bonus : Row := ⟨"r2", "Bonus", "Base + 2"⟩
    let malus : Row := ⟨"r3", "Malus", "Base - 3"⟩
    let buffs : List Buff := [⟨"b", "Boost", [⟨"m", "Malus", .flat, 4.0⟩]⟩]
    let evaluate := fun neighbours => Sheet.evaluate
      ⟨[⟨"r1", "Base", "10"⟩] ++ neighbours ++ [⟨"r4", "Total", "Bonus * Malus"⟩], buffs⟩
      (.ofList ["b"])
    bonus.Independent malus
      ∧ (∀ name, (evaluate [bonus, malus]).context.get? name
          = (evaluate [malus, bonus]).context.get? name)
      ∧ (evaluate [bonus, malus]).errors = (evaluate [malus, bonus]).errors
      ∧ (evaluate [bonus, malus]).context.names.Perm (evaluate [malus, bonus]).context.names
      ∧ (evaluate [bonus, malus]).context.names ≠ (evaluate [malus, bonus]).context.names
      ∧ (evaluate [malus, bonus]).context.value? "Total" = some 132.0 := by
  intro bonus malus buffs evaluate
  have hindependent : bonus.Independent malus := by with_unfolding_all decide
  obtain ⟨hentries, herrors, hnames⟩ :=
    Sheet.evaluate_swap [⟨"r1", "Base", "10"⟩] [⟨"r4", "Total", "Bonus * Malus"⟩] bonus malus buffs
      (.ofList ["b"]) hindependent
  exact ⟨hindependent, hentries, herrors, hnames, by with_unfolding_all decide,
    by with_unfolding_all decide⟩

end FormulaSheet
