import FormulaSheet.Proofs.Formula.Boundaries
import FormulaSheet.Proofs.Formula.MissingNames
import FormulaSheet.Proofs.Sheet.Visibility

/-!
# FormulaSheet — rows that lack a name

A row whose formula is a whole one, the names in it aside, can fail for one reason only: a name in it is
not that of a row above that evaluated. Its error is about the leftmost such name. The name may be its
own, or one that only a row below has, or that of a row above that failed.

* `Row.evaluate_of_defines`, `Row.evaluate_of_lacking` — a row against the names known above it.
* `Sheet.evaluate_lacking` — every row of a sheet, and its error in the end.
-/

namespace FormulaSheet

section Rows

variable {row : Row} {sums : Aggregation} {context : Context} {scope : Scope} {tree : Formula}
  {name : String}

/-- An expression that parses is not empty. -/
theorem Row.expression_ne_empty (h : parse scope (tokenize row.expression) = .ok tree) :
    row.expression ≠ "" := by
  intro hempty
  obtain ⟨-, htokens, -⟩ := parse_eq_ok_iff.mp h
  rw [hempty, tokenize_empty] at htokens
  exact tree.tokens_ne_nil htokens

/-- A row whose names are all defined is evaluated to the overlay of its formula. -/
theorem Row.evaluate_of_defines (hname : row.name ≠ "")
    (hparse : parse scope (tokenize row.expression) = .ok tree)
    (hdefines : ∀ name, .name name ∈ tokenize row.expression → context.defines name = true) :
    row.evaluate sums context
      = .ok (.overlaid sums[row.name]? (context.evaluate tree) tree) := by
  have hknown := parse_of_defines hparse hdefines
  exact Row.evaluate_eq_ok_iff.mpr ⟨hname, expression_ne_empty hparse, tree, hknown, rfl⟩

/-- A row that lacks a name fails at the first that it lacks. -/
theorem Row.evaluate_of_lacking (hname : row.name ≠ "")
    (hparse : parse scope (tokenize row.expression) = .ok tree)
    (hlacks : firstLacking? context.defines (tokenize row.expression) = some name) :
    row.evaluate sums context = .error (.parse (.unknownIdentifier name)) := by
  have hunknown := parse_of_lacking hparse hlacks
  simp only [Row.evaluate, Context.parse, String.isEmpty_iff, hname, expression_ne_empty hparse,
    if_false, hunknown]

end Rows

/-- **A whole formula fails only by its leftmost name out of scope**, and a named row with such a
formula only by its leftmost name that no row above evaluated under. If all names of the formula are
known, the row evaluates. The error of a row stays under its id unless a row below with the same id
fails. -/
theorem Sheet.evaluate_lacking :
    (∀ (scope other : Scope) tokens tree, parse other tokens = .ok tree →
      ((∀ name, .name name ∈ tokens → scope name = true) → parse scope tokens = .ok tree)
      ∧ ∀ unknown, .name unknown ∈ tokens → scope unknown = false →
          ∃ first, firstLacking? scope tokens = some first
            ∧ parse scope tokens = .error (.unknownIdentifier first))
    ∧ ∀ (sheet : Sheet) active above result below,
        sheet.results active = above ++ result :: below → result.row.name ≠ "" →
        ∀ tree, parse (fun _ => true) (tokenize result.row.expression) = .ok tree →
          ((∀ name, .name name ∈ tokenize result.row.expression → scopeAbove above name = true) →
            ∃ entry, result.outcome = .ok entry ∧ entry.base = tree)
          ∧ ∀ unknown, .name unknown ∈ tokenize result.row.expression →
              scopeAbove above unknown = false →
              ∃ first,
                firstLacking? (scopeAbove above) (tokenize result.row.expression) = some first
                ∧ result.outcome = .error (.parse (.unknownIdentifier first))
                ∧ ((∀ other ∈ below, other.row.id = result.row.id →
                      ∃ entry, other.outcome = .ok entry) →
                    (sheet.evaluate active).errors[result.row.id]?
                      = some (.parse (.unknownIdentifier first))) := by
  constructor
  · intro scope other tokens tree hparse
    refine ⟨parse_of_defines hparse, fun unknown hmem hunknown => ?_⟩
    -- some name is lacking, and the first of them is reported
    obtain ⟨first, hfirst⟩ := exists_firstLacking hmem hunknown
    exact ⟨first, hfirst, parse_of_lacking hparse hfirst⟩
  · intro sheet active above result below hresults hname tree hparse
    obtain ⟨evaluation, hstate, houtcome⟩ := Sheet.exists_state_of_results hresults
    -- the scope of the row is that of the evaluation above it
    rw [← hstate.defines_eq]
    constructor
    · intro hdefines
      rw [Row.evaluate_of_defines hname hparse hdefines] at houtcome
      exact ⟨_, houtcome, rfl⟩
    · intro unknown hmem hunknown
      obtain ⟨first, hfirst⟩ := exists_firstLacking hmem hunknown
      rw [Row.evaluate_of_lacking hname hparse hfirst] at houtcome
      exact ⟨first, hfirst, houtcome, Sheet.getElem?_errors_of_last hresults houtcome⟩

/-- A row in which its own name stands, and one that only the row below has. -/
def hasty : Sheet where
  rows := [⟨"r1", "A", "1"⟩, ⟨"r2", "B", "A * (B + Z)"⟩, ⟨"r3", "Z", "A"⟩]
  buffs := []

/-- The row fails by its own name, which stands in front of the other one. -/
theorem hasty_lacking :
    let sums := Aggregation.collect hasty.buffs ∅
    let above : RowResult := ⟨⟨"r1", "A", "1"⟩, Row.evaluate ⟨"r1", "A", "1"⟩ sums .empty⟩
    let row : Row := ⟨"r2", "B", "A * (B + Z)"⟩
    let result : RowResult :=
      ⟨row, row.evaluate sums (Evaluation.start.step sums above.row).context⟩
    parse (fun _ => true) (tokenize row.expression)
        = .ok (.binary .mul (.reference "A")
          (.group (.binary .add (.reference "B") (.reference "Z") .parsed)) .parsed)
      ∧ (∃ below, hasty.results ∅ = [above] ++ result :: below)
      ∧ (∃ first, firstLacking? (· == "A") (tokenize row.expression) = some first
        ∧ parse (· == "A") (tokenize row.expression) = .error (.unknownIdentifier first))
      ∧ firstLacking? (scopeAbove [above]) (tokenize row.expression) = some "B"
      ∧ result.outcome = .error (.parse (.unknownIdentifier "B")) := by
  intro sums above row result
  let tokens : List Token := [.name "A", .operator .mul, .openParen, .name "B", .operator .add,
    .name "Z", .closeParen]
  have htokens : tokenize row.expression = tokens := by with_unfolding_all decide
  have hparse : parse (fun _ => true) tokens = .ok (.binary .mul (.reference "A")
      (.group (.binary .add (.reference "B") (.reference "Z") .parsed)) .parsed) := rfl
  have hscope : scopeAbove [above] "Z" = false := by with_unfolding_all decide
  have hfirst : firstLacking? (scopeAbove [above]) tokens = some "B" := by with_unfolding_all decide
  have hmem : .name "Z" ∈ tokens := by decide
  rw [← htokens] at hparse hmem hfirst
  have hresults : hasty.results ∅ = [above] ++ result :: _ := rfl
  obtain ⟨first, hlacks, houtcome, -⟩ := (Sheet.evaluate_lacking.2 hasty ∅ _ _ _ hresults
    (show row.name ≠ "" by decide) _ hparse).2 "Z" hmem hscope
  obtain rfl : first = "B" := Option.some.inj (hlacks.symm.trans hfirst)
  exact ⟨hparse, ⟨_, hresults⟩,
    (Sheet.evaluate_lacking.1 (· == "A") _ _ _ hparse).2 "Z" hmem rfl, hfirst, houtcome⟩

/-- A row without a name fails for that, though its formula is a whole one and lacks no name. -/
theorem unnamed_row_lacks_nothing :
    let row : Row := ⟨"r", "", "1"⟩
    let sheet : Sheet := ⟨[row], []⟩
    ∃ result, sheet.results ∅ = [] ++ result :: []
      ∧ (∃ tree, parse (fun _ => true) (tokenize result.row.expression) = .ok tree)
      ∧ ¬ ((∃ entry, result.outcome = .ok entry)
        ∨ ∃ name, result.outcome = .error (.parse (.unknownIdentifier name)))
      ∧ result.outcome = .error .missingName := by
  intro row sheet
  have htokens : tokenize row.expression = [.number 1.0] := by with_unfolding_all decide
  refine ⟨⟨row, .error .missingName⟩, rfl, ⟨.literal 1.0 .parsed, ?_⟩, ?_, rfl⟩
  · rw [htokens]
    rfl
  · rintro (⟨_, ⟨⟩⟩ | ⟨_, ⟨⟩⟩)

end FormulaSheet
