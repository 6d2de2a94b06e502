import FormulaSheet.Command.Report
import FormulaSheet.Proofs.Document.Resaving
import FormulaSheet.Proofs.Sheet.Visibility

/-!
# FormulaSheet — what the listing says of a row

The listing of the command has an item for every row. It looks for the error of a row under its id, and
for its value under its name. Both are looked up in what is left in the end, where a name has one entry,
that of the last row that evaluated. So a failed row shows its own error and every row its own mark, but
of rows that share a name all show the value of the last one.

* `Sheet.getElem?_errors_of_results`, `Sheet.get?_of_results` — what is left of a row in the end.
* `Report.listing_eq_map` — no row is left out.
* `Report.ofLoaded_items` — the headline: the items of all rows, and when an item shows the row's own
  value.
* `Report.redefined_row_shows_other_value` — a text of which the listing shows a value twice.
-/

namespace FormulaSheet

open Text (alignLeft)

/-! ## What is left of a row -/

section Results

variable {sheet : Sheet} {active : ActivationSet} {above below : List RowResult} {result : RowResult}
  {entry : Entry}

/-- The entry that is found under the name of a row in the end, if the row itself evaluated to the given
one: that of the last row below that evaluated under the name, or else its own. -/
def Entry.leftBy (below : List RowResult) (name : String) (own : Entry) : Entry :=
  (last? name (evaluated below)).getD own

/-- It is its own, if every row below of that name failed. -/
theorem Entry.leftBy_of_failed {name : String}
    (h : ∀ other ∈ below, other.row.name = name → ∃ e, other.outcome = .error e) :
    entry.leftBy below name = entry := by
  have hnone : last? name (evaluated below) = none := by
    refine Option.not_isSome_iff_eq_none.mp fun hsome => ?_
    obtain ⟨other, hother, hname, shown, hshown⟩ :=
      mem_names_evaluated_iff.mp (last?_isSome_iff.mp hsome)
    obtain ⟨e, he⟩ := h other hother hname
    cases he.symm.trans hshown
  simp only [leftBy, hnone, Option.getD_none]

theorem Sheet.get?_of_results (h : sheet.results active = above ++ result :: below)
    (houtcome : result.outcome = .ok entry) :
    (sheet.evaluate active).context.get? result.row.name
      = some (entry.leftBy below result.row.name) := by
  have hevaluated : evaluated (above ++ result :: below)
      = (evaluated above ++ [(result.row.name, entry)]) ++ evaluated below := by
    simp [evaluated, RowResult.entry?, houtcome]
  rw [(sheet.summarizes active).entries, h, hevaluated, last?_append, last?_concat, if_pos rfl,
    Entry.leftBy]
  cases last? result.row.name (evaluated below) <;> rfl

/-- If no two rows have the same id, the error under the id of a row is its own, if it has one. -/
theorem Sheet.getElem?_errors_of_results (hids : (sheet.rows.map Row.id).Nodup)
    (h : sheet.results active = above ++ result :: below) :
    (sheet.evaluate active).errors[result.row.id]? = result.error?.map Prod.snd := by
  have hrows : (sheet.results active).map RowResult.row = sheet.rows :=
    Evaluation.map_row_results sheet.rows
  rw [← hrows, List.map_map, h, List.map_append, List.map_cons] at hids
  obtain ⟨-, hbelow, habove⟩ := List.nodup_append.mp hids
  -- an error under this id comes from a row with this id, and no other row has it
  have hother : ∀ others : List RowResult, result.row.id ∈ (failed others).map Prod.fst →
      result.row.id ∈ others.map (Row.id ∘ RowResult.row) := by
    intro others hmem
    obtain ⟨other, hother, hid, -⟩ := mem_ids_failed_iff.mp hmem
    exact List.mem_map.mpr ⟨other, hother, hid⟩
  have hfailed : failed (above ++ result :: below)
      = (failed above ++ result.error?.toList) ++ failed below := by
    rw [failed, List.filterMap_append, List.filterMap_cons, List.append_assoc]
    cases result.error? <;> rfl
  have hnone : last? result.row.id (failed above) = none :=
    Option.not_isSome_iff_eq_none.mp fun hsome =>
      habove _ (hother above (last?_isSome_iff.mp hsome)) _ List.mem_cons_self rfl
  rw [(sheet.summarizes active).errors, h, hfailed,
    last?_append_of_notMem fun hmem => (List.nodup_cons.mp hbelow).1 (hother below hmem)]
  cases houtcome : result.outcome with
  | ok entry => simp [RowResult.error?, houtcome, hnone]
  | error e => simp [RowResult.error?, houtcome, last?_concat]

/-- Whether a row is flagged depends on its name only. -/
theorem Sheet.buffed_of_results (h : sheet.results active = above ++ result :: below)
    (houtcome : result.outcome = .ok entry) :
    entry.buffed
      = ((Aggregation.collect sheet.buffs active)[result.row.name]?.map Totals.isBuffed).getD false := by
  obtain ⟨value, hentry⟩ := (Sheet.sees_of_results h).exists_overlaid houtcome
  rw [hentry, Entry.overlaid]
  cases (Aggregation.collect sheet.buffs active)[result.row.name]? <;> rfl

/-- So the entry that is left has the same flag. -/
theorem Sheet.buffed_leftBy (h : sheet.results active = above ++ result :: below)
    (houtcome : result.outcome = .ok entry) :
    (entry.leftBy below result.row.name).buffed = entry.buffed := by
  rw [Entry.leftBy]
  cases hlast : last? result.row.name (evaluated below) with
  | none => rfl
  | some shown =>
    obtain ⟨_, _, hsplit, -⟩ := last?_eq_some hlast
    obtain ⟨before, other, after, rfl, -, hname, hother⟩ := evaluated_eq_append_cons hsplit
    -- a row below has the name as well, and the same modifiers target it
    have hbelow : sheet.results active = (above ++ result :: before) ++ other :: after := by
      rw [h, List.append_assoc, List.cons_append]
    rw [Option.getD_some, Sheet.buffed_of_results hbelow hother, hname,
      Sheet.buffed_of_results h houtcome]

end Results

/-! ## Items -/

namespace Report

/-- The item of a row that failed. -/
def errorItem (row : Row) (e : RowError) : String :=
  alignLeft 16 (if row.name.isEmpty then "(unnamed)" else row.name) ++ " error: " ++ e.message

/-- The item of a row that evaluated, with the value it shows. -/
def valueItem (row : Row) (value : Float) (marked : Bool) : String :=
  alignLeft 16 row.name ++ " = " ++ Decimal.formatNumber value ++ (if marked then " *" else "")

section Items

variable {evaluation : Evaluation} {row : Row}

theorem rowLine?_of_error {e : RowError} (h : evaluation.errors[row.id]? = some e) :
    rowLine? evaluation row = some (errorItem row e) := by
  rw [rowLine?, h]
  rfl

theorem rowLine?_of_entry {entry : Entry} (h : evaluation.errors[row.id]? = none)
    (hentry : evaluation.context.get? row.name = some entry) :
    rowLine? evaluation row = some (valueItem row entry.value entry.buffed) := by
  rw [rowLine?, h, hentry]
  rfl

/-- Two values are told apart by an item if their texts are. -/
theorem valueItem_inj {value other : Float} {marked : Bool} :
    valueItem row value marked = valueItem row other marked
      ↔ Decimal.formatNumber value = Decimal.formatNumber other := by
  rw [valueItem, valueItem]
  constructor
  · intro h
    exact String.append_right_inj _ |>.mp (String.append_left_inj _ |>.mp h)
  · intro h
    rw [h]

end Items

variable {sheet : Sheet} {active : ActivationSet} {above below : List RowResult} {result : RowResult}

/-- The item of every row. -/
theorem rowLine?_of_results (hids : (sheet.rows.map Row.id).Nodup)
    (h : sheet.results active = above ++ result :: below) :
    rowLine? (sheet.evaluate active) result.row = some (match result.outcome with
      | .error e => errorItem result.row e
      | .ok entry => valueItem result.row (entry.leftBy below result.row.name).value entry.buffed) := by
  have herror := Sheet.getElem?_errors_of_results hids h
  cases houtcome : result.outcome with
  | error e =>
    rw [RowResult.error?, houtcome] at herror
    exact rowLine?_of_error herror
  | ok entry =>
    rw [RowResult.error?, houtcome] at herror
    -- an entry is looked up by its name, and a row below may have overwritten it
    rw [rowLine?_of_entry herror (Sheet.get?_of_results h houtcome), Sheet.buffed_leftBy h houtcome]

/-- There is an item for every row, in the order of the rows. -/
theorem listing_eq_map (active : ActivationSet) (hids : (sheet.rows.map Row.id).Nodup) :
    (listing sheet (sheet.evaluate active)).map some
      = sheet.rows.map (rowLine? (sheet.evaluate active)) := by
  have hsome : ∀ row ∈ sheet.rows, ∃ item, rowLine? (sheet.evaluate active) row = some item := by
    intro row hmem
    have hrows : (sheet.results active).map RowResult.row = sheet.rows :=
      Evaluation.map_row_results sheet.rows
    rw [← hrows] at hmem
    obtain ⟨result, hresult, rfl⟩ := List.mem_map.mp hmem
    obtain ⟨above, below, hsplit⟩ := List.append_of_mem hresult
    exact ⟨_, rowLine?_of_results hids hsplit⟩
  rw [listing]
  -- the state stays that of the whole sheet while the rows are gone through
  generalize sheet.rows = rows at hsome
  induction rows with
  | nil => rfl
  | cons row below ih =>
    obtain ⟨⟨item, hitem⟩, hbelow⟩ := List.forall_mem_cons.mp hsome
    rw [List.filterMap_cons_some hitem, List.map_cons, List.map_cons, ih hbelow, hitem]

end Report

/-! ## What the command prints -/

/-- The scenarios of a document, with the one selected that the command is asked for, if there is such
a one. -/
def Document.selected? (document : Document) (wanted : Option ScenarioId) : Option ScenarioSet :=
  match wanted with
  | none => some document.scenarioSet
  | some id => document.scenarioSet.selectActive? id

namespace Report

theorem ofLoaded_of_selected {options : Options} {document : Document} {scenarios : ScenarioSet}
    (h : document.selected? options.scenario = some scenarios) :
    ofLoaded options (.ok document) = ofScenarios options document scenarios := by
  rw [ofLoaded, ofDocument]
  cases hwanted : options.scenario with
  | none =>
    rw [hwanted] at h
    rw [← Option.some.inj h]
  | some id =>
    rw [hwanted] at h
    replace h : document.scenarioSet.selectActive? id = some scenarios := h
    simp only [h]

/-- **What the listing says of each row.** Whichever scenario is selected, the listing has one item for
each row, in the order of the rows, if no two rows have the same id. A row that failed shows its own
error. A row that evaluated shows its own mark, and the value of the last row that evaluated under its
name; this looks like its own value if and only if the two have the same text, and so it does if no row
below evaluated under the name. -/
theorem ofLoaded_items {options : Options} {document : Document} {scenarios : ScenarioSet}
    (hselected : document.selected? options.scenario = some scenarios)
    (hids : (document.sheet.rows.map Row.id).Nodup) :
    let results := document.sheet.results scenarios.active.active
    results.map RowResult.row = document.sheet.rows
    ∧ ∃ items more : List String, (ofLoaded options (.ok document)).lines = items ++ more
      ∧ items.length = document.sheet.rows.length
      ∧ ∀ (above : List RowResult) (result : RowResult) (below : List RowResult),
        results = above ++ result :: below →
        (∀ e, result.outcome = .error e → items[above.length]? = some (errorItem result.row e))
        ∧ ∀ entry, result.outcome = .ok entry →
          let shown := entry.leftBy below result.row.name
          items[above.length]? = some (valueItem result.row shown.value entry.buffed)
          ∧ (items[above.length]? = some (valueItem result.row entry.value entry.buffed) ↔
              Decimal.formatNumber shown.value = Decimal.formatNumber entry.value)
          ∧ ((∀ other ∈ below, other.row.name = result.row.name → ∃ e, other.outcome = .error e) →
              items[above.length]? = some (valueItem result.row entry.value entry.buffed)) := by
  intro results
  have hrows : results.map RowResult.row = document.sheet.rows :=
    Evaluation.map_row_results document.sheet.rows
  have hitems := listing_eq_map scenarios.active.active hids
  have hlength := congrArg List.length hitems
  rw [List.length_map, List.length_map] at hlength
  refine ⟨hrows, listing document.sheet (document.sheet.evaluate scenarios.active.active), _,
    congrArg Report.lines (ofLoaded_of_selected hselected), hlength, ?_⟩
  intro above result below hsplit
  -- no row is skipped, so an item stands at the place of its row
  have hitem : (listing document.sheet (document.sheet.evaluate scenarios.active.active))[above.length]?
      = rowLine? (document.sheet.evaluate scenarios.active.active) result.row := by
    have hplace := congrArg (·[above.length]?) hitems
    rw [← hrows, hsplit] at hplace
    simpa [rowLine?_of_results hids hsplit] using hplace
  rw [hitem, rowLine?_of_results hids hsplit]
  constructor
  · intro e houtcome
    rw [houtcome]
  · intro entry houtcome
    rw [houtcome]
    refine ⟨rfl, ?_, fun hbelow => ?_⟩
    · rw [Option.some.injEq, valueItem_inj]
    · have hown : entry.leftBy below result.row.name = entry := Entry.leftBy_of_failed hbelow
      simp only [hown]

/-- A sheet with a name that two rows evaluate under, and a third row fails. -/
def contested : Document where
  version := 1
  sheet := {
    rows := [⟨"r1", "Total", "4"⟩, ⟨"r2", "Total", "(Total"⟩, ⟨"r3", "Total", "Total + 1"⟩]
    buffs := [⟨"b", "Boost", [⟨"m", "Total", .flat, 0.5⟩]⟩] }
  active := ∅
  target := none
  scenarios := [⟨"s1", "Plain", ∅⟩, ⟨"s2", "Boosted", .ofList ["b"]⟩]
  baseline := none

/-- Under the second scenario the rows evaluate to `4.5` and `6`, and `6` is shown for both. -/
theorem contested_items :
    let options : Options := ⟨"doc.json", none, some "s2", false, false, false⟩
    ∃ scenarios first second third entry, contested.selected? options.scenario = some scenarios
      ∧ (contested.sheet.rows.map Row.id).Nodup
      ∧ contested.sheet.results scenarios.active.active = [first, second, third]
      ∧ first.outcome = .ok entry
      ∧ entry.value = 4.5
      ∧ second.outcome = .error (.parse .missingParen)
      ∧ ∃ items more, (ofLoaded options (.ok contested)).lines = items ++ more
        ∧ items.length = 3
        ∧ items[0]? = some (valueItem first.row 6.0 true)
        ∧ items[0]? ≠ some (valueItem first.row entry.value true)
        ∧ items[1]? = some (errorItem second.row (.parse .missingParen)) := by
  intro options
  let scenarios : ScenarioSet := ⟨contested.scenarios, "s2", "s1", by decide⟩
  let entry : Entry := ⟨.literal 4.0 .parsed,
    .binary .add (.literal 4.0 .parsed) (.literal 0.5 .buff) .buff, 4.5, true⟩
  let sum : Formula := .binary .add (.reference "Total") (.literal 1.0 .parsed) .parsed
  let last : Entry := ⟨sum, .binary .add sum (.literal 0.5 .buff) .buff, 6.0, true⟩
  have hselected : contested.selected? options.scenario = some scenarios := rfl
  have hids : (contested.sheet.rows.map Row.id).Nodup := by decide
  obtain ⟨first, second, third, hresults⟩ : ∃ first second third,
      contested.sheet.results scenarios.active.active = [first, second, third] := ⟨_, _, _, rfl⟩
  -- the rows and their errors are evaluated
  have hentries : (contested.sheet.results scenarios.active.active).map RowResult.entry?
      = [some ("Total", entry), none, some ("Total", last)] := by
    with_unfolding_all decide
  have herrors : (contested.sheet.results scenarios.active.active).map RowResult.error?
      = [none, some ("r2", .parse .missingParen), none] := by
    with_unfolding_all decide
  simp only [hresults, List.map_cons, List.map_nil, List.cons.injEq, and_true] at hentries herrors
  obtain ⟨hname, hentry⟩ := RowResult.entry?_eq_some_iff.mp hentries.1
  obtain ⟨-, houtcome⟩ := RowResult.error?_eq_some_iff.mp herrors.2.1
  -- the last row of the name is the one that is shown
  have hshown : entry.leftBy [second, third] first.row.name = last := by
    simp [Entry.leftBy, evaluated, hentries.2.1, hentries.2.2, last?, hname]
  obtain ⟨-, items, more, hlines, hlength, hitems⟩ := ofLoaded_items hselected hids
  obtain ⟨hitem, hown, -⟩ := (hitems [] first [second, third] hresults).2 entry hentry
  rw [hshown] at hitem hown
  refine ⟨scenarios, first, second, third, entry, hselected, hids, hresults, hentry, rfl, houtcome,
    items, more, hlines, hlength, hitem, fun h => absurd (hown.mp h) (by with_unfolding_all decide), ?_⟩
  exact (hitems [first] second [third] hresults).1 _ houtcome

/-- The text of a document in which a row builds on a row above it of the same name. -/
def redefined : String :=
  "\x7b\"rows\": [[\"r1\", \"X\", \"1\"], [\"r2\", \"X\", \"X + 1\"]], \"buffs\": []\x7d"

/-- Both rows are listed with the value of the second one. -/
theorem redefined_row_shows_other_value :
    ∃ document first second entry, Document.read redefined = .ok document
      ∧ (document.sheet.rows.map Row.id).Nodup
      ∧ document.sheet.results document.scenarioSet.active.active = [first, second]
      ∧ first.outcome = .ok entry
      ∧ valueItem first.row entry.value entry.buffed = "X                = 1"
      ∧ (ofLoaded ⟨"doc.json", none, none, false, false, false⟩ (Document.read redefined)).lines
        = ["X                = 2", "X                = 2"] := by
  let document : Document :=
    ⟨1, ⟨[⟨"r1", "X", "1"⟩, ⟨"r2", "X", "X + 1"⟩], []⟩, ∅, none, [], none⟩
  let entry : Entry := ⟨.literal 1.0 .parsed, .literal 1.0 .parsed, 1.0, false⟩
  let sum : Formula := .binary .add (.reference "X") (.literal 1.0 .parsed) .parsed
  have hread : Document.read redefined = .ok document :=
    Document.read_of_toOption (by with_unfolding_all decide)
  obtain ⟨first, second, hresults⟩ : ∃ first second,
      document.sheet.results document.scenarioSet.active.active = [first, second] := ⟨_, _, rfl⟩
  -- the first row is worth one where it stands
  have hentries : (document.sheet.results document.scenarioSet.active.active).map RowResult.entry?
      = [some ("X", entry), some ("X", ⟨sum, sum, 2.0, false⟩)] := by
    with_unfolding_all decide
  simp only [hresults, List.map_cons, List.map_nil, List.cons.injEq, and_true] at hentries
  obtain ⟨hname, hentry⟩ := RowResult.entry?_eq_some_iff.mp hentries.1
  refine ⟨document, first, second, entry, hread, by decide, hresults, hentry, ?_, ?_⟩
  · rw [valueItem, hname]
    with_unfolding_all decide
  · rw [hread]
    with_unfolding_all decide

end Report

end FormulaSheet
