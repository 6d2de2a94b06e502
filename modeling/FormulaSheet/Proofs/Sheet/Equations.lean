import FormulaSheet.Proofs.Double.Arithmetic
import FormulaSheet.Proofs.Sheet.Visibility

/-!
# FormulaSheet — the equations of a sheet

An entry is made against the names as they stand at its row, and later rows may define some of them
anew. As long as they define none that the entry refers to, the entry is right against the names in
the end, too: its value is that of its formula, with the sums for its name laid over it, and the
tree on display has this value.

* `Totals.agrees_eval_display` — what is shown computes what is applied: the factor and the term
  that the tree leaves out change nothing, and a term shown with its sign is the sum.
* `Sees.value_final` — its value against the names in the end.
* `Sheet.evaluate_equations` — the headline.
-/

namespace FormulaSheet

/-! ## What is shown computes what is applied -/

theorem Formula.eval_asFactor (tree : Formula) (valueOf : String → Float) :
    tree.asFactor.eval valueOf = tree.eval valueOf := by
  rw [asFactor]
  split <;> rfl

namespace Totals

variable (totals : Totals) (tree : Formula) (valueOf : String → Float)

/-- The multiplier that is shown is the one that is applied. -/
theorem eval_showMultiplier :
    (totals.showMultiplier tree).eval valueOf
      = tree.eval valueOf * (1.0 + totals.multiplier) := by
  rw [showMultiplier]
  split
  · show tree.asFactor.eval valueOf * (1.0 + totals.multiplier) = _
    rw [Formula.eval_asFactor]
  · next hzero =>
    have hone : 1.0 + totals.multiplier = 1.0 := Double.one_add_of_zero (by simpa [bne] using hzero)
    rw [hone, Double.mul_one]

/-- The flat amount that is shown adds up to what is applied, also where a negative one is shown as
subtracted. -/
theorem agrees_eval_showFlat :
    Double.Agrees ((totals.showFlat tree).eval valueOf) (tree.eval valueOf + totals.flat) := by
  rw [showFlat]
  split
  · next hflat =>
    -- the sign chooses the operator
    have hsum : (tree.buffed (if 0.0 < totals.flat then .add else .sub) totals.flat.abs).eval
        valueOf = if 0.0 < totals.flat then tree.eval valueOf + totals.flat.abs
          else tree.eval valueOf - totals.flat.abs := by
      split <;> rfl
    rw [hsum, Double.add_signed_abs hflat]
    exact Double.agrees_refl _
  · next hzero =>
    exact Double.agrees_add_of_zero (by simpa [bne] using hzero) _

/-- What is shown computes what is applied. -/
theorem agrees_eval_display :
    Double.Agrees ((totals.display tree).eval valueOf) (totals.apply (tree.eval valueOf)) := by
  have hflat := totals.agrees_eval_showFlat (totals.showMultiplier tree) valueOf
  rw [eval_showMultiplier] at hflat
  exact hflat

end Totals

/-! ## Settled entries -/

/-- The entry of a name is settled if no row defines a name anew that it refers to: not the row that
it comes from, and none below that evaluated. -/
def Settled (results : List RowResult) (name : String) (entry : Entry) : Prop :=
  ∃ above below, evaluated results = above ++ (name, entry) :: below
    ∧ name ∉ below.map Prod.fst
    ∧ ∀ reference ∈ entry.base.references, reference ≠ name ∧ reference ∉ below.map Prod.fst

/-! ## Against the names in the end -/

/-- Against a state that has kept the entries which a row saw, its entry is that of its tree. -/
theorem Sees.value_final {sums : Aggregation} {above : List RowResult} {result : RowResult}
    {entry : Entry} (h : Sees sums above result) (hentry : result.outcome = .ok entry)
    {final : Context}
    (hfinal : ∀ name ∈ entry.base.references, final.get? name = lastAbove? above name) :
    entry = .overlaid sums[result.row.name]? (final.evaluate entry.base) entry.base := by
  refine h.value entry hentry (fun name => (final.value? name).getD 0.0) ?_
  intro name hname seen hseen
  rw [Context.value?, hfinal name hname, hseen]
  rfl

/-- The equations of an entry. -/
structure Entry.Solves (entry : Entry) (sheet : Sheet) (active : ActivationSet) (name : String) :
    Prop where
  /-- If a modifier of a buff that is on targets the name, the value is that of the formula, with
  the sums for the name applied. -/
  modified : (∃ modifier ∈ activeModifiers sheet.buffs active, modifier.target = name) →
    ∃ totals, (Aggregation.collect sheet.buffs active)[name]? = some totals
      ∧ entry.value = totals.apply ((sheet.evaluate active).context.evaluate entry.base)
  /-- If none does, the value is that of the formula. -/
  plain : (∀ modifier ∈ activeModifiers sheet.buffs active, modifier.target ≠ name) →
    entry.value = (sheet.evaluate active).context.evaluate entry.base
  /-- The tree on display has the value. -/
  shown : Double.Agrees ((sheet.evaluate active).context.evaluate entry.display) entry.value

variable {sheet : Sheet} {active : ActivationSet} {name : String} {entry : Entry}

/-- An entry that is the overlay of its formula in the final context solves its equations there. -/
theorem Entry.solves_of_eq_overlaid
    (h : entry = .overlaid (Aggregation.collect sheet.buffs active)[name]?
      ((sheet.evaluate active).context.evaluate entry.base) entry.base) :
    entry.Solves sheet active name := by
  have hsome : (Aggregation.collect sheet.buffs active)[name]?.isSome = true
      ↔ ∃ modifier ∈ activeModifiers sheet.buffs active, modifier.target = name :=
    Aggregation.isSome_ofModifiers_iff
  -- no active modifier has the name as its target exactly if there are no totals
  cases htotals : (Aggregation.collect sheet.buffs active)[name]? with
  | none =>
    rw [htotals] at h hsome
    have hvalue : entry.value = (sheet.evaluate active).context.evaluate entry.base :=
      congrArg Entry.value h
    have hdisplay : entry.display = entry.base := congrArg Entry.display h
    have hnone : ¬ ∃ modifier ∈ activeModifiers sheet.buffs active, modifier.target = name :=
      fun htarget => Bool.false_ne_true (hsome.mpr htarget)
    refine ⟨fun htarget => absurd htarget hnone, fun _ => hvalue, ?_⟩
    rw [hdisplay, hvalue]
    exact Double.agrees_refl _
  | some totals =>
    rw [htotals] at h hsome
    have hvalue : entry.value
        = totals.apply ((sheet.evaluate active).context.evaluate entry.base) :=
      congrArg Entry.value h
    have hdisplay : entry.display = totals.display entry.base := congrArg Entry.display h
    obtain ⟨modifier, hmem, htarget⟩ := hsome.mp rfl
    refine ⟨fun _ => ⟨totals, htotals, hvalue⟩,
      fun hnone => absurd htarget (hnone modifier hmem), ?_⟩
    rw [hdisplay, hvalue]
    exact totals.agrees_eval_display entry.base _

/-- A settled entry solves its equations with the names as they are in the end. -/
theorem Settled.solves (h : Settled (sheet.results active) name entry) :
    entry.Solves sheet active name := by
  obtain ⟨above, below, hsplit, hlast, hreferences⟩ := h
  obtain ⟨before, result, after, hresults, rfl, rfl, hentry⟩ := evaluated_eq_append_cons hsplit
  refine Entry.solves_of_eq_overlaid ((Sheet.sees_of_results hresults).value_final hentry ?_)
  intro reference hmem
  obtain ⟨hname, hbelow⟩ := hreferences reference hmem
  -- what the row saw under the reference has not been touched since
  have hkept : reference ∉ ((result.row.name, entry) :: below).map Prod.fst := by
    rw [List.map_cons, List.mem_cons]
    exact fun h => h.elim hname hbelow
  rw [(sheet.summarizes active).entries, hsplit, last?_append_of_notMem hkept, lastAbove?]

/-- Where every name is evaluated once, every entry is settled. -/
theorem settled_of_nodup (hdistinct : ((evaluated (sheet.results active)).map Prod.fst).Nodup)
    (h : (sheet.evaluate active).context.get? name = some entry) :
    Settled (sheet.results active) name entry := by
  rw [(sheet.summarizes active).entries] at h
  obtain ⟨above, below, hsplit, hlast⟩ := last?_eq_some h
  refine ⟨above, below, hsplit, hlast, fun reference hmem => ?_⟩
  obtain ⟨before, result, after, hresults, rfl, rfl, hentry⟩ := evaluated_eq_append_cons hsplit
  obtain ⟨seen, hseen⟩ := (Sheet.sees_of_results hresults).resolved entry hentry reference hmem
  -- the references were in scope, so they were evaluated further up
  have habove : reference ∈ (evaluated before).map Prod.fst :=
    last?_isSome_iff.mp (Option.isSome_iff_exists.mpr ⟨seen, hseen⟩)
  rw [hsplit, List.map_append, List.nodup_append] at hdistinct
  -- a name that was evaluated above is not evaluated again
  have hapart := hdistinct.2.2 reference habove
  rw [List.map_cons] at hapart
  exact ⟨hapart _ List.mem_cons_self,
    fun hbelow => hapart reference (List.mem_cons_of_mem _ hbelow) rfl⟩

/-- **The state in the end solves its own equations.** The value of a settled entry is that of its
formula against the names in the end, with the sums for its name applied if an active modifier
targets it, and the tree on display computes that value. If no name evaluated twice, then every
entry is so. -/
theorem Sheet.evaluate_equations (sheet : Sheet) (active : ActivationSet) :
    (∀ name entry, (sheet.evaluate active).context.get? name = some entry →
      Settled (sheet.results active) name entry → entry.Solves sheet active name)
    ∧ (((evaluated (sheet.results active)).map Prod.fst).Nodup →
        ∀ name entry, (sheet.evaluate active).context.get? name = some entry →
          entry.Solves sheet active name) :=
  ⟨fun _ _ _ hsettled => hsettled.solves,
    fun hdistinct _ _ hget => (settled_of_nodup hdistinct hget).solves⟩

/-- A sheet in which `Base` is defined twice, and a `Total` of it is raised by half and lowered by
ten. -/
def surcharged : Sheet where
  rows := [⟨"r1", "Base", "3"⟩, ⟨"r2", "Base", "Base + 1"⟩, ⟨"r3", "Total", "Base * 2"⟩]
  buffs := [⟨"b", "Surcharge",
    [⟨"m1", "Total", .multiplicative, 0.5⟩, ⟨"m2", "Total", .flat, -10.0⟩]⟩]

/-- The `Total` of that sheet is settled. The `Base` is not, for it refers to the one before;
without that row no name evaluates twice. -/
theorem surcharged_equations :
    let product : Formula := .binary .mul (.reference "Base") (.literal 2.0 .parsed) .parsed
    let scaled : Formula := .binary .mul (.group product) (.literal 1.5 .buff) .buff
    let shifted : Formula := .binary .sub scaled (.literal 10.0 .buff) .buff
    let total : Entry := ⟨product, shifted, 2.0, true⟩
    let active : ActivationSet := .ofList ["b"]
    let single : Sheet := ⟨[⟨"r1", "Base", "4"⟩, ⟨"r3", "Total", "Base * 2"⟩], surcharged.buffs⟩
    (surcharged.evaluate active).context.get? "Total" = some total
      ∧ Settled (surcharged.results active) "Total" total
      ∧ total.Solves surcharged active "Total"
      ∧ ((evaluated (single.results active)).map Prod.fst).Nodup
      ∧ (single.evaluate active).context.get? "Total" = some total
      ∧ total.Solves single active "Total" := by
  intro product scaled shifted total active single
  have hget : (surcharged.evaluate active).context.get? "Total" = some total := by decide +kernel
  have hsettled : Settled (surcharged.results active) "Total" total :=
    ⟨(evaluated (surcharged.results active)).take 2, [], by decide +kernel, by decide +kernel,
      by decide +kernel⟩
  have hdistinct : ((evaluated (single.results active)).map Prod.fst).Nodup := by decide +kernel
  have hsingle : (single.evaluate active).context.get? "Total" = some total := by decide +kernel
  exact ⟨hget, hsettled, (surcharged.evaluate_equations active).1 _ _ hget hsettled, hdistinct,
    hsingle, (single.evaluate_equations active).2 hdistinct _ _ hsingle⟩

end FormulaSheet
