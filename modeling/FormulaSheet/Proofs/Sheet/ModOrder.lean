import FormulaSheet.Proofs.Buff.Orders
import FormulaSheet.Proofs.Sheet.BuffMarks
import FormulaSheet.Proofs.Sheet.Outline
import FormulaSheet.Proofs.Sheet.Slicing

/-!
# FormulaSheet — the order of modifiers

The order of the modifiers inside of a buff has no bearing on which rows work, on the trees as they were
written, and on the flags. It has on the values: the sums round after each addition, so modifiers in
another order may come to another sum (`permuted_mods_change_value`). A name keeps its entry if the sums
are kept that it depends on.

* `activeModifiers_perm` — the active modifiers are the same ones, in another order.
* `Totals.of_perm`, `Aggregation.getElem?_collect_perm` — so the sums of a name are the same if those of
  either kind are.
* `Closed.of_outline` — what depends on what is a matter of the outline.
* `Sheet.evaluate_permuted_mods` — the headline.
-/

namespace FormulaSheet

/-- The other buff has the same modifiers, perhaps in another order. -/
structure Buff.SameMods (buff other : Buff) : Prop where
  id : buff.id = other.id
  name : buff.name = other.name
  mods : buff.mods.Perm other.mods

section Sums

variable {buffs buffs' : List Buff} {modifiers modifiers' : List Modifier}

/-- The same modifiers are active, in another order. -/
theorem activeModifiers_perm (h : List.Forall₂ Buff.SameMods buffs buffs') (active : ActivationSet) :
    (activeModifiers buffs active).Perm (activeModifiers buffs' active) := by
  induction h with
  | nil => exact .nil
  | @cons buff other rest rest' hbuff _ ih =>
    rw [activeModifiers, activeModifiers, List.filter_cons, List.filter_cons, ← hbuff.id]
    split
    · exact hbuff.mods.append ih
    · exact ih

theorem targeting_perm (h : modifiers.Perm modifiers') (name : String) :
    (targeting name modifiers).Perm (targeting name modifiers') := h.filter _

/-- The same values are added, in another order. -/
theorem valuesOf_perm (h : modifiers.Perm modifiers') (kind : ModifierKind) :
    (valuesOf kind modifiers).Perm (valuesOf kind modifiers') := (h.filter _).map _

/-- Totals do not depend on the order where their two sums do not. -/
theorem Totals.of_perm (h : modifiers.Perm modifiers')
    (hsums : ∀ kind, leftSum (valuesOf kind modifiers) = leftSum (valuesOf kind modifiers')) :
    Totals.of modifiers = .of modifiers' := by
  rw [of, of, hsums, hsums, (valuesOf_perm h _).length_eq, (valuesOf_perm h _).length_eq]

/-- Nor do those that are collected for a name. -/
theorem Aggregation.getElem?_collect_perm (h : List.Forall₂ Buff.SameMods buffs buffs')
    {active : ActivationSet} {name : String}
    (hsums : ∀ kind, leftSum (valuesOf kind (targeting name (activeModifiers buffs active)))
      = leftSum (valuesOf kind (targeting name (activeModifiers buffs' active)))) :
    (collect buffs active)[name]? = (collect buffs' active)[name]? := by
  have hperm := targeting_perm (activeModifiers_perm h active) name
  have hnil : targeting name (activeModifiers buffs active) = []
      ↔ targeting name (activeModifiers buffs' active) = [] := by
    rw [← List.length_eq_zero_iff, hperm.length_eq, List.length_eq_zero_iff]
  rw [getElem?_collect, getElem?_collect, Totals.of_perm hperm hsums]
  simp only [hnil]

end Sums

/-! ## What depends on what -/

theorem RowResult.references_eq (result : RowResult) :
    result.references = (result.outline.2.toOption.map Formula.references).getD [] := by
  rw [references, outline]
  cases result.outcome <;> rfl

/-- What a row refers to is a matter of the outline. -/
theorem Closed.of_outline {wanted : String → Prop} {results results' : List RowResult}
    (h : Closed wanted results)
    (houtline : results.map RowResult.outline = results'.map RowResult.outline) :
    Closed wanted results' := by
  intro other hother hname
  have hmem : other.outline ∈ results.map RowResult.outline :=
    houtline ▸ List.mem_map_of_mem hother
  obtain ⟨result, hresult, heq⟩ := List.mem_map.mp hmem
  have hrow : result.row = other.row := congrArg Prod.fst heq
  rw [RowResult.references_eq, ← heq, ← RowResult.references_eq]
  exact h result hresult (hrow ▸ hname)

/-! ## Sheets -/

/-- The flag of an entry is settled by its name. -/
theorem Sheet.map_buffed (sheet : Sheet) (active : ActivationSet) (name : String) :
    ((sheet.evaluate active).context.get? name).map Entry.buffed
      = (((sheet.evaluate active).context.get? name).map Entry.base).map
          fun _ => !(sheet.modifiersOf active name).isEmpty := by
  cases hentry : (sheet.evaluate active).context.get? name with
  | none => rfl
  | some entry =>
    have hflag : entry.buffed = !(sheet.modifiersOf active name).isEmpty := by
      rw [Bool.eq_iff_iff, Sheet.buffed_iff hentry, Bool.not_eq_true', List.isEmpty_eq_false_iff]
    exact congrArg some hflag

/-- **The order of modifiers cannot change what works, and changes values by rounding only.** With the
modifiers of buffs in other orders, a sheet has the same errors, the same names with the same trees, and
the same flags. An entry is the same as a whole, value included, if the sums for its name and for the
names that it depends on are. Two orders have one sum if it is rounded in the last addition at most in
both of them, and so all orders have one sum for two values or fewer, and for multiples of one power of
two that 53 bits are enough to count. -/
theorem Sheet.evaluate_permuted_mods (rows : List Row) (buffs buffs' : List Buff)
    (active : ActivationSet) (hbuffs : List.Forall₂ Buff.SameMods buffs buffs') :
    let first := (⟨rows, buffs⟩ : Sheet)
    let second := (⟨rows, buffs'⟩ : Sheet)
    let values := fun kind name => valuesOf kind (first.modifiersOf active name)
    let values' := fun kind name => valuesOf kind (second.modifiersOf active name)
    (first.evaluate active).errors = (second.evaluate active).errors
    ∧ (first.evaluate active).context.names = (second.evaluate active).context.names
    ∧ (∀ name, ((first.evaluate active).context.get? name).map Entry.base
        = ((second.evaluate active).context.get? name).map Entry.base)
    ∧ (∀ name, ((first.evaluate active).context.get? name).map Entry.buffed
        = ((second.evaluate active).context.get? name).map Entry.buffed)
    ∧ (∀ wanted : String → Prop, Closed wanted (first.results active) →
        (∀ name, wanted name → ∀ kind, leftSum (values kind name) = leftSum (values' kind name)) →
        ∀ name, wanted name → (first.evaluate active).context.get? name
          = (second.evaluate active).context.get? name)
    ∧ (∀ kind name, RoundsLast (values kind name) → RoundsLast (values' kind name) →
        leftSum (values kind name) = leftSum (values' kind name))
    ∧ (∀ kind name,
        (values kind name).length ≤ 2 ∨ (∃ place ≤ 2045, OnGrid place (values kind name)) →
          leftSum (values kind name) = leftSum (values' kind name)) := by
  intro first second values values'
  obtain ⟨⟨hcontext, herrors⟩, hresults⟩ :=
    SameOutline.start.run (.collect buffs active) (.collect buffs' active) rows
  have hbase : ∀ name, ((first.evaluate active).context.get? name).map Entry.base
      = ((second.evaluate active).context.get? name).map Entry.base := by
    intro name
    rw [← Context.lookup_outline, ← Context.lookup_outline]
    exact congrArg (List.lookup name) hcontext
  have hmodifiers : ∀ name, (first.modifiersOf active name).Perm (second.modifiersOf active name) :=
    targeting_perm (activeModifiers_perm hbuffs active)
  have hvalues : ∀ kind name, (values kind name).Perm (values' kind name) :=
    fun kind name => valuesOf_perm (hmodifiers name) kind
  refine ⟨herrors, ?_, hbase, fun name => ?_, fun wanted hclosed hsums name hname => ?_,
    fun kind name => leftSum_perm (hvalues kind name), ?_⟩
  · rw [← Context.map_fst_outline, ← Context.map_fst_outline]
    exact congrArg (List.map Prod.fst) hcontext
  · rw [Sheet.map_buffed, Sheet.map_buffed, hbase, (hmodifiers name).isEmpty_eq]
  · classical
    have htotals : ∀ other, wanted other → other ≠ "" →
        (Aggregation.collect buffs active)[other]? = (Aggregation.collect buffs' active)[other]? :=
      fun other hother _ => Aggregation.getElem?_collect_perm hbuffs (hsums other hother)
    -- either pass agrees with the pass over the wanted rows under the second buffs
    have hfirst := (Agrees.start.run htotals hclosed).1.entries name hname
    have hsecond := (Agrees.start.run (fun _ _ _ => rfl) (hclosed.of_outline hresults)).1.entries
      name hname
    exact hfirst.trans hsecond.symm
  · rintro kind name (hlength | ⟨place, hplace, hgrid⟩)
    · have hlength' := (hvalues kind name).length_eq ▸ hlength
      exact leftSum_perm (hvalues kind name) (roundsLast_of_length hlength) (roundsLast_of_length hlength')
    · have hgrid' := hgrid.perm (hvalues kind name)
      exact leftSum_perm (hvalues kind name) (hgrid.roundsLast hplace) (hgrid'.roundsLast hplace)

/-- A `Sum` that depends on a `Total` with modifiers in quarters. -/
def quartered (mods : List Modifier) : Sheet where
  rows := [⟨"r1", "Base", "6"⟩, ⟨"r2", "Total", "Base * 2"⟩, ⟨"r3", "Sum", "Total + Missing"⟩,
    ⟨"r4", "Sum", "Total + 1"⟩]
  buffs := [⟨"b", "Boost", mods⟩, ⟨"c", "Off", [⟨"m6", "Base", .flat, 9.0⟩]⟩]

/-- The modifiers may stand in any order there. -/
theorem quartered_permuted_mods :
    let mods : List Modifier := [⟨"m1", "Total", .flat, 2.75⟩, ⟨"m2", "Total", .multiplicative, 0.5⟩,
      ⟨"m3", "Total", .flat, -1.0⟩, ⟨"m4", "Sum", .flat, 0.1⟩, ⟨"m5", "Total", .flat, 40.5⟩]
    let first := quartered mods
    let second := quartered mods.reverse
    let active : ActivationSet := .ofList ["b"]
    List.Forall₂ Buff.SameMods first.buffs second.buffs
    ∧ (first.evaluate active).errors = (second.evaluate active).errors
    ∧ (first.evaluate active).context.get? "Total" = (second.evaluate active).context.get? "Total"
    ∧ (first.evaluate active).context.get? "Sum" = (second.evaluate active).context.get? "Sum" := by
  intro mods first second active
  have hbuffs : List.Forall₂ Buff.SameMods first.buffs second.buffs :=
    .cons ⟨rfl, rfl, (List.reverse_perm mods).symm⟩ (.cons ⟨rfl, rfl, .refl _⟩ .nil)
  obtain ⟨herrors, -, -, -, hsame, -, hsums⟩ :=
    Sheet.evaluate_permuted_mods first.rows first.buffs second.buffs active hbuffs
  have hclosed : Closed (fun name => name ∈ ["Base", "Total", "Sum"]) (first.results active) := by
    decide +kernel
  -- a quarter is `2 ^ 1072` times the least double
  have hvalues : ∀ kind ∈ [ModifierKind.multiplicative, .flat], ∀ name ∈ ["Base", "Total", "Sum"],
      (valuesOf kind (first.modifiersOf active name)).length ≤ 2
        ∨ OnGrid 1072 (valuesOf kind (first.modifiersOf active name)) := by
    decide +kernel
  have hentry := hsame _ hclosed fun name hname kind =>
    hsums kind name ((hvalues kind (by cases kind <;> decide) name hname).imp_right
      fun hgrid => ⟨1072, by decide, hgrid⟩)
  exact ⟨hbuffs, herrors, hentry "Total" (by decide), hentry "Sum" (by decide)⟩

/-- A sheet with two amounts that cancel out, and a small one beside them. -/
def refunded (mods : List Modifier) : Sheet where
  rows := [⟨"r", "Balance", "0"⟩]
  buffs := [⟨"b", "Refund", mods⟩]

/-- Between the large amounts the small one is lost, and behind them it is not. -/
theorem permuted_mods_change_value :
    let charge : Modifier := ⟨"m1", "Balance", .flat, 1e16⟩
    let small : Modifier := ⟨"m2", "Balance", .flat, 1.0⟩
    let refund : Modifier := ⟨"m3", "Balance", .flat, -1e16⟩
    let first := refunded [charge, small, refund]
    let second := refunded [charge, refund, small]
    List.Forall₂ Buff.SameMods first.buffs second.buffs
    ∧ (first.evaluate (.ofList ["b"])).context.value? "Balance" = some 0.0
    ∧ (second.evaluate (.ofList ["b"])).context.value? "Balance" = some 1.0
    ∧ (first.evaluate (.ofList ["b"])).context.value? "Balance"
      ≠ (second.evaluate (.ofList ["b"])).context.value? "Balance" := by
  intro charge small refund first second
  have hfirst : (first.evaluate (.ofList ["b"])).context.value? "Balance" = some 0.0 := by
    decide +kernel
  have hsecond : (second.evaluate (.ofList ["b"])).context.value? "Balance" = some 1.0 := by
    decide +kernel
  refine ⟨.cons ⟨rfl, rfl, (List.Perm.swap refund small []).cons charge⟩ .nil, hfirst, hsecond, ?_⟩
  rw [hfirst, hsecond]
  decide

end FormulaSheet
