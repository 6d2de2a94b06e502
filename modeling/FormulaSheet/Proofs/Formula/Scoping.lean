import FormulaSheet.Proofs.Formula.Recursion

/-!
# FormulaSheet — what a formula asks of its scope

A scope is asked for the names that stand in a formula, and for no others. Two scopes that agree on
these names give the formula the same tree, or the same error.

* `bounded_agree_scope` — the rules run alike wherever the scopes agree on the names to come.
* `parse_congr` — so does the parser.
* `Formula.mem_references_iff` — the names that stand in the tokens of a tree are its references.
-/

namespace FormulaSheet

/-- The scopes agree on the names among the tokens. -/
def AgreeOnNames (scope other : Scope) (tokens : List Token) : Prop :=
  ∀ name, .name name ∈ tokens → scope name = other name

namespace Grammar

variable {scope other : Scope}

theorem agreeOnNames_passesOn : PassesOn (AgreeOnNames scope other) :=
  fun _ _ hnames name hname => hnames name (List.mem_append_right _ hname)

/-- By induction on the bound: what stands in parentheses is part of what is to come. -/
theorem bounded_agree_scope :
    ∀ bound, AgreeOn (AgreeOnNames scope other) (bounded scope bound) (bounded other bound)
  | 0 => fun _ _ => rfl
  | bound + 1 => by
    have hprimary : AgreeOn (AgreeOnNames scope other) (primary scope (bounded scope bound))
        (primary other (bounded other bound)) := by
      refine primary_agree (bounded_agree_scope bound) ?_ ?_
      · intro rest hnames
        exact agreeOnNames_passesOn [.openParen] rest hnames
      · intro name rest hnames
        exact hnames name List.mem_cons_self
    exact additive_agree agreeOnNames_passesOn (reads_bounded scope bound) hprimary

end Grammar

/-- **The scope bears on a formula through its names only**, whether it has a tree or not. -/
theorem parse_congr {scope other : Scope} {tokens : List Token}
    (h : AgreeOnNames scope other tokens) : parse scope tokens = parse other tokens := by
  have hrun : Grammar.expression scope (.start tokens complexityLimit)
      = Grammar.expression other (.start tokens complexityLimit) :=
    Grammar.bounded_agree_scope tokens.length _ h
  rw [parse, parse, hrun]

theorem Formula.mem_references_iff {tree : Formula} {name : String} :
    name ∈ tree.references ↔ .name name ∈ tree.tokens := by
  induction tree with
  | literal value origin => simp [references, tokens]
  | reference known => simp [references, tokens]
  | group inner ih => simp [references, tokens, ih]
  | binary op left right origin ihl ihr => simp [references, tokens, ihl, ihr]

end FormulaSheet
