import FormulaSheet.Proofs.Formula.Recursion

/-!
# FormulaSheet — what the parser accepts

The parser accepts the grammar, and nothing else. That it reads derived trees only is known from
how the rules move the cursor (`reads_read`); here the way back:

* `read_before` — in front of a tree that it derives, a rule comes to stand behind it, with the
  tree in hand. By induction on the derivation. A chain may go on from there, so what it goes on
  with is part of the statement (`GrammarRule.resume`).
* `read_of_derives` — it stops there if nothing comes next that it could go on with.
* `parse_accepts` — the headline: a list of tokens has a tree if they are the tokens of a derived
  one within the budget, and then this is the tree.
* `parse_scope` — the scope bears on it through the references of the tree only.
-/

namespace FormulaSheet

open Grammar

/-! ## From in front of a tree to behind it -/

namespace GrammarRule

/-- What a rule goes on with when it has read a tree. -/
def resume (scope : Scope) : GrammarRule → Formula → Rule
  | primary, tree => pure tree
  | multiplicative, tree => linksLeft .multiplicative (primary.read scope) tree
  | additive, tree | expression, tree => linksLeft .additive (multiplicative.read scope) tree

/-- The last operand of a tree of the rule ends where `rest` follows. -/
def OperandEnds : GrammarRule → List Token → Prop
  | primary, _ | multiplicative, _ => True
  | additive, rest | expression, rest => Level.multiplicative.Stops rest

/-- A tree of the rule ends where `rest` follows: no operator comes next that would extend it. -/
def Ends : GrammarRule → List Token → Prop
  | primary, _ => True
  | multiplicative, rest => Level.multiplicative.Stops rest
  | additive, rest | expression, rest =>
    Level.multiplicative.Stops rest ∧ Level.additive.Stops rest

end GrammarRule

theorem Level.stops_cons_operator {level : Level} {op : Operator} (hop : op.level ≠ level)
    (rest : List Token) : level.Stops (.operator op :: rest) := by
  intro other hother
  cases hother
  exact hop

theorem GrammarRule.ends_closeParen (rest : List Token) :
    GrammarRule.expression.Ends (.closeParen :: rest) :=
  ⟨nofun, nofun⟩

theorem GrammarRule.ends_nil (rule : GrammarRule) : rule.Ends [] := by
  cases rule with
  | primary => trivial
  | multiplicative => exact nofun
  | additive => exact ⟨nofun, nofun⟩
  | expression => exact ⟨nofun, nofun⟩

theorem GrammarRule.Ends.operandEnds {rule : GrammarRule} {rest : List Token}
    (h : rule.Ends rest) : rule.OperandEnds rest := by
  cases rule with
  | primary => trivial
  | multiplicative => trivial
  | additive => exact h.1
  | expression => exact h.1

/-- Where a tree of the rule ends, the rule goes no further. -/
theorem GrammarRule.resume_of_ends {scope : Scope} {rule : GrammarRule} {after : Cursor}
    (h : rule.Ends after.rest) (tree : Formula) : rule.resume scope tree after = .ok tree after := by
  cases rule with
  | primary => rfl
  | multiplicative => exact linksLeft_of_stops h
  | additive => exact linksLeft_of_stops h.2
  | expression => exact linksLeft_of_stops h.2

/-- **A rule gets past a tree that it derives.** In front of the tree it comes to stand behind
it and goes on from there. By induction on the derivation: the left operand of an operator
is what the chain has read when it meets the operator. -/
theorem read_before {scope : Scope} {rule : GrammarRule} {tree : Formula}
    (h : rule.Derives scope tree) :
    ∀ {after : Cursor}, rule.OperandEnds after.rest →
      rule.read scope (after.before tree) = rule.resume scope tree after := by
  induction h with
  | number value =>
    intro after _
    rw [Cursor.before_literal]
    rfl
  | name hname =>
    intro after _
    rw [Cursor.before_reference]
    exact (primary_name _ _).trans (if_pos hname)
  | @group inner _ ih =>
    intro after _
    have hclose := GrammarRule.ends_closeParen after.rest
    have hinner : expression scope ((after.cons .closeParen).before inner)
        = .ok inner (after.cons .closeParen) :=
      (ih hclose.operandEnds).trans (GrammarRule.resume_of_ends hclose inner)
    rw [Cursor.before_group]
    exact primary_eq_ok_iff.mpr (.inr (.inr ⟨_, inner, rfl, hinner, rfl⟩))
  | factor _ ih =>
    intro after _
    exact chain_eq_linksLeft (ih trivial)
  | @product op left right hop _ _ ihl ihr =>
    intro after _
    have hright : Grammar.primary scope (expression scope) (after.before right) = .ok right after :=
      ihr trivial
    rw [Cursor.before_binary, ihl trivial]
    have hlevel := Operator.level_eq_multiplicative_iff.mpr hop
    exact linksLeft_cons (reads_read scope .primary) hlevel hright
  | @term tree _ ih =>
    intro after hends
    have htree : Grammar.multiplicative scope (expression scope) (after.before tree)
        = .ok tree after :=
      (ih trivial).trans (linksLeft_of_stops hends)
    exact chain_eq_linksLeft htree
  | @sum op left right hop _ _ ihl ihr =>
    intro after hends
    have hright : Grammar.multiplicative scope (expression scope) (after.before right)
        = .ok right after :=
      (ihr trivial).trans (linksLeft_of_stops hends)
    have hlevel := Operator.level_eq_additive_iff.mpr hop
    -- the operator between them is too weak to extend a term on its left
    have hleft : Level.multiplicative.Stops ((after.before right).unspent.cons (.operator op)).rest :=
      Level.stops_cons_operator (by rw [hlevel]; nofun) _
    rw [Cursor.before_binary, ihl hleft]
    exact linksLeft_cons (reads_read scope .multiplicative) hlevel hright
  | whole _ ih =>
    intro after hends
    exact (congrFun (expression_eq scope) _).trans (ih hends)

/-- In front of a tree that it derives and that ends where it does, a rule reads this tree. -/
theorem read_of_derives {scope : Scope} {rule : GrammarRule} {tree : Formula} {after : Cursor}
    (h : rule.Derives scope tree) (hends : rule.Ends after.rest) :
    rule.read scope (after.before tree) = .ok tree after :=
  (read_before h hends.operandEnds).trans (GrammarRule.resume_of_ends hends tree)

/-! ## Whole formulas -/

/-- The grammar is unambiguous: trees of a rule that are written alike are the same. Both are
what the rule reads from these tokens, with a budget that is enough for either. -/
theorem GrammarRule.Derives.eq_of_tokens_eq {scope : Scope} {rule : GrammarRule}
    {tree other : Formula} (htree : rule.Derives scope tree) (hother : rule.Derives scope other)
    (h : tree.tokens = other.tokens) : tree = other := by
  have hread := @read_of_derives scope rule tree ⟨[], 0, other.weight⟩ htree rule.ends_nil
  have hreadOther := @read_of_derives scope rule other ⟨[], 0, tree.weight⟩ hother rule.ends_nil
  have hstart : Cursor.before ⟨[], 0, other.weight⟩ tree
      = Cursor.before ⟨[], 0, tree.weight⟩ other := by
    simp only [Cursor.before, h, Nat.add_comm]
  rw [hstart, hreadOther] at hread
  cases hread
  rfl

theorem parse_eq_ok_iff_expression {scope : Scope} {tokens : List Token} {tree : Formula} :
    parse scope tokens = .ok tree ↔
      ∃ after, expression scope (.start tokens complexityLimit) = .ok tree after ∧ after.rest = [] := by
  unfold parse
  cases expression scope (.start tokens complexityLimit) with
  | error e stop => constructor <;> nofun
  | ok read after =>
    obtain ⟨rest, limit, remaining⟩ := after
    -- whether the formula is accepted depends on what the expression leaves
    cases rest with
    | nil =>
      constructor
      · rintro ⟨⟩
        exact ⟨_, rfl, rfl⟩
      · rintro ⟨_, ⟨⟩, _⟩
        rfl
    | cons token rest =>
      constructor
      · nofun
      · rintro ⟨_, ⟨⟩, hrest⟩
        exact nomatch hrest

/-- In front of the tokens of a derived tree, with a budget that is enough for it, the tree is read,
and what it does not cost is left. -/
theorem expression_start_of_derives {scope : Scope} {limit : Nat} {tree : Formula}
    (h : GrammarRule.expression.Derives scope tree) (hweight : tree.weight ≤ limit) :
    expression scope (.start tree.tokens limit) = .ok tree ⟨[], limit, limit - tree.weight⟩ := by
  have hstart : Cursor.start tree.tokens limit
      = Cursor.before ⟨[], limit, limit - tree.weight⟩ tree := by
    simp only [Cursor.start, Cursor.before, List.append_nil, Nat.add_sub_cancel' hweight]
  rw [hstart]
  exact read_of_derives h (GrammarRule.ends_nil _)

/-- A tree is that of some tokens if it is derived, written by them, and within the budget. -/
theorem parse_eq_ok_iff {scope : Scope} {tokens : List Token} {tree : Formula} :
    parse scope tokens = .ok tree ↔
      GrammarRule.expression.Derives scope tree ∧ tree.tokens = tokens
        ∧ tree.weight ≤ complexityLimit := by
  rw [parse_eq_ok_iff_expression]
  constructor
  · rintro ⟨after, hread, hrest⟩
    obtain ⟨hderives, hstart⟩ := reads_expression scope hread
    -- the start is the end put in front of the tree, so the budget pays for the weight
    obtain ⟨htokens, -, hweight⟩ := Cursor.mk.inj hstart
    rw [hrest, List.append_nil] at htokens
    exact ⟨hderives, htokens.symm, by omega⟩
  · rintro ⟨hderives, rfl, hweight⟩
    exact ⟨_, expression_start_of_derives hderives hweight, rfl⟩

/-- The scope bears on a formula through the references of its tree only. -/
theorem parse_scope {scope : Scope} {tokens : List Token} {tree : Formula} :
    parse scope tokens = .ok tree ↔
      parse (fun _ => true) tokens = .ok tree ∧ ∀ name ∈ tree.references, scope name = true := by
  rw [parse_eq_ok_iff, parse_eq_ok_iff, GrammarRule.derives_iff]
  constructor
  · rintro ⟨⟨hderives, hscope⟩, hwritten⟩
    exact ⟨⟨hderives, hwritten⟩, hscope⟩
  · rintro ⟨⟨hderives, hwritten⟩, hscope⟩
    exact ⟨⟨hderives, hscope⟩, hwritten⟩

/-- **The parser accepts exactly the grammar, within the budget and the scope, with the right
tree.** A list of tokens has at most one tree, and neither `^` nor white space is in a list that
has one. -/
theorem parse_accepts (scope : Scope) (tokens : List Token) :
    (∀ tree, parse scope tokens = .ok tree ↔
      GrammarRule.expression.Derives scope tree ∧ tree.tokens = tokens ∧ tree.weight ≤ 512)
    ∧ (∀ tree other, GrammarRule.expression.Derives scope tree →
        GrammarRule.expression.Derives scope other →
        tree.tokens = tokens → other.tokens = tokens → tree = other)
    ∧ ∀ tree, parse scope tokens = .ok tree → Token.caret ∉ tokens ∧ Token.blank ∉ tokens := by
  refine ⟨fun tree => parse_eq_ok_iff, ?_, ?_⟩
  · -- a derivation is determined by its tokens
    intro tree other htree hother htokens htokens'
    exact htree.eq_of_tokens_eq hother (htokens.trans htokens'.symm)
  · intro tree hparse
    obtain ⟨-, rfl, -⟩ := parse_eq_ok_iff.mp hparse
    exact ⟨fun hmem => (tree.ne_of_mem_tokens hmem).1 rfl,
      fun hmem => (tree.ne_of_mem_tokens hmem).2 rfl⟩

end FormulaSheet
