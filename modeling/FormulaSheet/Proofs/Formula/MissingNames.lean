import FormulaSheet.Proofs.Formula.Faults

/-!
# FormulaSheet — names that a scope lacks

A formula that has a tree in one scope has the same one in every scope that defines its names. In any
other scope it fails at the leftmost name that is lacking: up to there both runs read the same, token by
token and unit by unit of the budget, and what comes behind is not looked at.

* `firstLacking?_eq_none_iff`, `firstLacking?_eq_some` — the leftmost lacking name among some tokens.
* `Derives.reaches_lacking` — in front of a tree, a rule gets to the leftmost name that its scope lacks.
  By induction on the derivation: what stands on the left of that name is derived in the scope too.
* `parse_of_lacking`, `parse_of_defines` — what this means for the parser.
-/

namespace FormulaSheet

open Grammar

/-- The name that a token is. -/
def Token.name? : Token → Option String
  | .name text => some text
  | .number _ | .operator _ | .caret | .openParen | .closeParen | .blank => none

/-- The first name among the tokens, from left to right, that the scope lacks. -/
def firstLacking? (scope : Scope) (tokens : List Token) : Option String :=
  (tokens.filterMap Token.name?).find? fun name => !scope name

variable {scope other : Scope} {tokens : List Token} {tree left right : Formula} {name : String}

theorem Token.mem_filterMap_name? : name ∈ tokens.filterMap Token.name? ↔ .name name ∈ tokens := by
  rw [List.mem_filterMap]
  constructor
  · rintro ⟨token, hmem, htoken⟩
    cases token with
    | name text =>
      cases htoken
      exact hmem
    | _ => exact nomatch htoken
  · exact fun hmem => ⟨.name name, hmem, rfl⟩

/-- No name is lacking exactly when every name of the tokens is in scope. -/
theorem firstLacking?_eq_none_iff :
    firstLacking? scope tokens = none ↔ ∀ name, .name name ∈ tokens → scope name = true := by
  simp only [firstLacking?, List.find?_eq_none, Token.mem_filterMap_name?, Bool.not_eq_true',
    Bool.not_eq_false]

theorem exists_firstLacking (hmem : .name name ∈ tokens) (hname : scope name = false) :
    ∃ first, firstLacking? scope tokens = some first := by
  refine Option.ne_none_iff_exists'.mp fun hnone => ?_
  have hdefined := firstLacking?_eq_none_iff.mp hnone name hmem
  exact nomatch hname.symm.trans hdefined

/-- The leftmost lacking name has only names of the scope on its left. -/
theorem firstLacking?_eq_some (h : firstLacking? scope tokens = some name) :
    ∃ front back, tokens = front ++ .name name :: back ∧ scope name = false
      ∧ ∀ known, .name known ∈ front → scope known = true := by
  obtain ⟨hname, before, after, hsplit, hbefore⟩ := List.find?_eq_some_iff_append.mp h
  obtain ⟨front, rest, rfl, rfl, hrest⟩ := List.filterMap_eq_append_iff.mp hsplit
  -- between the known names and the lacking one stand tokens that are no names
  obtain ⟨silent, token, back, rfl, hsilent, htoken, -⟩ := List.filterMap_eq_cons_iff.mp hrest
  refine ⟨front ++ silent, back, ?_, by simpa using hname, fun known hknown => ?_⟩
  · cases token with
    | name text =>
      cases htoken
      rw [List.append_assoc]
    | _ => exact nomatch htoken
  · rcases List.mem_append.mp hknown with hfront | hsilent'
    · simpa using hbefore known (Token.mem_filterMap_name?.mpr hfront)
    · exact nomatch hsilent _ hsilent'

/-- The names of a tree are its references, from left to right. -/
theorem Formula.filterMap_name?_tokens (tree : Formula) :
    tree.tokens.filterMap Token.name? = tree.references := by
  induction tree with
  | literal value origin => rfl
  | reference name => rfl
  | group inner ih =>
    rw [tokens, references, List.filterMap_cons_none rfl, List.filterMap_append, ih]
    exact List.append_nil _
  | binary op left right origin ihl ihr =>
    rw [tokens, references, List.filterMap_append, List.filterMap_cons_none rfl, ihl, ihr]

/-- The first name that a tree lacks is the first of its references that is out of scope. -/
theorem firstLacking?_tokens (scope : Scope) (tree : Formula) :
    firstLacking? scope tree.tokens = tree.references.find? fun name => !scope name := by
  rw [firstLacking?, tree.filterMap_name?_tokens]

/-- The leftmost lacking name of a link is that of its left operand, or else that of the right one. -/
theorem firstLacking?_binary {op : Operator} {origin : Origin}
    (h : firstLacking? scope (Formula.binary op left right origin).tokens = some name) :
    firstLacking? scope left.tokens = some name
      ∨ (∀ known ∈ left.references, scope known = true)
        ∧ firstLacking? scope right.tokens = some name := by
  simp only [firstLacking?_tokens] at h ⊢
  rw [Formula.references, List.find?_append, Option.or_eq_some_iff, List.find?_eq_none] at h
  exact h.imp_right (And.imp_left (by simp))

/-! ## The way to the leftmost lacking name -/

section Way

variable {rule : GrammarRule} {op : Operator} {limit : Nat}

/-- With a budget that is enough for the tree, the rule gets in front of the name. -/
def GrammarRule.ReachesName (scope : Scope) (rule : GrammarRule) (tree : Formula) (limit : Nat)
    (name : String) : Prop :=
  ∀ rest remaining, tree.weight ≤ remaining → ∃ next : Cursor,
    rule.Reaches scope ⟨tree.tokens ++ rest, limit, remaining⟩ .operand (next.cons (.name name))

/-- A place that is reached inside a rule is reached inside the rule around it. -/
theorem GrammarRule.ReachesName.of_reaches {outer : GrammarRule}
    (h : rule.ReachesName scope tree limit name)
    (hreach : ∀ {cursor here}, rule.Reaches scope cursor .operand here →
      outer.Reaches scope cursor .operand here) : outer.ReachesName scope tree limit name := by
  intro rest remaining hweight
  obtain ⟨next, hreaches⟩ := h rest remaining hweight
  exact ⟨next, hreach hreaches⟩

/-- The first name that is lacking stands in the left operand, or in the right one with none in the
left. -/
theorem Level.reachesName_link (level : Level) (hop : op.level = level)
    (hderives : level.chain.Derives other left)
    (hleft : firstLacking? scope left.tokens = some name →
      level.chain.ReachesName scope left limit name)
    (hright : firstLacking? scope right.tokens = some name →
      level.operand.ReachesName scope right limit name)
    (h : firstLacking? scope (Formula.binary op left right .parsed).tokens = some name) :
    level.chain.ReachesName scope (.binary op left right .parsed) limit name := by
  intro rest remaining hweight
  rw [Formula.weight] at hweight
  rcases firstLacking?_binary h with hlacks | ⟨hdefines, hlacks⟩
  · obtain ⟨next, hreaches⟩ := hleft hlacks _ remaining (by omega)
    exact ⟨next, .inLeft hreaches⟩
  · -- the left operand is read in this scope as it was in the other
    obtain ⟨ahead, rfl⟩ : ∃ n, remaining = left.weight + (n + 1) :=
      ⟨remaining - left.weight - 1, by omega⟩
    obtain ⟨next, hreaches⟩ := hright hlacks rest ahead (by omega)
    exact ⟨next, .inRight hop (hderives.inScope hdefines) hreaches⟩

/-- The parser reaches the first name that is lacking, at the place of an operand. Induction on the
derivation. -/
theorem GrammarRule.Derives.reaches_lacking (h : rule.Derives other tree) :
    firstLacking? scope tree.tokens = some name → rule.ReachesName scope tree limit name := by
  induction h with
  | number value => exact fun hlacks => nomatch hlacks
  | @name known _ =>
    intro hlacks rest remaining _
    obtain rfl : known = name := by
      rw [firstLacking?_tokens] at hlacks
      exact (List.mem_singleton.mp (List.mem_of_find?_eq_some hlacks)).symm
    exact ⟨⟨rest, limit, remaining⟩, .operand _⟩
  | @group inner _ ih =>
    -- the group takes one level of the budget, and what is inside weighs less
    intro hlacks rest remaining hweight
    rw [firstLacking?_tokens, Formula.references, ← firstLacking?_tokens] at hlacks
    obtain ⟨ahead, rfl⟩ : ∃ n, remaining = n + 1 :=
      Nat.exists_eq_add_one.mpr (Nat.zero_lt_of_lt hweight)
    obtain ⟨next, hreaches⟩ := ih hlacks _ ahead (Nat.le_of_succ_le_succ hweight)
    exact ⟨next, .inGroup hreaches⟩
  | factor _ ih => exact fun hlacks => (ih hlacks).of_reaches .factor
  | term _ ih => exact fun hlacks => (ih hlacks).of_reaches .term
  | product hop hleft _ ihl ihr =>
    have hlevel := Operator.level_eq_multiplicative_iff.mpr hop
    exact Level.reachesName_link .multiplicative hlevel hleft ihl ihr
  | sum hop hleft _ ihl ihr =>
    have hlevel := Operator.level_eq_additive_iff.mpr hop
    exact Level.reachesName_link .additive hlevel hleft ihl ihr
  | whole _ ih => exact fun hlacks => (ih hlacks).of_reaches .whole

end Way

/-! ## Whole formulas -/

theorem firstLacking?_scope_eq_false (h : firstLacking? scope tokens = some name) :
    scope name = false := by
  obtain ⟨-, -, -, hname, -⟩ := firstLacking?_eq_some h
  exact hname

/-- A formula that parses in one scope fails in another at the first name that is out of scope. -/
theorem parse_of_lacking (hparse : parse other tokens = .ok tree)
    (hlacks : firstLacking? scope tokens = some name) :
    parse scope tokens = .error (.unknownIdentifier name) := by
  obtain ⟨hderives, rfl, hweight⟩ := parse_eq_ok_iff.mp hparse
  have hway : GrammarRule.expression.ReachesName scope tree complexityLimit name :=
    hderives.reaches_lacking hlacks
  obtain ⟨next, hreaches⟩ := hway [] complexityLimit hweight
  rw [List.append_nil] at hreaches
  -- the name that is lacking is a fault at the place of an operand
  have hfault : Fault scope .operand (next.cons (.name name)) (.unknownIdentifier name) next :=
    .word next (firstLacking?_scope_eq_false hlacks)
  have hread : expression scope (.start tree.tokens complexityLimit)
      = .error (.unknownIdentifier name) next :=
    read_of_reaches hreaches hfault
  rw [parse, hread]

/-- A formula that parses in one scope parses the same in every other that has its names. -/
theorem parse_of_defines (hparse : parse other tokens = .ok tree)
    (hdefines : ∀ name, .name name ∈ tokens → scope name = true) :
    parse scope tokens = .ok tree := by
  obtain ⟨hderives, rfl, hweight⟩ := parse_eq_ok_iff.mp hparse
  refine parse_eq_ok_iff.mpr ⟨hderives.inScope fun name hname => ?_, rfl, hweight⟩
  rw [← tree.filterMap_name?_tokens, Token.mem_filterMap_name?] at hname
  exact hdefines name hname

end FormulaSheet
