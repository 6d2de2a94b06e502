import FormulaSheet.Proofs.Formula.Faults

/-!
# FormulaSheet — what the budget decides

A rule reads the same with every budget that it does not use up. The accounts of a run are kept in
tokens: what is spent up to some place is the number of operators and opening parentheses in front of
it, since each of them is a token and is paid for once. So a budget is a threshold, and a tree has its
weight as the exact one.

* `Formula.countP_tokens` — the weight of a tree is the number of its tokens that cost.
* `Reaches.accounts` — what a run has paid for on its way to a place.
* `Reaches.refill`, `Fault.refill` — a place, and what goes wrong there, are the same with more budget,
  unless it is the budget that lacks.
* `GrammarRule.Derives.runsOut` — in front of a tree that costs more than is left, the budget runs out.
  By induction on the derivation.
* `read_budget` — the headline.
-/

namespace FormulaSheet

open Grammar

variable {scope : Scope} {rule : GrammarRule} {cursor here stop : Cursor} {task : Task}
  {tree left right : Formula} {e : ParseError}

/-! ## Accounts -/

/-- The token is one that costs a unit of the budget: an operator or an opening parenthesis. -/
def Token.isPaid : Token → Bool
  | .operator _ | .openParen => true
  | .number _ | .name _ | .caret | .closeParen | .blank => false

@[simp] theorem Token.countP_cons_operator (op : Operator) (rest : List Token) :
    (operator op :: rest).countP isPaid = rest.countP isPaid + 1 :=
  List.countP_cons_of_pos rfl

@[simp] theorem Token.countP_cons_openParen (rest : List Token) :
    (openParen :: rest).countP isPaid = rest.countP isPaid + 1 :=
  List.countP_cons_of_pos rfl

/-- The weight of a tree counts its tokens that are paid for, as they stand in the text. -/
theorem Formula.countP_tokens (tree : Formula) : tree.tokens.countP Token.isPaid = tree.weight := by
  induction tree with
  | literal value origin => rfl
  | reference name => rfl
  | group inner ih =>
    have hclose : [Token.closeParen].countP Token.isPaid = 0 := rfl
    rw [tokens, weight, Token.countP_cons_openParen, List.countP_append, hclose, ih]
  | binary op left right origin ihl ihr =>
    simp only [tokens, weight, List.countP_append, Token.countP_cons_operator, ihl, ihr]
    omega

/-- What the token in front of a task costs, where the task is to pay for it. -/
def Task.price : Task → Nat
  | payment => 1
  | operand | closing => 0

/-- **The accounts of a run**: the units that are gone are those of the tokens that are gone. Only what
is still to be paid has its token gone before its unit. -/
theorem GrammarRule.Reaches.accounts (h : rule.Reaches scope cursor task here) :
    here.limit = cursor.limit
      ∧ cursor.remaining + task.price + here.rest.countP Token.isPaid
        = cursor.rest.countP Token.isPaid + here.remaining := by
  -- a tree behind the cursor has cost as much as its tokens are worth (`Formula.countP_tokens`)
  induction h with
  | operand here => exact ⟨rfl, Nat.add_comm _ _⟩
  | opened here =>
    refine ⟨rfl, ?_⟩
    simp only [Cursor.cons, Token.countP_cons_openParen, Task.price]
    omega
  | inside _ ih =>
    refine ⟨ih.1, ?_⟩
    simp only [Cursor.cons, Cursor.unspent, Token.countP_cons_openParen]
    omega
  | @enclosed content here hcontent =>
    refine ⟨rfl, ?_⟩
    simp only [Cursor.cons, Cursor.unspent, Cursor.before, Token.countP_cons_openParen,
      List.countP_append, Formula.countP_tokens, Task.price]
    omega
  | first _ ih => exact ih
  | linked here hop hleft =>
    refine ⟨rfl, ?_⟩
    simp only [Cursor.cons, Cursor.before, Token.countP_cons_operator, List.countP_append,
      Formula.countP_tokens, Task.price]
    omega
  | right hop hleft _ ih =>
    refine ⟨ih.1, ?_⟩
    simp only [Cursor.cons, Cursor.unspent, Cursor.before, Token.countP_cons_operator,
      List.countP_append, Formula.countP_tokens]
    omega
  | whole _ ih => exact ih

/-! ## More budget

A run with a larger budget is ahead by the same amount at every place. -/

/-- The cursor with `more` units on top of what is left, of a budget that started at `limit`. -/
def Cursor.refill (cursor : Cursor) (limit more : Nat) : Cursor :=
  ⟨cursor.rest, limit, cursor.remaining + more⟩

section Refill

variable (limit more : Nat)

/-- What is in front of a cursor costs the same with more to spend. -/
theorem Cursor.keepsFront_refill : KeepsFront (fun cursor => cursor.refill limit more) where
  cons _ _ := rfl
  unspent paid := by simp only [refill, unspent, Nat.add_right_comm]
  before after tree := by simp only [refill, before, Nat.add_assoc]

/-- A start with a larger limit is one with the smaller limit, refilled. -/
theorem Cursor.refill_start {tokens : List Token} {limit limit' : Nat} (h : limit ≤ limit') :
    (start tokens limit).refill limit' (limit' - limit) = start tokens limit' := by
  simp only [start, refill, Nat.add_sub_cancel' h]

/-- A place that is reached is reached with more to spend. -/
theorem GrammarRule.Reaches.refill (h : rule.Reaches scope cursor task here) :
    rule.Reaches scope (cursor.refill limit more) task (here.refill limit more) :=
  h.map (Cursor.keepsFront_refill limit more)

/-- What goes wrong for another reason than the budget goes wrong with every budget. -/
theorem Fault.refill (h : Fault scope task here e stop) (he : ∀ n, e ≠ .tooComplex n) :
    Fault scope task (here.refill limit more) e (stop.refill limit more) := by
  cases h with
  | ending hend => exact .ending hend
  | word next htoken => exact .word (stop.refill limit more) htoken
  | unpaid hbudget => exact absurd rfl (he _)
  | unclosed hends hclose =>
    have hother : Fault scope .closing (here.refill limit more) .missingParen _ :=
      .unclosed hends hclose
    exact hother

end Refill

/-! ## Less budget -/

/-- The rule gets to a place where a unit is to be paid and none is left. -/
def GrammarRule.RunsOut (scope : Scope) (rule : GrammarRule) (cursor : Cursor) : Prop :=
  ∃ here, rule.Reaches scope cursor .payment here ∧ here.remaining = 0

/-- A rule that runs out of its budget fails with the limit it started with. -/
theorem GrammarRule.RunsOut.read (h : rule.RunsOut scope cursor) :
    ∃ stop, rule.read scope cursor = .error (.tooComplex cursor.limit) stop := by
  obtain ⟨here, hreaches, hempty⟩ := h
  rw [← hreaches.accounts.1]
  exact ⟨here, read_of_reaches hreaches (.unpaid hempty)⟩

theorem GrammarRule.RunsOut.of_reaches {outer : GrammarRule} (h : rule.RunsOut scope cursor)
    (hreach : ∀ {here}, rule.Reaches scope cursor .payment here →
      outer.Reaches scope cursor .payment here) : outer.RunsOut scope cursor := by
  obtain ⟨here, hreaches, hempty⟩ := h
  exact ⟨here, hreach hreaches, hempty⟩

section Less

variable {op : Operator} {rest : List Token} {limit remaining : Nat}

/-- The budget runs out on the left of an operator, at the operator, or on its right. -/
theorem Level.runsOut_link (level : Level) (hop : op.level = level) (hderives : level.chain.Derives scope left)
    (hleft : ∀ {rest remaining}, remaining < left.weight →
      level.chain.RunsOut scope ⟨left.tokens ++ rest, limit, remaining⟩)
    (hright : ∀ {rest remaining}, remaining < right.weight →
      level.operand.RunsOut scope ⟨right.tokens ++ rest, limit, remaining⟩)
    (h : remaining < (Formula.binary op left right .parsed).weight) :
    level.chain.RunsOut scope
      ⟨(Formula.binary op left right .parsed).tokens ++ rest, limit, remaining⟩ := by
  rw [Formula.weight] at h
  rcases Nat.lt_or_ge remaining left.weight with hlt | hge
  · -- the budget is gone within the left operand
    obtain ⟨here, hreaches, hempty⟩ := hleft hlt
    exact ⟨here, .inLeft hreaches, hempty⟩
  · obtain ⟨ahead, rfl⟩ := Nat.exists_eq_add_of_le hge
    cases ahead with
    | zero =>
      -- it is gone at the operator itself
      let here : Cursor := ⟨right.tokens ++ rest, limit, 0⟩
      exact ⟨here, .inLeft (.linked here hop hderives), rfl⟩
    | succ ahead =>
      -- what the left operand and the operator leave is too little for the right one
      have hlt : ahead < right.weight := by omega
      obtain ⟨here, hreaches, hempty⟩ := hright hlt
      exact ⟨here, .inRight hop hderives hreaches, hempty⟩

/-- **A tree is not read with less than it costs.** -/
theorem GrammarRule.Derives.runsOut (h : rule.Derives scope tree) :
    ∀ {rest remaining}, remaining < tree.weight →
      rule.RunsOut scope ⟨tree.tokens ++ rest, limit, remaining⟩ := by
  -- the last unit is missing at the parenthesis, or inside of it
  induction h with
  | number value => exact fun h => absurd h (Nat.not_lt_zero _)
  | name hname => exact fun h => absurd h (Nat.not_lt_zero _)
  | @group inner _ ih =>
    intro rest remaining h
    cases remaining with
    | zero =>
      let here : Cursor := ⟨inner.tokens ++ [.closeParen] ++ rest, limit, 0⟩
      exact ⟨here, .opened here, rfl⟩
    | succ remaining =>
      obtain ⟨here, hreaches, hempty⟩ := ih (Nat.lt_of_succ_lt_succ h)
      exact ⟨here, .inGroup hreaches, hempty⟩
  | factor _ ih => exact fun h => (ih h).of_reaches .factor
  | term _ ih => exact fun h => (ih h).of_reaches .term
  | product hop hleft _ ihl ihr =>
    intro rest remaining h
    have hlevel := Operator.level_eq_multiplicative_iff.mpr hop
    exact Level.runsOut_link .multiplicative hlevel hleft ihl ihr h
  | sum hop hleft _ ihl ihr =>
    intro rest remaining h
    have hlevel := Operator.level_eq_additive_iff.mpr hop
    exact Level.runsOut_link .additive hlevel hleft ihl ihr h
  | whole _ ih => exact fun h => (ih h).of_reaches .whole

end Less

/-! ## The threshold -/

variable {after : Cursor} {tokens : List Token} {limit limit' : Nat}

/-- With any budget that is enough for the tree, the rule reads it and stops at the same place. -/
theorem read_start_of_le (h : rule.read scope (.start tokens limit) = .ok tree after)
    (hlimit : tree.weight ≤ limit') :
    rule.read scope (.start tokens limit')
      = .ok tree ⟨after.rest, limit', limit' - tree.weight⟩ := by
  obtain ⟨hderives, hstart⟩ := reads_read scope rule h
  have hends : rule.Ends after.rest := ends_of_read h
  have htokens : tokens = tree.tokens ++ after.rest := congrArg Cursor.rest hstart
  -- the same tree stands in front of the same rest, with what the larger limit leaves
  have hstart' : Cursor.start tokens limit'
      = Cursor.before ⟨after.rest, limit', limit' - tree.weight⟩ tree := by
    rw [Cursor.start, Cursor.before, htokens, Nat.add_sub_cancel' hlimit]
  rw [hstart']
  exact read_of_derives hderives hends

/-- **The budget is exact, and only a threshold.** A rule that reads a tree has taken its tokens and
spent its weight. It reads the same with every budget of at least this weight, and with a smaller one it
fails for want of budget. Any other failure is the same with every larger budget. A failure for want of
budget means that there are more operators and parentheses in the input than the budget has units. -/
theorem read_budget (scope : Scope) (rule : GrammarRule) (tokens : List Token) (limit : Nat) :
    (∀ tree after, rule.read scope (.start tokens limit) = .ok tree after →
      tokens = tree.tokens ++ after.rest ∧ after.limit = limit
        ∧ tree.weight ≤ limit ∧ after.remaining = limit - tree.weight
        ∧ (∀ limit', tree.weight ≤ limit' →
            rule.read scope (.start tokens limit')
              = .ok tree ⟨after.rest, limit', limit' - tree.weight⟩)
        ∧ ∀ limit', limit' < tree.weight →
            ∃ stop, rule.read scope (.start tokens limit') = .error (.tooComplex limit') stop)
    ∧ (∀ e stop, rule.read scope (.start tokens limit) = .error e stop →
        (∀ n, e ≠ .tooComplex n) → ∀ limit', limit ≤ limit' →
          ∃ stop', rule.read scope (.start tokens limit') = .error e stop'
            ∧ stop'.rest = stop.rest)
    ∧ ∀ n stop, rule.read scope (.start tokens limit) = .error (.tooComplex n) stop →
        n = limit ∧ limit < tokens.countP Token.isPaid := by
  refine ⟨?_, ?_, ?_⟩
  · intro tree after h
    obtain ⟨hderives, hstart⟩ := reads_read scope rule h
    obtain ⟨htokens, hlimit, hweight⟩ := Cursor.mk.inj hstart
    refine ⟨htokens, hlimit.symm, by omega, by omega, ?_, ?_⟩
    · intro limit' hle
      exact read_start_of_le h hle
    · intro limit' hlt
      have hruns : rule.RunsOut scope (.start tokens limit') := by
        rw [Cursor.start, htokens]
        exact hderives.runsOut hlt
      exact hruns.read
  · intro e stop h he limit' hle
    -- the place of the error is reached with more budget, and fails there as well
    obtain ⟨task, here, hreaches, hfault⟩ := (read_eq_error_iff rule).mp h
    have hplace := hreaches.refill limit' (limit' - limit)
    rw [Cursor.refill_start hle] at hplace
    exact ⟨_, read_of_reaches hplace (hfault.refill limit' (limit' - limit) he), rfl⟩
  · intro n stop h
    obtain ⟨task, here, hreaches, hfault⟩ := (read_eq_error_iff rule).mp h
    -- up to the place where it is gone, the budget has paid for tokens of the input
    obtain ⟨hlimit, hspent⟩ := hreaches.accounts
    cases hfault with
    | unpaid hempty =>
      refine ⟨hlimit, ?_⟩
      simp only [Cursor.start, Task.price] at hspent
      omega

/-- `(1 + a) * 2` costs three units, the parenthesis that is not closed in `(1 2` lacks with every
budget, and a chain of two operators is too much for one unit. -/
theorem group_product_budget :
    let tokens : List Token := [.openParen, .number 1, .operator .add, .name "a", .closeParen,
      .operator .mul, .number 2, .caret]
    let tree : Formula := .binary .mul
      (.group (.binary .add (.literal 1 .parsed) (.reference "a") .parsed)) (.literal 2 .parsed)
      .parsed
    (GrammarRule.additive.read (· == "a") (.start tokens 5) = .ok tree ⟨[.caret], 5, 2⟩
      ∧ GrammarRule.additive.read (· == "a") (.start tokens 3) = .ok tree ⟨[.caret], 3, 0⟩
      ∧ ∃ stop, GrammarRule.additive.read (· == "a") (.start tokens 2)
          = .error (.tooComplex 2) stop)
    ∧ (∃ stop, GrammarRule.primary.read (· == "a")
          (.start [.openParen, .number 1, .number 2] 9) = .error .missingParen stop
        ∧ stop.rest = [])
    ∧ 1 < List.countP Token.isPaid
        [.number 1, .operator .add, .number 1, .operator .sub, .number 1] := by
  have hread := (read_budget (· == "a") .additive [.openParen, .number 1, .operator .add,
    .name "a", .closeParen, .operator .mul, .number 2, .caret] 5).1 _ _ rfl
  obtain ⟨-, -, -, -, henough, hless⟩ := hread
  exact ⟨⟨rfl, henough 3 (by decide), hless 2 (by decide)⟩,
    (read_budget (· == "a") .primary [.openParen, .number 1, .number 2] 1).2.1 .missingParen _ rfl
      nofun 9 (by decide),
    ((read_budget (· == "a") .expression
      [.number 1, .operator .add, .number 1, .operator .sub, .number 1] 1).2.2 1 _ rfl).2⟩

end FormulaSheet
