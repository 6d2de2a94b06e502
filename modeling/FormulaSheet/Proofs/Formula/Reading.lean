import FormulaSheet.Proofs.Formula.Derivation

/-!
# FormulaSheet — how the rules move the cursor

What a rule that succeeds does to the cursor. `after.before tree` is the cursor in front of the
tokens of a tree when `after` is the one behind them: the tokens are still there, and so is what
the operators and the parentheses of the tree cost.

* `primary_eq_ok_iff`, `chain_eq_ok_iff`, `links_cons` — all that one step of a rule can do.
* `Grammar.Reads` — a rule only reads trees of a kind, and moves the cursor from in front of
  them to behind them. It passes from the operands of a chain to the chain
  (`Reads.chain`) and from the inner rule to the primary (`Reads.primary`), so all rules have it
  (`reads_read`).
-/

namespace FormulaSheet

/-! ## Cursors

The three ways to go back: by a token, by a unit of the budget, and by a whole tree. A cursor
is taken apart by saying which one it is a step behind. -/

namespace Cursor

/-- The cursor one token earlier. -/
def cons (cursor : Cursor) (token : Token) : Cursor :=
  { cursor with rest := token :: cursor.rest }

/-- The cursor before one unit was spent. -/
def unspent (cursor : Cursor) : Cursor :=
  { cursor with remaining := cursor.remaining + 1 }

/-- The cursor in front of a tree, if `after` is the one behind it. -/
def before (after : Cursor) (tree : Formula) : Cursor :=
  ⟨tree.tokens ++ after.rest, after.limit, tree.weight + after.remaining⟩

@[simp] theorem rest_cons (cursor : Cursor) (token : Token) :
    (cursor.cons token).rest = token :: cursor.rest := rfl

@[simp] theorem rest_unspent (cursor : Cursor) : cursor.unspent.rest = cursor.rest := rfl

@[simp] theorem rest_before (after : Cursor) (tree : Formula) :
    (after.before tree).rest = tree.tokens ++ after.rest := rfl

theorem before_literal (after : Cursor) (value : Float) (origin : Origin) :
    after.before (.literal value origin) = after.cons (.number value) := by
  simp [before, cons, Formula.tokens, Formula.weight]

theorem before_reference (after : Cursor) (name : String) :
    after.before (.reference name) = after.cons (.name name) := by
  simp [before, cons, Formula.tokens, Formula.weight]

/-- In front of a group stand its parenthesis, its content and the closing one, and one payment more
remains. -/
theorem before_group (after : Cursor) (inner : Formula) :
    after.before (.group inner)
      = (((after.cons .closeParen).before inner).unspent).cons .openParen := by
  simp only [before, cons, unspent, Formula.tokens, Formula.weight, List.cons_append,
    List.append_assoc, List.nil_append, mk.injEq, true_and]
  omega

/-- In front of an operation stand its left operand, the operator with its payment, and the right
operand. -/
theorem before_binary (after : Cursor) (op : Operator) (left right : Formula) (origin : Origin) :
    after.before (.binary op left right origin)
      = (((after.before right).unspent).cons (.operator op)).before left := by
  simp only [before, cons, unspent, Formula.tokens, Formula.weight, List.cons_append,
    List.append_assoc, mk.injEq, true_and]
  omega

/-- Every tree has at least one token. -/
theorem length_rest_lt_before (after : Cursor) (tree : Formula) :
    after.rest.length < (after.before tree).rest.length := by
  have htokens := List.length_pos_iff.mpr tree.tokens_ne_nil
  rw [rest_before, List.length_append]
  omega

end Cursor

/-- No operator of the level comes next, so a chain of the level goes no further. -/
def Level.Stops (level : Level) (rest : List Token) : Prop :=
  ∀ op, rest.head? = some (.operator op) → op.level ≠ level

/-- Either no operator of the level comes next, or one does. -/
theorem Level.stops_or_cons (level : Level) (cursor : Cursor) :
    level.Stops cursor.rest ∨
      ∃ (op : Operator) (next : Cursor), op.level = level ∧ cursor = next.cons (.operator op) := by
  -- whether it stops is decided by the next token alone
  by_cases hnext : ∃ op, cursor.rest.head? = some (.operator op) ∧ op.level = level
  · obtain ⟨op, hhead, hop⟩ := hnext
    obtain ⟨rest, limit, remaining⟩ := cursor
    obtain ⟨tail, rfl⟩ := List.head?_eq_some_iff.mp hhead
    exact .inr ⟨op, ⟨tail, limit, remaining⟩, hop, rfl⟩
  · exact .inl fun op hhead hop => hnext ⟨op, hhead, hop⟩

namespace Grammar

/-! ## Single steps

What taking a token, looking at one and paying do, as equations. A run of two rules is that of
the first and then that of the second (`bind_eq_ok_iff`). -/

section Steps

variable {α β : Type} {cursor after : Cursor}

theorem bind_eq_ok_iff {first : EStateM ParseError Cursor α}
    {second : α → EStateM ParseError Cursor β} {result : β} :
    (first >>= second) cursor = .ok result after ↔
      ∃ value middle, first cursor = .ok value middle ∧ second value middle = .ok result after := by
  show EStateM.bind first second cursor = _ ↔ _
  unfold EStateM.bind
  cases first cursor with
  | ok value middle =>
    constructor
    · exact fun h => ⟨value, middle, rfl, h⟩
    · rintro ⟨_, _, ⟨⟩, h⟩
      exact h
  | error e middle =>
    constructor
    · nofun
    · rintro ⟨_, _, ⟨⟩, _⟩

/-- After a first step that succeeds, the second goes on from where it stands. -/
theorem bind_of_ok {first : EStateM ParseError Cursor α}
    {second : α → EStateM ParseError Cursor β} {value : α} {middle : Cursor}
    (h : first cursor = .ok value middle) : (first >>= second) cursor = second value middle := by
  show EStateM.bind first second cursor = _
  unfold EStateM.bind
  rw [h]

/-- Two runs are the same if they start alike and go on alike from wherever the start leads. -/
theorem bind_congr {first first' : EStateM ParseError Cursor α}
    {second second' : α → EStateM ParseError Cursor β} (hfirst : first cursor = first' cursor)
    (hsecond : ∀ value middle, first cursor = .ok value middle →
      second value middle = second' value middle) :
    (first >>= second) cursor = (first' >>= second') cursor := by
  show EStateM.bind first second cursor = EStateM.bind first' second' cursor
  unfold EStateM.bind
  rw [← hfirst]
  cases hrun : first cursor with
  | ok value middle => exact hsecond value middle hrun
  | error e middle => rfl

/-- A payment succeeds exactly when there was one more to spend. -/
theorem spend_eq_ok_iff {u : Unit} : spend cursor = .ok u after ↔ cursor = after.unspent := by
  constructor
  · intro h
    obtain ⟨rest, limit, remaining⟩ := cursor
    -- an empty budget fails
    cases remaining with
    | zero => exact nomatch h
    | succ remaining => cases h; rfl
  · rintro rfl
    rfl

theorem spend_unspent : spend cursor.unspent = .ok () cursor := rfl

theorem peek?_of_stops {level : Level} (h : level.Stops cursor.rest) :
    peek? level cursor = .ok none cursor := by
  have hnone : (cursor.rest.head?.bind Token.operator?).filter (·.level == level) = none := by
    rw [Option.filter_eq_none_iff]
    -- an operator that comes next is of another level
    intro op hop
    obtain ⟨token, hhead, htoken⟩ := Option.bind_eq_some_iff.mp hop
    cases token with
    | operator other =>
      cases htoken
      simpa using h op hhead
    | _ => exact nomatch htoken
  show EStateM.Result.ok _ cursor = _
  rw [hnone]

theorem peek?_cons {level : Level} {op : Operator} (h : op.level = level) :
    peek? level (cursor.cons (.operator op)) = .ok (some op) (cursor.cons (.operator op)) := by
  subst h
  show EStateM.Result.ok ((some op).filter (·.level == op.level)) _ = _
  simp

end Steps

/-! ## One step of a rule

All that a primary can do, what a chain does before its links, and how one link is added. -/

section Rules

variable {scope : Scope} {inner operand : Rule} {level : Level} {cursor after : Cursor}
  {tree : Formula}

/-- What stands behind an opening parenthesis: an inner formula and the closing one. -/
def enclosed (inner : Rule) : Rule := do
  spend
  let tree ← inner
  match ← next? with
  | some .closeParen => return .group tree
  | _ => throw .missingParen

/-- A name is an operand exactly when it is in scope. -/
theorem primary_name (cursor : Cursor) (name : String) :
    primary scope inner (cursor.cons (.name name))
      = if scope name then .ok (.reference name) cursor
        else .error (.unknownIdentifier name) cursor := by
  show (if scope name = true then pure (.reference name) else throw (.unknownIdentifier name) :
    Rule) cursor = _
  split <;> rfl

/-- A group is read exactly when it is paid for, its content is read and a closing parenthesis
stands behind. -/
theorem enclosed_eq_ok_iff :
    enclosed inner cursor = .ok tree after ↔
      ∃ paid content, cursor = paid.unspent ∧ inner paid = .ok content (after.cons .closeParen)
        ∧ tree = .group content := by
  simp only [enclosed, bind_eq_ok_iff, spend_eq_ok_iff]
  constructor
  · rintro ⟨_, paid, hpaid, content, ⟨rest, limit, remaining⟩, hinner, _, _, ⟨⟩, h⟩
    -- only a closing parenthesis lets the rule succeed
    match rest, h with
    | .closeParen :: tail, h =>
      cases h
      exact ⟨paid, content, hpaid, hinner, rfl⟩
  · rintro ⟨paid, content, hpaid, hinner, rfl⟩
    exact ⟨(), paid, hpaid, content, _, hinner, _, _, rfl, rfl⟩

/-- **All that a primary can read**: a number, a name of the scope, or what stands in
parentheses. -/
theorem primary_eq_ok_iff :
    primary scope inner cursor = .ok tree after ↔
      (∃ value, cursor = after.cons (.number value) ∧ tree = .literal value .parsed)
      ∨ (∃ name, scope name = true ∧ cursor = after.cons (.name name) ∧ tree = .reference name)
      ∨ (∃ paid content, cursor = paid.unspent.cons .openParen
          ∧ inner paid = .ok content (after.cons .closeParen) ∧ tree = .group content) := by
  constructor
  · obtain ⟨rest, limit, remaining⟩ := cursor
    intro h
    match rest, h with
    | .number value :: tail, h =>
      cases h
      exact .inl ⟨value, rfl, rfl⟩
    | .name name :: tail, h =>
      -- the cursor is one name in front of its tail
      replace h := (primary_name ⟨tail, limit, remaining⟩ name).symm.trans h
      split at h
      · next hname =>
        cases h
        exact .inr (.inl ⟨name, hname, rfl, rfl⟩)
      · exact nomatch h
    | .openParen :: tail, h =>
      obtain ⟨paid, content, hpaid, hinner, htree⟩ := enclosed_eq_ok_iff.mp h
      exact .inr (.inr ⟨paid, content, congrArg (Cursor.cons · .openParen) hpaid, hinner, htree⟩)
  · rintro (⟨value, rfl, rfl⟩ | ⟨name, hname, rfl, rfl⟩ | ⟨paid, content, rfl, hinner, rfl⟩)
    · rfl
    · rw [primary_name, if_pos hname]
    · exact enclosed_eq_ok_iff.mpr ⟨paid, content, rfl, hinner, rfl⟩

/-- A chain is complete where its level stops. -/
theorem links_of_stops (h : level.Stops cursor.rest) (bound : Nat) :
    links level operand bound tree cursor = .ok tree cursor := by
  cases bound with
  | zero => rfl
  | succ bound =>
    rw [links, bind_of_ok (peek?_of_stops h)]
    rfl

/-- One link: the operator is paid for, its right operand is read, and the chain goes on. -/
def link (level : Level) (operand : Rule) (bound : Nat) (left : Formula) (op : Operator) : Rule := do
  spend
  let right ← operand
  links level operand bound (.binary op left right .parsed)

/-- At an operator of the level the chain goes on with one link. -/
theorem links_cons {op : Operator} (hop : op.level = level) (bound : Nat) (left : Formula) :
    links level operand (bound + 1) left (cursor.cons (.operator op))
      = link level operand bound left op cursor := by
  rw [links, bind_of_ok (peek?_cons hop)]
  rfl

/-- A link is read exactly when it is paid for, its operand is read and the rest of the chain. -/
theorem link_eq_ok_iff {op : Operator} {bound : Nat} {left : Formula} :
    link level operand bound left op cursor = .ok tree after ↔
      ∃ paid right next, cursor = paid.unspent ∧ operand paid = .ok right next
        ∧ links level operand bound (.binary op left right .parsed) next = .ok tree after := by
  simp only [link, bind_eq_ok_iff, spend_eq_ok_iff]
  constructor
  · rintro ⟨_, paid, hpaid, right, next, hright, h⟩
    exact ⟨paid, right, next, hpaid, hright, h⟩
  · rintro ⟨paid, right, next, hpaid, hright, h⟩
    exact ⟨(), paid, hpaid, right, next, hright, h⟩

/-- A chain is read exactly when its first operand is, and then the links behind it. -/
theorem chain_eq_ok_iff :
    chain level operand cursor = .ok tree after ↔
      ∃ first next, operand cursor = .ok first next
        ∧ links level operand next.rest.length first next = .ok tree after := by
  simp only [chain, bind_eq_ok_iff]
  constructor
  · rintro ⟨first, next, hfirst, _, _, ⟨⟩, h⟩
    exact ⟨first, next, hfirst, h⟩
  · rintro ⟨first, next, hfirst, h⟩
    exact ⟨first, next, hfirst, next, next, rfl, h⟩

theorem chain_of_ok {first : Formula} {next : Cursor} (h : operand cursor = .ok first next) :
    chain level operand cursor = links level operand next.rest.length first next := by
  rw [chain, bind_of_ok h]
  rfl

end Rules

/-! ## What a rule that succeeds has read

The invariant of reading. It is stated on a rule as a whole, so that it passes from the
operands of a chain to the chain and from the inner rule of a primary to the primary, and by
induction on the bound of the recursion to every rule. -/

/-- The rule reads trees of a kind only, and moves the cursor from in front of the tree to
behind it. -/
def Reads (kind : Formula → Prop) (rule : Rule) : Prop :=
  ∀ ⦃cursor tree after⦄, rule cursor = .ok tree after → kind tree ∧ cursor = after.before tree

theorem Reads.length_lt {kind : Formula → Prop} {rule : Rule} (hrule : Reads kind rule)
    {cursor after : Cursor} {tree : Formula} (h : rule cursor = .ok tree after) :
    after.rest.length < cursor.rest.length := by
  rw [(hrule h).2]
  exact after.length_rest_lt_before tree

section Reads

variable {scope : Scope} {inner operand : Rule} {level : Level}

/-- An operand is read as the grammar says, if the expressions in parentheses are. -/
theorem Reads.primary (hinner : Reads (GrammarRule.expression.Derives scope) inner) :
    Reads (GrammarRule.primary.Derives scope) (primary scope inner) := by
  intro cursor tree after h
  rcases primary_eq_ok_iff.mp h with
    ⟨value, rfl, rfl⟩ | ⟨name, hname, rfl, rfl⟩ | ⟨paid, content, rfl, hcontent, rfl⟩
  · exact ⟨.number value, (Cursor.before_literal ..).symm⟩
  · exact ⟨.name hname, (Cursor.before_reference ..).symm⟩
  · obtain ⟨hderives, rfl⟩ := hinner hcontent
    exact ⟨.group hderives, (Cursor.before_group ..).symm⟩

/-- Links extend a tree of a kind, if the kind is closed under links of the level. The cursor in
front of the tree that they start from stays where it was. -/
theorem links_reads {kind operandKind : Formula → Prop} (hoperand : Reads operandKind operand)
    (hlink : ∀ {op left right}, op.level = level → kind left → operandKind right →
      kind (.binary op left right .parsed)) :
    ∀ {bound left cursor tree after}, links level operand bound left cursor = .ok tree after →
      kind left → kind tree ∧ cursor.before left = after.before tree := by
  intro bound
  induction bound with
  | zero =>
    -- a chain without room gives back what it starts from
    intro left cursor tree after h hleft
    cases h
    exact ⟨hleft, rfl⟩
  | succ bound ih =>
    intro left cursor tree after h hleft
    rcases level.stops_or_cons cursor with hstops | ⟨op, next, hop, rfl⟩
    · rw [links_of_stops hstops] at h
      cases h
      exact ⟨hleft, rfl⟩
    · rw [links_cons hop] at h
      obtain ⟨paid, right, next, rfl, hright, hlinks⟩ := link_eq_ok_iff.mp h
      obtain ⟨hkind, rfl⟩ := hoperand hright
      obtain ⟨htree, hbefore⟩ := ih hlinks (hlink hop hleft hkind)
      exact ⟨htree, by rw [← hbefore, Cursor.before_binary]⟩

/-- A chain is read as the grammar says, if its operands are. Induction on the number of links, each
of which becomes the left operand of the next. -/
theorem Reads.chain {kind operandKind : Formula → Prop} (hoperand : Reads operandKind operand)
    (hfirst : ∀ {tree}, operandKind tree → kind tree)
    (hlink : ∀ {op left right}, op.level = level → kind left → operandKind right →
      kind (.binary op left right .parsed)) :
    Reads kind (chain level operand) := by
  intro cursor tree after h
  obtain ⟨first, next, hread, hlinks⟩ := chain_eq_ok_iff.mp h
  obtain ⟨hkind, rfl⟩ := hoperand hread
  exact links_reads hoperand hlink hlinks (hfirst hkind)

theorem Reads.multiplicative (hinner : Reads (GrammarRule.expression.Derives scope) inner) :
    Reads (GrammarRule.multiplicative.Derives scope) (multiplicative scope inner) :=
  .chain (.primary hinner) .factor fun hop =>
    .product (Operator.level_eq_multiplicative_iff.mp hop)

theorem Reads.additive (hinner : Reads (GrammarRule.expression.Derives scope) inner) :
    Reads (GrammarRule.additive.Derives scope) (additive scope inner) :=
  .chain (.multiplicative hinner) .term fun hop =>
    .sum (Operator.level_eq_additive_iff.mp hop)

/-- A bounded expression reads expressions. By induction on the bound: with the inner rule one
parenthesis deeper, the sum that it is reads sums. -/
theorem reads_bounded (scope : Scope) :
    ∀ bound, Reads (GrammarRule.expression.Derives scope) (bounded scope bound)
  | 0 => nofun
  | bound + 1 => by
    intro cursor tree after h
    obtain ⟨hderives, hcursor⟩ := Reads.additive (reads_bounded scope bound) h
    exact ⟨.whole hderives, hcursor⟩

/-- An expression is read as the grammar says, at every bound on the nesting. -/
theorem reads_expression (scope : Scope) :
    Reads (GrammarRule.expression.Derives scope) (expression scope) :=
  fun cursor _ _ h => reads_bounded scope cursor.rest.length h

end Reads

/-- **Every rule reads trees that it derives**, and takes exactly their tokens and what they
cost. -/
theorem reads_read (scope : Scope) : ∀ rule : GrammarRule, Reads (rule.Derives scope) (rule.read scope)
  | .expression => reads_expression scope
  | .additive => .additive (reads_expression scope)
  | .multiplicative => .multiplicative (reads_expression scope)
  | .primary => .primary (reads_expression scope)

end Grammar

end FormulaSheet
