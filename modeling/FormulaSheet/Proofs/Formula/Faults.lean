import FormulaSheet.Proofs.Formula.Acceptance

/-!
# FormulaSheet — where a formula goes wrong

A run of a rule that fails has read all up to some place, and cannot do there what comes next: read
an operand, pay for a parenthesis or an operator, or close a parenthesis. How it got there is said by
derived trees and depends on what it has read only (`GrammarRule.Reaches`). What goes wrong there
depends on what is left only (`Fault`).

* `Reaches.map` — a place is reached whatever is left there.
* `read_of_reaches` — a rule that gets to a place where the next thing fails, fails so. By induction
  on the way there.
* `ends_of_read` — a rule that succeeds has stopped where nothing comes that it could go on with.
* `faultsOnly` — a rule that fails has come to such a place. By induction on the number of tokens.
* `read_eq_error_iff` — both together.
-/

namespace FormulaSheet

open Grammar

/-! ## Chains of either level -/

namespace Level

/-- The rule whose chains are of the level. -/
def chain : Level → GrammarRule
  | additive => .additive
  | multiplicative => .multiplicative

/-- The rule of the operands of such a chain. -/
def operand : Level → GrammarRule
  | additive => .multiplicative
  | multiplicative => .primary

variable {scope : Scope} {level : Level} {op : Operator} {tree left right : Formula}

/-- An operand is a chain of one. -/
theorem derives_operand (h : level.operand.Derives scope tree) : level.chain.Derives scope tree := by
  cases level with
  | additive => exact .term h
  | multiplicative => exact .factor h

/-- A chain grows by one of its operators and an operand. -/
theorem derives_link (hop : op.level = level) (hleft : level.chain.Derives scope left)
    (hright : level.operand.Derives scope right) :
    level.chain.Derives scope (.binary op left right .parsed) := by
  cases level with
  | additive => exact .sum (Operator.level_eq_additive_iff.mp hop) hleft hright
  | multiplicative => exact .product (Operator.level_eq_multiplicative_iff.mp hop) hleft hright

theorem read_chain (scope : Scope) (level : Level) :
    level.chain.read scope = Grammar.chain level (level.operand.read scope) := by
  cases level <;> rfl

/-- A chain ends where its operands do and none of its operators follows. -/
theorem ends_chain {rest : List Token} :
    level.chain.Ends rest ↔ level.operand.Ends rest ∧ level.Stops rest := by
  cases level with
  | additive => exact Iff.rfl
  | multiplicative => exact (iff_of_eq (true_and _)).symm

/-- In front of a tree and an operator of the level, a chain comes to add the link. -/
theorem read_link {next : Cursor} (hop : op.level = level) (hleft : level.chain.Derives scope left) :
    level.chain.read scope ((next.cons (.operator op)).before left)
      = link level (level.operand.read scope) next.rest.length left op next := by
  have hresume : level.chain.read scope ((next.cons (.operator op)).before left)
      = linksLeft level (level.operand.read scope) left (next.cons (.operator op)) := by
    cases level with
    | additive => exact read_before hleft (stops_cons_operator (by rw [hop]; nofun) next.rest)
    | multiplicative => exact read_before hleft trivial
  rw [hresume]
  exact links_cons hop next.rest.length left

end Level

/-! ## Places in a run -/

/-- What a run has to do next. -/
inductive Task where
  | operand
  /-- One unit is to be paid, for a parenthesis or an operator. -/
  | payment
  /-- A group is to be closed. -/
  | closing

/-- Reading from the cursor on, the rule gets to `here` and has the task to do there. One constructor
for each place in a rule, and for each way down into the rule below. -/
inductive GrammarRule.Reaches (scope : Scope) : GrammarRule → Cursor → Task → Cursor → Prop where
  | operand (here : Cursor) : Reaches scope .primary here .operand here
  | opened (here : Cursor) : Reaches scope .primary (here.cons .openParen) .payment here
  | inside {paid here : Cursor} {task : Task} (h : Reaches scope .expression paid task here) :
      Reaches scope .primary (paid.unspent.cons .openParen) task here
  | enclosed {content : Formula} (here : Cursor)
      (hcontent : GrammarRule.expression.Derives scope content) :
      Reaches scope .primary ((here.before content).unspent.cons .openParen) .closing here
  | first {level : Level} {cursor here : Cursor} {task : Task}
      (h : Reaches scope level.operand cursor task here) : Reaches scope level.chain cursor task here
  | linked {level : Level} {op : Operator} {left : Formula} (here : Cursor) (hop : op.level = level)
      (hleft : level.chain.Derives scope left) :
      Reaches scope level.chain ((here.cons (.operator op)).before left) .payment here
  | right {level : Level} {op : Operator} {left : Formula} {paid here : Cursor} {task : Task}
      (hop : op.level = level) (hleft : level.chain.Derives scope left)
      (h : Reaches scope level.operand paid task here) :
      Reaches scope level.chain ((paid.unspent.cons (.operator op)).before left) task here
  | whole {cursor here : Cursor} {task : Task} (h : Reaches scope .additive cursor task here) :
      Reaches scope .expression cursor task here

/-- The map of cursors leaves what stands in front of a cursor as it is, and what that costs: it may
change what is left there only. -/
structure Cursor.KeepsFront (f : Cursor → Cursor) : Prop where
  cons (next : Cursor) (token : Token) : f (next.cons token) = (f next).cons token
  unspent (paid : Cursor) : f paid.unspent = (f paid).unspent
  before (after : Cursor) (tree : Formula) : f (after.before tree) = (f after).before tree

/-- **A place is reached by what is in front of it**: with something else left there, and the same in
front of it, a run gets to it too. -/
theorem GrammarRule.Reaches.map {f : Cursor → Cursor} (hf : Cursor.KeepsFront f) {scope : Scope}
    {rule : GrammarRule} {cursor here : Cursor} {task : Task} (h : rule.Reaches scope cursor task here) :
    rule.Reaches scope (f cursor) task (f here) := by
  induction h with
  | operand here => exact .operand _
  | opened here =>
    rw [hf.cons]
    exact .opened _
  | inside _ ih =>
    rw [hf.cons, hf.unspent]
    exact .inside ih
  | enclosed here hcontent =>
    rw [hf.cons, hf.unspent, hf.before]
    exact .enclosed _ hcontent
  | first _ ih => exact .first ih
  | linked here hop hleft =>
    rw [hf.before, hf.cons]
    exact .linked _ hop hleft
  | right hop hleft _ ih =>
    rw [hf.before, hf.cons, hf.unspent]
    exact .right hop hleft ih
  | whole _ ih => exact .whole ih

/-! A place inside of a part of a tree is one inside of the tree, with the cursor in front of the whole
tree and what the tokens up to the part cost on top of the budget. -/

namespace GrammarRule.Reaches

variable {scope : Scope} {level : Level} {op : Operator} {left right inner : Formula}
  {rest : List Token} {limit remaining : Nat} {task : Task} {here : Cursor}

theorem factor {cursor : Cursor} (h : primary.Reaches scope cursor task here) :
    multiplicative.Reaches scope cursor task here :=
  @first scope .multiplicative cursor here task h

theorem term {cursor : Cursor} (h : multiplicative.Reaches scope cursor task here) :
    additive.Reaches scope cursor task here :=
  @first scope .additive cursor here task h

/-- A place inside parentheses is reached with the payment that the parenthesis costs. -/
theorem inGroup
    (h : expression.Reaches scope ⟨inner.tokens ++ .closeParen :: rest, limit, remaining⟩ task here) :
    primary.Reaches scope ⟨(Formula.group inner).tokens ++ rest, limit, remaining + 1⟩ task here := by
  rw [Formula.tokens, List.cons_append, List.append_assoc]
  exact .inside h

theorem inLeft
    (h : level.chain.Reaches scope
      ⟨left.tokens ++ .operator op :: (right.tokens ++ rest), limit, remaining⟩ task here) :
    level.chain.Reaches scope
      ⟨(Formula.binary op left right .parsed).tokens ++ rest, limit, remaining⟩ task here := by
  rw [Formula.tokens, List.append_assoc, List.cons_append]
  exact h

/-- A place in the right operand is reached past the left one, with what that and the operator
cost. -/
theorem inRight (hop : op.level = level) (hleft : level.chain.Derives scope left)
    (h : level.operand.Reaches scope ⟨right.tokens ++ rest, limit, remaining⟩ task here) :
    level.chain.Reaches scope ⟨(Formula.binary op left right .parsed).tokens ++ rest, limit,
      left.weight + (remaining + 1)⟩ task here := by
  rw [Formula.tokens, List.append_assoc, List.cons_append]
  exact .right hop hleft h

end GrammarRule.Reaches

/-- An operand can start with the token. -/
def Token.startsOperand (scope : Scope) : Token → Bool
  | .number _ | .openParen => true
  | .name text => scope text
  | .operator _ | .caret | .closeParen | .blank => false

def Cursor.tail (cursor : Cursor) : Cursor := { cursor with rest := cursor.rest.tail }

/-- A cursor stands at the end or at a token. -/
theorem Cursor.ends_or_cons (cursor : Cursor) :
    cursor.rest = [] ∨ ∃ (token : Token) (next : Cursor), cursor = next.cons token := by
  obtain ⟨rest, limit, remaining⟩ := cursor
  cases rest with
  | nil => exact .inl rfl
  | cons token tail => exact .inr ⟨token, ⟨tail, limit, remaining⟩, rfl⟩

/-- The task cannot be done at `here`: this is the error, and where the run stops. -/
inductive Fault (scope : Scope) : Task → Cursor → ParseError → Cursor → Prop where
  | ending {here : Cursor} (hend : here.rest = []) : Fault scope .operand here .unexpectedEnd here
  | word {token : Token} (next : Cursor) (htoken : token.startsOperand scope = false) :
      Fault scope .operand (next.cons token) (.unknownIdentifier token.text) next
  | unpaid {here : Cursor} (hbudget : here.remaining = 0) :
      Fault scope .payment here (.tooComplex here.limit) here
  | unclosed {here : Cursor} (hends : GrammarRule.expression.Ends here.rest)
      (hclose : here.rest.head? ≠ some .closeParen) :
      Fault scope .closing here .missingParen here.tail

/-- The rule gets to a place where its task cannot be done. -/
def GrammarRule.Faults (scope : Scope) (rule : GrammarRule) (cursor : Cursor) (e : ParseError)
    (stop : Cursor) : Prop :=
  ∃ task here, rule.Reaches scope cursor task here ∧ Fault scope task here e stop

namespace Grammar

/-! ## Steps that fail -/

section Steps

variable {α β : Type} {scope : Scope} {inner operand : Rule} {level : Level}
  {cursor stop : Cursor} {e : ParseError}

theorem bind_eq_error_iff {first : EStateM ParseError Cursor α}
    {second : α → EStateM ParseError Cursor β} :
    (first >>= second) cursor = .error e stop ↔
      first cursor = .error e stop
        ∨ ∃ value middle, first cursor = .ok value middle ∧ second value middle = .error e stop := by
  show EStateM.bind first second cursor = _ ↔ _
  unfold EStateM.bind
  cases first cursor with
  | ok value middle =>
    constructor
    · exact fun h => .inr ⟨value, middle, rfl, h⟩
    · rintro (h | ⟨_, _, ⟨⟩, h⟩)
      · exact nomatch h
      · exact h
  | error e' middle =>
    constructor
    · rintro ⟨⟩
      exact .inl rfl
    · rintro (⟨⟨⟩⟩ | ⟨_, _, ⟨⟩, _⟩)
      rfl

/-- A payment fails exactly where nothing remains to pay with. -/
theorem spend_eq_error_iff (scope : Scope) :
    spend cursor = .error e stop ↔ Fault scope .payment cursor e stop := by
  obtain ⟨rest, limit, remaining⟩ := cursor
  constructor
  · intro h
    -- a payment fails only with nothing left
    cases remaining with
    | zero =>
      cases h
      exact .unpaid rfl
    | succ remaining => exact nomatch h
  · intro h
    cases h with
    | unpaid hbudget =>
      cases hbudget
      rfl

/-- What is paid for first fails at the payment, or behind it. -/
theorem spend_bind_eq_error_iff (scope : Scope) {second : EStateM ParseError Cursor α} :
    (spend >>= fun _ => second) cursor = .error e stop ↔
      Fault scope .payment cursor e stop
        ∨ ∃ paid, cursor = paid.unspent ∧ second paid = .error e stop := by
  rw [bind_eq_error_iff, spend_eq_error_iff scope]
  refine or_congr_right ?_
  constructor
  · rintro ⟨_, paid, hspend, h⟩
    exact ⟨paid, spend_eq_ok_iff.mp hspend, h⟩
  · rintro ⟨paid, rfl, h⟩
    exact ⟨(), paid, spend_unspent, h⟩

/-- An operand that is due at the end of the text is missing there. -/
theorem primary_of_nil (hend : cursor.rest = []) :
    primary scope inner cursor = .error .unexpectedEnd cursor := by
  obtain ⟨rest, limit, remaining⟩ := cursor
  cases hend
  rfl

/-- A token that starts no operand is reported by its text, and passed. -/
theorem primary_word {token : Token} (htoken : token.startsOperand scope = false) :
    primary scope inner (cursor.cons token) = .error (.unknownIdentifier token.text) cursor := by
  cases token with
  | name text =>
    -- a name starts an operand only in scope
    have hscope : ¬ scope text = true := Bool.eq_false_iff.mp htoken
    exact (primary_name cursor text).trans (if_neg hscope)
  | number value => exact nomatch htoken
  | openParen => exact nomatch htoken
  | operator op => rfl
  | caret => rfl
  | closeParen => rfl
  | blank => rfl

/-- All that goes wrong in a primary: no operand starts there, or what stands behind a parenthesis
fails. -/
theorem primary_eq_error_iff :
    primary scope inner cursor = .error e stop ↔
      Fault scope .operand cursor e stop
        ∨ ∃ next, cursor = next.cons .openParen ∧ enclosed inner next = .error e stop := by
  constructor
  · intro h
    rcases cursor.ends_or_cons with hend | ⟨token, next, rfl⟩
    · rw [primary_of_nil hend] at h
      cases h
      exact .inl (.ending hend)
    · -- a token that starts no operand is the fault, and only a parenthesis can fail further inside
      cases htoken : token.startsOperand scope with
      | false =>
        rw [primary_word htoken] at h
        cases h
        exact .inl (.word _ htoken)
      | true =>
        cases token with
        | number value => exact nomatch h
        | openParen => exact .inr ⟨_, rfl, h⟩
        | name text =>
          have hscope : scope text = true := htoken
          rw [primary_name, if_pos hscope] at h
          exact nomatch h
        | _ => exact nomatch htoken
  · rintro (h | ⟨next, rfl, h⟩)
    · cases h with
      | ending hend => exact primary_of_nil hend
      | word next htoken => exact primary_word htoken
    · exact h

def close (content : Formula) : Rule := do
  match ← next? with
  | some .closeParen => return .group content
  | _ => throw .missingParen

/-- The closing parenthesis is taken where it stands, and what stands there instead is passed,
too. -/
theorem close_eq (content : Formula) (cursor : Cursor) :
    close content cursor =
      if cursor.rest.head? = some .closeParen then .ok (.group content) cursor.tail
      else .error .missingParen cursor.tail := by
  rcases cursor.ends_or_cons with hend | ⟨token, next, rfl⟩
  · obtain ⟨rest, limit, remaining⟩ := cursor
    cases hend
    rfl
  · cases token with
    | closeParen => exact (if_pos rfl).symm
    | _ => exact (if_neg nofun).symm

/-- Closing fails exactly where no closing parenthesis stands. -/
theorem close_eq_error_iff {content : Formula} :
    close content cursor = .error e stop ↔
      cursor.rest.head? ≠ some .closeParen ∧ e = .missingParen ∧ stop = cursor.tail := by
  rw [close_eq]
  split
  · next hclose => exact ⟨nofun, fun h => absurd hclose h.1⟩
  · next hclose =>
    constructor
    · rintro ⟨⟩
      exact ⟨hclose, rfl, rfl⟩
    · rintro ⟨-, rfl, rfl⟩
      rfl

theorem enclosed_eq (inner : Rule) : enclosed inner = (spend >>= fun _ => inner >>= close) := rfl

/-- All that goes wrong behind an opening parenthesis: it cannot be paid for, what stands inside
fails, or something else follows it than the closing one. -/
theorem enclosed_eq_error_iff (scope : Scope) :
    enclosed inner cursor = .error e stop ↔
      Fault scope .payment cursor e stop
        ∨ ∃ paid, cursor = paid.unspent
            ∧ (inner paid = .error e stop
              ∨ ∃ content here, inner paid = .ok content here
                  ∧ here.rest.head? ≠ some .closeParen ∧ e = .missingParen ∧ stop = here.tail) := by
  simp only [enclosed_eq, spend_bind_eq_error_iff scope, bind_eq_error_iff, close_eq_error_iff]

/-- One link of a chain fails exactly when its payment, its operand or the rest of the chain
does. -/
theorem link_eq_error_iff (scope : Scope) {op : Operator} {bound : Nat} {left : Formula} :
    link level operand bound left op cursor = .error e stop ↔
      Fault scope .payment cursor e stop
        ∨ ∃ paid, cursor = paid.unspent
            ∧ (operand paid = .error e stop
              ∨ ∃ right next, operand paid = .ok right next
                  ∧ links level operand bound (.binary op left right .parsed) next = .error e stop) := by
  simp only [link, spend_bind_eq_error_iff scope, bind_eq_error_iff]

end Steps

end Grammar

variable {scope : Scope} {rule : GrammarRule} {cursor here after stop : Cursor} {task : Task}
  {tree : Formula} {e : ParseError}

/-! ## From a place to its error -/

/-- **A rule that gets to a place where its task cannot be done, fails there.** By induction on the way
to the place; the trees on this way are read, since each of them is derived. -/
theorem read_of_reaches (hreaches : rule.Reaches scope cursor task here)
    (hfault : Fault scope task here e stop) : rule.read scope cursor = .error e stop := by
  induction hreaches with
  | operand here => exact primary_eq_error_iff.mpr (.inl hfault)
  | opened here =>
    have henclosed : enclosed (expression scope) here = .error e stop :=
      (enclosed_eq_error_iff scope).mpr (.inl hfault)
    exact primary_eq_error_iff.mpr (.inr ⟨here, rfl, henclosed⟩)
  | @inside paid here task _ ih =>
    have henclosed : enclosed (expression scope) paid.unspent = .error e stop :=
      (enclosed_eq_error_iff scope).mpr (.inr ⟨paid, rfl, .inl (ih hfault)⟩)
    exact primary_eq_error_iff.mpr (.inr ⟨_, rfl, henclosed⟩)
  | @enclosed content here hcontent =>
    cases hfault with
    | unclosed hends hclose =>
      -- what stands in the group ends here, so the rule stops in front of what is no parenthesis
      have hread : expression scope (here.before content) = .ok content here :=
        read_of_derives hcontent hends
      have henclosed : enclosed (expression scope) (here.before content).unspent
          = .error .missingParen here.tail :=
        (enclosed_eq_error_iff scope).mpr
          (.inr ⟨_, rfl, .inr ⟨content, here, hread, hclose, rfl, rfl⟩⟩)
      exact primary_eq_error_iff.mpr (.inr ⟨_, rfl, henclosed⟩)
  | @first level cursor here task _ ih =>
    rw [Level.read_chain]
    exact bind_eq_error_iff.mpr (.inl (ih hfault))
  | @linked level op left here hop hleft =>
    rw [Level.read_link hop hleft]
    exact (link_eq_error_iff scope).mpr (.inl hfault)
  | @right level op left paid here task hop hleft _ ih =>
    rw [Level.read_link hop hleft]
    exact (link_eq_error_iff scope).mpr (.inr ⟨paid, rfl, .inl (ih hfault)⟩)
  | whole _ ih => exact (congrFun (expression_eq scope) _).trans (ih hfault)

/-! ## Where a rule stops that succeeds -/

/-- Links go on until no operator of the level comes. By induction on the bound, which is met with no
token left only. -/
theorem links_ends {operand : Rule} {level : Level} {kind : Formula → Prop}
    {ends : List Token → Prop} (hreads : Reads kind operand)
    (hends : ∀ {cursor tree after}, operand cursor = .ok tree after → ends after.rest) :
    ∀ {bound left cursor tree after}, cursor.rest.length ≤ bound → ends cursor.rest →
      links level operand bound left cursor = .ok tree after →
      ends after.rest ∧ level.Stops after.rest := by
  intro bound
  induction bound with
  | zero =>
    intro left cursor tree after hbound hcursor h
    -- no token is left, so no operator is
    have hrest := List.length_eq_zero_iff.mp (Nat.le_zero.mp hbound)
    cases h
    rw [hrest] at hcursor ⊢
    exact ⟨hcursor, nofun⟩
  | succ bound ih =>
    intro left cursor tree after hbound hcursor h
    rcases level.stops_or_cons cursor with hstops | ⟨op, next, hop, rfl⟩
    · rw [links_of_stops hstops] at h
      cases h
      exact ⟨hcursor, hstops⟩
    · rw [links_cons hop] at h
      obtain ⟨paid, right, behind, rfl, hright, hlinks⟩ := link_eq_ok_iff.mp h
      have hshort := hreads.length_lt hright
      rw [Cursor.rest_cons, List.length_cons, Cursor.rest_unspent] at hbound
      exact ih (by omega) (hends hright) hlinks

/-- A chain stops where its operands stop and none of its operators follows. -/
theorem chain_ends (level : Level)
    (hends : ∀ {cursor tree after}, level.operand.read scope cursor = .ok tree after →
      level.operand.Ends after.rest)
    (h : level.chain.read scope cursor = .ok tree after) : level.chain.Ends after.rest := by
  rw [Level.read_chain] at h
  obtain ⟨first, next, hfirst, hlinks⟩ := chain_eq_ok_iff.mp h
  exact Level.ends_chain.mpr
    (links_ends (reads_read scope level.operand) hends (Nat.le_refl _) (hends hfirst) hlinks)

/-- A rule that succeeds stops where its phrases end, so it could not have gone on. -/
theorem ends_of_read (h : rule.read scope cursor = .ok tree after) : rule.Ends after.rest := by
  have hmultiplicative : ∀ {cursor tree after},
      GrammarRule.multiplicative.read scope cursor = .ok tree after →
        GrammarRule.multiplicative.Ends after.rest :=
    chain_ends .multiplicative fun _ => trivial
  have hadditive : ∀ {cursor tree after}, GrammarRule.additive.read scope cursor = .ok tree after →
      GrammarRule.additive.Ends after.rest :=
    chain_ends .additive hmultiplicative
  -- an expression is a sum, by the recursion of the grammar
  cases rule with
  | primary => trivial
  | multiplicative => exact hmultiplicative h
  | additive => exact hadditive h
  | expression => exact hadditive ((congrFun (expression_eq scope) cursor).symm.trans h)

/-! ## From an error to its place -/

/-- Every error of the rule on inputs of at most `size` tokens is a fault at a place it gets to. -/
def FaultsOnly (scope : Scope) (size : Nat) (rule : GrammarRule) : Prop :=
  ∀ ⦃cursor e stop⦄, cursor.rest.length ≤ size → rule.read scope cursor = .error e stop →
    rule.Faults scope cursor e stop

/-- An operand fails only at places the grammar reaches, if the shorter expressions inside it do. -/
theorem FaultsOnly.primary {size : Nat}
    (hinner : ∀ smaller < size, FaultsOnly scope smaller .expression) :
    FaultsOnly scope size .primary := by
  intro cursor e stop hsize h
  rcases primary_eq_error_iff.mp h with hfault | ⟨next, rfl, henclosed⟩
  · exact ⟨.operand, cursor, .operand cursor, hfault⟩
  · rw [Cursor.rest_cons, List.length_cons] at hsize
    rcases (enclosed_eq_error_iff scope).mp henclosed with
      hfault | ⟨paid, rfl, herror | ⟨content, here, hcontent, hclose, rfl, rfl⟩⟩
    · exact ⟨.payment, next, .opened next, hfault⟩
    · -- the parenthesis is a token, so fewer of them are left inside
      obtain ⟨task, here, hreaches, hfault⟩ :=
        hinner paid.rest.length hsize (Nat.le_refl _) herror
      exact ⟨task, here, .inside hreaches, hfault⟩
    · obtain ⟨hderives, rfl⟩ := reads_expression scope hcontent
      have hends : GrammarRule.expression.Ends here.rest := ends_of_read hcontent
      exact ⟨.closing, here, .enclosed here hderives, .unclosed hends hclose⟩

/-- Links that fail do so in the chain that starts from `left`. By induction on the bound. -/
theorem links_faults {level : Level} {size : Nat} (hoperand : FaultsOnly scope size level.operand) :
    ∀ {bound left cursor e stop}, cursor.rest.length ≤ size → level.chain.Derives scope left →
      links level (level.operand.read scope) bound left cursor = .error e stop →
      level.chain.Faults scope (cursor.before left) e stop := by
  intro bound
  induction bound with
  | zero => exact fun _ _ h => nomatch h
  | succ bound ih =>
    intro left cursor e stop hsize hleft h
    rcases level.stops_or_cons cursor with hstops | ⟨op, next, hop, rfl⟩
    · rw [links_of_stops hstops] at h
      exact nomatch h
    · rw [links_cons hop] at h
      rw [Cursor.rest_cons, List.length_cons] at hsize
      rcases (link_eq_error_iff scope).mp h with
        hfault | ⟨paid, rfl, herror | ⟨right, behind, hright, hlinks⟩⟩
      · exact ⟨.payment, next, .linked next hop hleft, hfault⟩
      · rw [Cursor.rest_unspent] at hsize
        obtain ⟨task, here, hreaches, hfault⟩ := hoperand (by omega) herror
        exact ⟨task, here, .right hop hleft hreaches, hfault⟩
      · obtain ⟨hderives, rfl⟩ := reads_read scope level.operand hright
        rw [Cursor.rest_unspent, Cursor.rest_before, List.length_append] at hsize
        -- from here on the link is what the chain starts from
        rw [← Cursor.before_binary]
        exact ih (by omega) (Level.derives_link hop hleft hderives) hlinks

/-- A chain fails only at places the grammar reaches, if its operands do. -/
theorem FaultsOnly.chain {size : Nat} (level : Level)
    (hoperand : FaultsOnly scope size level.operand) : FaultsOnly scope size level.chain := by
  intro cursor e stop hsize h
  rw [Level.read_chain] at h
  rcases bind_eq_error_iff.mp h with herror | ⟨first, next, hfirst, hlinks⟩
  · obtain ⟨task, here, hreaches, hfault⟩ := hoperand hsize herror
    exact ⟨task, here, .first hreaches, hfault⟩
  · obtain ⟨hderives, rfl⟩ := reads_read scope level.operand hfirst
    rw [Cursor.rest_before, List.length_append] at hsize
    exact links_faults hoperand (by omega) (Level.derives_operand hderives) hlinks

theorem FaultsOnly.multiplicative {size : Nat}
    (hinner : ∀ smaller < size, FaultsOnly scope smaller .expression) :
    FaultsOnly scope size .multiplicative :=
  .chain .multiplicative (.primary hinner)

theorem FaultsOnly.additive {size : Nat}
    (hinner : ∀ smaller < size, FaultsOnly scope smaller .expression) :
    FaultsOnly scope size .additive :=
  .chain .additive (.multiplicative hinner)

/-- By induction on the number of tokens: a parenthesis is one of them. -/
theorem faultsOnly_expression (scope : Scope) (size : Nat) : FaultsOnly scope size .expression := by
  induction size using Nat.strongRecOn with
  | ind size ih =>
    intro cursor e stop hsize h
    have hadditive : additive scope (expression scope) cursor = .error e stop :=
      (congrFun (expression_eq scope) cursor).symm.trans h
    obtain ⟨task, here, hreaches, hfault⟩ := FaultsOnly.additive ih hsize hadditive
    exact ⟨task, here, .whole hreaches, hfault⟩

/-- Every rule fails only at places the grammar reaches. Induction on the length of the text, by
which the expressions in parentheses are shorter. -/
theorem faultsOnly (scope : Scope) (size : Nat) : ∀ rule, FaultsOnly scope size rule
  | .expression => faultsOnly_expression scope size
  | .additive => .additive fun smaller _ => faultsOnly_expression scope smaller
  | .multiplicative => .multiplicative fun smaller _ => faultsOnly_expression scope smaller
  | .primary => .primary fun smaller _ => faultsOnly_expression scope smaller

/-- **What it means that a rule fails**: it gets to a place where its task cannot be done. -/
theorem read_eq_error_iff (rule : GrammarRule) :
    rule.read scope cursor = .error e stop ↔ rule.Faults scope cursor e stop := by
  constructor
  · exact fun h => faultsOnly scope cursor.rest.length rule (Nat.le_refl _) h
  · rintro ⟨task, here, hreaches, hfault⟩
    exact read_of_reaches hreaches hfault

end FormulaSheet
