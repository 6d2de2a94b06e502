import FormulaSheet.Proofs.Formula.Faults

/-!
# FormulaSheet — errors and what more input can do

A formula may be wrong as far as it goes, or only not finished. Its error tells which. A run that
stops in front of a token or for want of budget has not come to the end of its input, so it stops
there whatever follows. A run that stops at the end has paid for all it has read and has open
parentheses only: it lacks one operand or none, and then the closing parentheses.

* `Reaches.extend`, `Fault.extend_or_end` — a place and its fault are there with more input too, if it
  is not the end of the input that is at fault.
* `read_extend` — a rule that stops in front of a token stops there with more input.
* `Reaches.completes` — at the end of the input, what the task lacks and some closing parentheses
  complete a tree. By induction on the way to the place: each parenthesis on it asks for one.
* `parse_error_extends` — the headline.
-/

namespace FormulaSheet

open Grammar

variable {scope : Scope} {rule : GrammarRule} {cursor here after stop : Cursor} {task : Task}
  {tree : Formula} {e : ParseError}

/-! ## More input -/

/-- The cursor with more input behind what is left. -/
def Cursor.extend (cursor : Cursor) (more : List Token) : Cursor :=
  { cursor with rest := cursor.rest ++ more }

/-- More input stands behind a tree as it does behind what follows the tree. -/
theorem Cursor.extend_before (after : Cursor) (tree : Formula) (more : List Token) :
    (after.before tree).extend more = (after.extend more).before tree := by
  simp [extend, before]

theorem Cursor.keepsFront_extend (more : List Token) :
    KeepsFront (fun cursor => cursor.extend more) where
  cons _ _ := rfl
  unspent _ := rfl
  before after tree := extend_before after tree more

/-- Where a tree ends is decided by the next token. -/
theorem GrammarRule.Ends.of_head? {rest other : List Token} (h : rule.Ends rest)
    (hhead : other.head? = rest.head?) : rule.Ends other := by
  have hstops : ∀ {level : Level}, level.Stops rest → level.Stops other := by
    intro level hlevel op hop
    exact hlevel op (hhead.symm.trans hop)
  cases rule with
  | primary => trivial
  | multiplicative => exact hstops h
  | additive => exact h.imp hstops hstops
  | expression => exact h.imp hstops hstops

/-- A place that is reached is reached with more input behind it. -/
theorem GrammarRule.Reaches.extend (h : rule.Reaches scope cursor task here) (more : List Token) :
    rule.Reaches scope (cursor.extend more) task (here.extend more) :=
  h.map (Cursor.keepsFront_extend more)

/-- A fault is one with more input too, or it is that the input ends. -/
theorem Fault.extend_or_end (h : Fault scope task here e stop) :
    (e ≠ .unexpectedEnd ∧ ∀ more, Fault scope task (here.extend more) e (stop.extend more))
      ∨ here.rest = []
        ∧ (task = .operand ∧ e = .unexpectedEnd ∨ task = .closing ∧ e = .missingParen) := by
  cases h with
  | ending hend => exact .inr ⟨hend, .inl ⟨rfl, rfl⟩⟩
  | word next htoken => exact .inl ⟨nofun, fun more => .word (stop.extend more) htoken⟩
  | unpaid hbudget => exact .inl ⟨nofun, fun more => .unpaid hbudget⟩
  | unclosed hends hclose =>
    -- a parenthesis is missing at the end, or another token stands in its place
    rcases here.ends_or_cons with hend | ⟨token, next, rfl⟩
    · exact .inr ⟨hend, .inr ⟨rfl, rfl⟩⟩
    · refine .inl ⟨nofun, fun more => ?_⟩
      have hother : Fault scope .closing ((next.cons token).extend more) .missingParen _ :=
        .unclosed (hends.of_head? rfl) hclose
      exact hother

/-- A rule that has left a token reads the same with more input, as the token shows where it
ends. -/
theorem read_extend (rule : GrammarRule) (h : rule.read scope cursor = .ok tree after)
    (hrest : after.rest ≠ []) (more : List Token) :
    rule.read scope (cursor.extend more) = .ok tree (after.extend more) := by
  obtain ⟨hderives, rfl⟩ := reads_read scope rule h
  have hends := ends_of_read h
  obtain ⟨token, next, rfl⟩ := after.ends_or_cons.resolve_left hrest
  rw [Cursor.extend_before]
  exact read_of_derives hderives (hends.of_head? rfl)

/-! ## The end of the input -/

/-- With `missing` behind its input the cursor is in front of a tree of the rule, and nothing
more, and the budget is enough for it. -/
def GrammarRule.Completes (scope : Scope) (rule : GrammarRule) (cursor : Cursor)
    (missing : List Token) : Prop :=
  ∃ tree, rule.Derives scope tree ∧ tree.tokens = cursor.rest ++ missing
    ∧ tree.weight ≤ cursor.remaining

/-- Tokens that do the task. A payment asks for none. -/
def Task.missing (value : Float) : Task → List Token
  | operand => [.number value]
  | payment => []
  | closing => [.closeParen]

namespace GrammarRule.Completes

variable {missing : List Token} {level : Level} {op : Operator} {left content : Formula}
  {paid : Cursor}

/-- An operand that is missing is completed by a number. -/
theorem number (hend : here.rest = []) (value : Float) :
    primary.Completes scope here [.number value] := by
  refine ⟨.literal value .parsed, .number value, ?_, Nat.zero_le _⟩
  rw [hend]
  rfl

/-- What completes the content of parentheses completes them with the closing one behind it. -/
theorem inside (h : expression.Completes scope paid missing) :
    primary.Completes scope (paid.unspent.cons .openParen) (missing ++ [.closeParen]) := by
  obtain ⟨tree, hderives, htokens, hweight⟩ := h
  refine ⟨.group tree, .group hderives, ?_, Nat.succ_le_succ hweight⟩
  simp [Formula.tokens, htokens]

/-- A content that is complete lacks only the closing parenthesis. -/
theorem enclosed (hcontent : expression.Derives scope content) (hend : here.rest = []) :
    primary.Completes scope ((here.before content).unspent.cons .openParen) [.closeParen] := by
  have h : expression.Completes scope (here.before content) [] :=
    ⟨content, hcontent, by simp [hend], Nat.le_add_right _ _⟩
  exact inside h

theorem first (h : level.operand.Completes scope cursor missing) :
    level.chain.Completes scope cursor missing := by
  obtain ⟨tree, hderives, hwritten⟩ := h
  exact ⟨tree, Level.derives_operand hderives, hwritten⟩

/-- What completes a right operand completes the chain, behind its left operand and the operator. -/
theorem right (hop : op.level = level) (hleft : level.chain.Derives scope left)
    (h : level.operand.Completes scope paid missing) :
    level.chain.Completes scope ((paid.unspent.cons (.operator op)).before left) missing := by
  obtain ⟨tree, hderives, htokens, hweight⟩ := h
  refine ⟨.binary op left tree .parsed, Level.derives_link hop hleft hderives, ?_, ?_⟩
  · simp [Formula.tokens, htokens]
  · simp only [Formula.weight, Cursor.before, Cursor.cons, Cursor.unspent]
    omega

theorem whole (h : additive.Completes scope cursor missing) :
    expression.Completes scope cursor missing := by
  obtain ⟨tree, hderives, hwritten⟩ := h
  exact ⟨tree, .whole hderives, hwritten⟩

end GrammarRule.Completes

/-- **What lacks at the end of the input**: the tokens of the task, and then a closing parenthesis for
each one that is open on the way there. -/
theorem GrammarRule.Reaches.completes (h : rule.Reaches scope cursor task here)
    (hend : here.rest = []) (htask : task ≠ .payment) :
    ∃ n, ∀ value,
      rule.Completes scope cursor (task.missing value ++ List.replicate n .closeParen) := by
  induction h with
  | operand here => exact ⟨0, .number hend⟩
  | opened here => exact absurd rfl htask
  | inside _ ih =>
    obtain ⟨n, hn⟩ := ih hend htask
    -- the group is closed last
    refine ⟨n + 1, fun value => ?_⟩
    rw [List.replicate_succ', ← List.append_assoc]
    exact .inside (hn value)
  | enclosed here hcontent => exact ⟨0, fun _ => .enclosed hcontent hend⟩
  | first _ ih =>
    obtain ⟨n, hn⟩ := ih hend htask
    exact ⟨n, fun value => .first (hn value)⟩
  | linked here hop hleft => exact absurd rfl htask
  | right hop hleft _ ih =>
    obtain ⟨n, hn⟩ := ih hend htask
    exact ⟨n, fun value => .right hop hleft (hn value)⟩
  | whole _ ih =>
    obtain ⟨n, hn⟩ := ih hend htask
    exact ⟨n, fun value => .whole (hn value)⟩

/-! ## Whole formulas -/

variable {tokens : List Token}

/-- A formula fails exactly when its expression does, or when a token is left behind it. -/
theorem parse_eq_error_iff :
    parse scope tokens = .error e ↔
      (∃ stop, expression scope (.start tokens complexityLimit) = .error e stop)
        ∨ ∃ tree token next,
            expression scope (.start tokens complexityLimit) = .ok tree (Cursor.cons next token)
              ∧ e = .trailingTokens token.text := by
  unfold parse
  cases expression scope (.start tokens complexityLimit) with
  | error e' stop =>
    constructor
    · rintro ⟨⟩
      exact .inl ⟨stop, rfl⟩
    · rintro (⟨_, ⟨⟩⟩ | ⟨_, _, _, ⟨⟩, _⟩)
      rfl
  | ok read after =>
    -- a tree has been read, so it is an error that a token is left
    rcases after.ends_or_cons with hend | ⟨token, next, rfl⟩
    · simp only [hend]
      constructor
      · nofun
      · rintro (⟨_, ⟨⟩⟩ | ⟨_, _, _, ⟨⟩, _⟩)
        exact nomatch hend
    · constructor
      · rintro ⟨⟩
        exact .inr ⟨read, token, next, rfl, rfl⟩
      · rintro (⟨_, ⟨⟩⟩ | ⟨_, other, _, h, rfl⟩)
        have htoken : token = other :=
          (List.cons.inj (congrArg Cursor.rest (EStateM.Result.ok.inj h).2)).1
        rw [htoken]
        rfl

/-- What completes the expression of a formula makes a formula of it. -/
theorem parse_of_completes {missing : List Token}
    (h : GrammarRule.expression.Completes scope (.start tokens complexityLimit) missing) :
    ∃ tree, parse scope (tokens ++ missing) = .ok tree := by
  obtain ⟨tree, hwritten⟩ := h
  exact ⟨tree, parse_eq_ok_iff.mpr hwritten⟩

/-- An error stays with more input, or it is that the formula is not finished. -/
theorem parse_extend_or_completes (h : parse scope tokens = .error e) :
    (e ≠ .unexpectedEnd ∧ ∀ more, parse scope (tokens ++ more) = .error e)
      ∨ (e = .unexpectedEnd ∧ ∃ n, ∀ value, ∃ tree,
          parse scope (tokens ++ .number value :: List.replicate n .closeParen) = .ok tree)
      ∨ e = .missingParen ∧ ∃ n ≥ 1, ∃ tree,
          parse scope (tokens ++ List.replicate n .closeParen) = .ok tree := by
  rcases parse_eq_error_iff.mp h with ⟨stop, hstop⟩ | ⟨tree, token, next, hread, rfl⟩
  · obtain ⟨task, here, hreaches, hfault⟩ := (read_eq_error_iff .expression).mp hstop
    rcases hfault.extend_or_end with ⟨hne, hextend⟩ | ⟨hend, ⟨rfl, rfl⟩ | ⟨rfl, rfl⟩⟩
    · refine .inl ⟨hne, fun more => ?_⟩
      have hfails : expression scope (.start (tokens ++ more) complexityLimit)
          = .error e (stop.extend more) :=
        (read_eq_error_iff .expression).mpr ⟨task, _, hreaches.extend more, hextend more⟩
      exact parse_eq_error_iff.mpr (.inl ⟨_, hfails⟩)
    · obtain ⟨n, hn⟩ := hreaches.completes hend nofun
      exact .inr (.inl ⟨rfl, n, fun value => parse_of_completes (hn value)⟩)
    · obtain ⟨n, hn⟩ := hreaches.completes hend nofun
      -- a task to close asks for one parenthesis itself, and for no number
      exact .inr (.inr ⟨rfl, n + 1, Nat.le_add_left _ _, parse_of_completes (hn 0)⟩)
  · refine .inl ⟨nofun, fun more => ?_⟩
    have hextend : GrammarRule.expression.read scope (.start (tokens ++ more) complexityLimit)
        = .ok tree ((next.extend more).cons token) :=
      read_extend .expression hread nofun more
    exact parse_eq_error_iff.mpr (.inr ⟨tree, token, _, hextend, rfl⟩)

/-- **An error says whether more input could help.** All but two kinds of errors stay whatever
follows. A formula that ends where an operand has to stand is completed by any number and some closing
parentheses. One where a closing parenthesis is missing is completed by closing parentheses, or it is
missing in front of another token, and then the error stays. -/
theorem parse_error_extends (scope : Scope) (tokens : List Token) :
    (∀ e, parse scope tokens = .error e → e ≠ .unexpectedEnd → e ≠ .missingParen →
        ∀ more, parse scope (tokens ++ more) = .error e)
    ∧ (parse scope tokens = .error .unexpectedEnd → ∃ n, ∀ value, ∃ tree,
        parse scope (tokens ++ .number value :: List.replicate n .closeParen) = .ok tree)
    ∧ (parse scope tokens = .error .missingParen →
        (∀ more, parse scope (tokens ++ more) = .error .missingParen)
          ∨ ∃ n ≥ 1, ∃ tree, parse scope (tokens ++ List.replicate n .closeParen) = .ok tree) := by
  refine ⟨?_, ?_, ?_⟩
  · intro e h hend hparen
    -- an error that is none of the two that the end of the input makes
    rcases parse_extend_or_completes h with ⟨-, hextend⟩ | ⟨rfl, -⟩ | ⟨rfl, -⟩
    · exact hextend
    · exact absurd rfl hend
    · exact absurd rfl hparen
  · intro h
    rcases parse_extend_or_completes h with ⟨hne, -⟩ | ⟨-, hcompletes⟩ | ⟨h, -⟩
    · exact absurd rfl hne
    · exact hcompletes
    · exact nomatch h
  · intro h
    rcases parse_extend_or_completes h with ⟨-, hextend⟩ | ⟨h, -⟩ | ⟨-, hcompletes⟩
    · exact .inl hextend
    · exact nomatch h
    · exact .inr hcompletes

/-- Nothing helps a name out of scope, nor a closing parenthesis too many. The open ends of `(a +` and
`(a` are another matter. -/
theorem open_paren_extends :
    (∀ more, parse (· == "a") ([.name "b"] ++ more) = .error (.unknownIdentifier "b"))
    ∧ (∀ more, parse (· == "a") ([.name "a", .closeParen] ++ more) = .error (.trailingTokens ")"))
    ∧ (∃ n, ∀ value, ∃ tree,
        parse (· == "a") ([.openParen, .name "a", .operator .add]
          ++ .number value :: List.replicate n .closeParen) = .ok tree)
    ∧ ((∀ more, parse (· == "a") ([.openParen, .name "a"] ++ more) = .error .missingParen)
        ∨ ∃ n ≥ 1, ∃ tree,
          parse (· == "a") ([.openParen, .name "a"] ++ List.replicate n .closeParen) = .ok tree) :=
  ⟨(parse_error_extends (· == "a") [.name "b"]).1 _ rfl nofun nofun,
   (parse_error_extends (· == "a") [.name "a", .closeParen]).1 _ rfl nofun nofun,
   (parse_error_extends (· == "a") [.openParen, .name "a", .operator .add]).2.1 rfl,
   (parse_error_extends (· == "a") [.openParen, .name "a"]).2.2 rfl⟩

end FormulaSheet
