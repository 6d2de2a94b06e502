import FormulaSheet.Proofs.Formula.Reading

/-!
# FormulaSheet — the recursion of the grammar without its bounds

The rules recurse with bounds, on the depth of parentheses and on the length of chains. Both
start at the number of tokens left, and every step takes a token, so neither is ever met. What
remains is the grammar as its text has it:

* `expression_eq` — an expression is a sum whose parentheses hold expressions.
* `linksLeft_cons` — a chain goes on behind each link as it went on before it.
* `AgreeOn` — the fact behind them: two rules run alike on a kind of input, whether they succeed or
  fail. It passes from the operands of a chain to the chain (`links_agree`, `chain_agree`) and from
  the inner rule to the primary (`primary_agree`), and two bounds that are at least the number of
  tokens left agree (`bounded_agree`).
-/

namespace FormulaSheet

namespace Grammar

/-! ## Runs on inputs of a kind

Two rules that agree on a kind of input are the same on every cursor with such a rest. A rule leaves
a part of its input, so the kind has to be one that passes on from an input to its parts. A primary
asks its inner rule behind a parenthesis, where the rest may be of a narrower kind. -/

/-- The rules run alike wherever the tokens left are of a kind. -/
def AgreeOn (kind : List Token → Prop) (rule other : Rule) : Prop :=
  ∀ cursor : Cursor, kind cursor.rest → rule cursor = other cursor

/-- What is left behind some tokens is of the kind, too. -/
def PassesOn (kind : List Token → Prop) : Prop :=
  ∀ front back : List Token, kind (front ++ back) → kind back

section Agreement

variable {scope scope' : Scope} {level : Level} {kind inside : List Token → Prop}
  {trees : Formula → Prop} {inner inner' operand operand' : Rule}

/-- What an operand leaves is an input of the same kind. -/
theorem Reads.passesOn (hreads : Reads trees operand) (hkind : PassesOn kind)
    {cursor after : Cursor} {tree : Formula} (h : operand cursor = .ok tree after) (hcursor : kind cursor.rest) :
    kind after.rest := by
  rw [(hreads h).2, Cursor.rest_before] at hcursor
  exact hkind _ _ hcursor

/-- Groups agree where the expressions inside them do. -/
theorem enclosed_agree (h : AgreeOn kind inner inner') :
    AgreeOn kind (enclosed inner) (enclosed inner') := by
  intro cursor hkind
  refine bind_congr rfl fun _ paid hpaid => bind_congr (h paid ?_) fun _ _ _ => rfl
  rw [spend_eq_ok_iff.mp hpaid] at hkind
  exact hkind

/-- Operands agree where the expressions in parentheses and the names in scope do. -/
theorem primary_agree (h : AgreeOn inside inner inner')
    (hinside : ∀ {rest}, kind (.openParen :: rest) → inside rest)
    (hscope : ∀ {name rest}, kind (.name name :: rest) → scope name = scope' name) :
    AgreeOn kind (primary scope inner) (primary scope' inner') := by
  rintro ⟨rest, limit, remaining⟩ hkind
  match rest, hkind with
  | [], _ => rfl
  | .openParen :: tail, hkind => exact enclosed_agree h ⟨tail, limit, remaining⟩ (hinside hkind)
  | .name name :: tail, hkind =>
    -- a name is looked up in its scope
    let cursor : Cursor := ⟨tail, limit, remaining⟩
    show primary scope inner (cursor.cons (.name name))
      = primary scope' inner' (cursor.cons (.name name))
    rw [primary_name, primary_name, hscope hkind]
  | .number _ :: _, _ | .operator _ :: _, _ | .caret :: _, _ | .closeParen :: _, _
  | .blank :: _, _ => rfl

/-- Chains of operands that agree run alike, under all bounds that the tokens left do not
exceed. By induction on the first bound; each link takes a token. -/
theorem links_agree (hpasses : PassesOn kind) (hreads : Reads trees operand)
    (h : AgreeOn kind operand operand') :
    ∀ {bound bound' : Nat} {left : Formula} {cursor : Cursor}, kind cursor.rest →
      cursor.rest.length ≤ bound → cursor.rest.length ≤ bound' →
      links level operand bound left cursor = links level operand' bound' left cursor := by
  intro bound
  induction bound with
  | zero =>
    -- no token is left, so both chains stop
    intro bound' left cursor _ hbound _
    have hrest := List.length_eq_zero_iff.mp (Nat.le_zero.mp hbound)
    have hstops : level.Stops cursor.rest := fun op hop => by
      rw [hrest] at hop
      exact nomatch hop
    rw [links_of_stops hstops, links_of_stops hstops]
  | succ bound ih =>
    intro bound' left cursor hkind hbound hbound'
    rcases level.stops_or_cons cursor with hstops | ⟨op, next, hop, rfl⟩
    · rw [links_of_stops hstops, links_of_stops hstops]
    · rw [Cursor.rest_cons, List.length_cons] at hbound hbound'
      have hnext : kind next.rest := hpasses [.operator op] _ hkind
      obtain ⟨bound', rfl⟩ : ∃ n, bound' = n + 1 := ⟨bound' - 1, by omega⟩
      rw [links_cons hop, links_cons hop]
      refine bind_congr rfl fun _ paid hpaid => ?_
      rw [spend_eq_ok_iff.mp hpaid, Cursor.rest_unspent] at hnext hbound hbound'
      refine bind_congr (h paid hnext) fun right behind hright => ?_
      -- the operand took a token too, so the rest is below both bounds
      have hshort := hreads.length_lt hright
      exact ih (hreads.passesOn hpasses hright hnext) (by omega) (by omega)

/-- Chains agree where their operands do. Induction on the number of links. -/
theorem chain_agree (hpasses : PassesOn kind) (hreads : Reads trees operand)
    (h : AgreeOn kind operand operand') :
    AgreeOn kind (chain level operand) (chain level operand') := by
  intro cursor hkind
  refine bind_congr (h cursor hkind) fun first next hfirst => ?_
  exact links_agree hpasses hreads h (hreads.passesOn hpasses hfirst hkind) (Nat.le_refl _)
    (Nat.le_refl _)

theorem additive_agree (hpasses : PassesOn kind)
    (hreads : Reads (GrammarRule.expression.Derives scope) inner)
    (h : AgreeOn kind (primary scope inner) (primary scope' inner')) :
    AgreeOn kind (additive scope inner) (additive scope' inner') :=
  chain_agree hpasses (.multiplicative hreads) (chain_agree hpasses (.primary hreads) h)

end Agreement

/-! ## The bound on the depth of parentheses -/

/-- At most `size` tokens are left. -/
def AtMost (size : Nat) (rest : List Token) : Prop := rest.length ≤ size

theorem atMost_passesOn (size : Nat) : PassesOn (AtMost size) := by
  intro front back hsize
  rw [AtMost, List.length_append] at hsize
  exact Nat.le_trans (Nat.le_add_left _ _) hsize

/-- Two bounds give the same run on all inputs that are no longer than either. -/
theorem bounded_agree (scope : Scope) :
    ∀ bound bound', AgreeOn (AtMost (min bound bound')) (bounded scope bound) (bounded scope bound')
  | 0, 0 => fun _ _ => rfl
  | 0, bound' + 1 => by
    rintro ⟨rest, limit, remaining⟩ hsize
    -- no bound is needed for an empty text
    rw [Nat.zero_min] at hsize
    cases List.length_eq_zero_iff.mp (Nat.le_zero.mp hsize)
    rfl
  | bound + 1, 0 => by
    rintro ⟨rest, limit, remaining⟩ hsize
    rw [Nat.min_zero] at hsize
    cases List.length_eq_zero_iff.mp (Nat.le_zero.mp hsize)
    rfl
  | bound + 1, bound' + 1 => by
    -- an expression in parentheses is shorter by its parenthesis
    rw [Nat.succ_min_succ]
    exact additive_agree (atMost_passesOn _) (reads_bounded scope bound)
      (primary_agree (bounded_agree scope bound bound') Nat.le_of_succ_le_succ fun _ => rfl)

/-- Any bound that is as long as the text reads it as the parser does. -/
theorem bounded_agree_expression (scope : Scope) (bound : Nat) :
    AgreeOn (AtMost bound) (bounded scope bound) (expression scope) := by
  intro cursor hsize
  exact bounded_agree scope bound cursor.rest.length cursor (Nat.le_min.mpr ⟨hsize, Nat.le_refl _⟩)

/-- **The recursion of the grammar**: an expression is a sum, and what stands in its parentheses
are expressions. -/
theorem expression_eq (scope : Scope) : expression scope = additive scope (expression scope) := by
  funext cursor
  let size := cursor.rest.length
  calc expression scope cursor
      = bounded scope (size + 1) cursor :=
        ((bounded_agree_expression scope (size + 1)) cursor (Nat.le_succ size)).symm
    _ = additive scope (expression scope) cursor :=
        additive_agree (atMost_passesOn (size + 1)) (reads_bounded scope size)
          (primary_agree (bounded_agree_expression scope size) Nat.le_of_succ_le_succ fun _ => rfl)
          cursor (Nat.le_succ size)

/-! ## The bound on the length of chains -/

/-- What is left of a chain behind `left`. -/
def linksLeft (level : Level) (operand : Rule) (left : Formula) : Rule := do
  links level operand (← get).rest.length left

section Chains

variable {level : Level} {operand : Rule} {kind : Formula → Prop} {cursor next : Cursor}
  {left right : Formula}

/-- A chain goes on with its links, however long the text behind them is. -/
theorem chain_eq_linksLeft (h : operand cursor = .ok left next) :
    chain level operand cursor = linksLeft level operand left next :=
  chain_of_ok h

theorem linksLeft_of_stops (h : level.Stops cursor.rest) :
    linksLeft level operand left cursor = .ok left cursor :=
  links_of_stops h _

/-- At an operator and its operand the chain goes on with their tree. -/
theorem linksLeft_cons (hreads : Reads kind operand) {op : Operator} (hop : op.level = level)
    (hright : operand cursor = .ok right next) :
    linksLeft level operand left (cursor.unspent.cons (.operator op))
      = linksLeft level operand (.binary op left right .parsed) next := by
  have hshort := hreads.length_lt hright
  show links level operand (cursor.rest.length + 1) left _ = links level operand _ _ next
  rw [links_cons hop, link, bind_of_ok spend_unspent, bind_of_ok hright]
  exact links_agree (atMost_passesOn next.rest.length) hreads (fun _ _ => rfl) (Nat.le_refl _)
    (by omega) (Nat.le_refl _)

end Chains

end Grammar

end FormulaSheet
