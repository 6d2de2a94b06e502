import FormulaSheet.Proofs.Formula.Acceptance
import FormulaSheet.Sheet.Context

/-!
# FormulaSheet — evaluation by operator precedence

The value of a formula can be had without a tree, in one pass over its tokens with two stacks: the
values so far, and the operators and parentheses that still wait for what is to come. An operator
that comes next first makes those on the stack apply that bind at least as tightly as it does, up to
the last open parenthesis. So neighbours of one strength apply from left to right.

The pass gives a formula the value of its tree, operation by operation, and no law of arithmetic
comes into it:

* `Yard.reduce_of_waits`, `Yard.reduce_reduce` — how far the operators on the stack are applied.
* `Yard.Leads` — what the pass makes of the tokens of a tree: the operators that still wait are its
  own, and once they are applied, there is one value more on the stack, that of the tree.
* `Yard.leads_of_derives` — the invariant, by induction on the derivation.
* `shuntingYard_of_parse` — the headline.
-/

namespace FormulaSheet

/-! ## The pass over the tokens -/

/-- How tightly an operator binds, as a number. -/
def Operator.strength : Operator → Nat
  | add | sub => 0
  | mul | div => 1

/-- What waits on the stack of operators. -/
inductive Pending where
  | operator (op : Operator)
  /-- A parenthesis that is still open. -/
  | paren
deriving DecidableEq, Repr

/-- The two stacks, tops first. -/
structure Yard where
  values : List Float
  pending : List Pending
deriving DecidableEq

namespace Yard

def empty : Yard := ⟨[], []⟩

def push (yard : Yard) (value : Float) : Yard :=
  { yard with values := value :: yard.values }

def await (yard : Yard) (pending : Pending) : Yard :=
  { yard with pending := pending :: yard.pending }

/-- Applies an operator to the two values on top, the right operand first. -/
def applyTop (op : Operator) : List Float → Option (List Float)
  | right :: left :: values => some (op.apply left right :: values)
  | _ => none

/-- Applies the operators on top of the stack as long as they bind at least as tightly as
`strength`. -/
def reduceFrom (strength : Nat) : List Pending → List Float → Option Yard
  | [], values => some ⟨values, []⟩
  | .paren :: pending, values => some ⟨values, .paren :: pending⟩
  | .operator op :: pending, values =>
    if strength ≤ op.strength then (applyTop op values).bind (reduceFrom strength pending)
    else some ⟨values, .operator op :: pending⟩

def reduce (strength : Nat) (yard : Yard) : Option Yard :=
  reduceFrom strength yard.pending yard.values

/-- Takes one token. Names have the values that `valueOf` knows. -/
def step (valueOf : String → Option Float) (yard : Yard) : Token → Option Yard
  | .number value => some (yard.push value)
  | .name name => (valueOf name).map yard.push
  | .operator op => (yard.reduce op.strength).map (·.await (.operator op))
  | .openParen => some (yard.await .paren)
  | .closeParen =>
    match yard.reduce 0 with
    | some ⟨values, .paren :: pending⟩ => some ⟨values, pending⟩
    | _ => none
  | .caret | .blank => none

def run (valueOf : String → Option Float) (yard : Yard) (tokens : List Token) : Option Yard :=
  tokens.foldlM (step valueOf) yard

end Yard

/-- The value of a formula from its tokens, if all of them are taken and one value is left. -/
def shuntingYard (valueOf : String → Option Float) (tokens : List Token) : Option Float :=
  match (Yard.empty.run valueOf tokens).bind (Yard.reduce 0) with
  | some ⟨[value], []⟩ => some value
  | _ => none

namespace Yard

/-! ## How far the operators are applied -/

/-- No operator on top binds at least as tightly as `strength`. -/
def Waits (strength : Nat) (yard : Yard) : Prop :=
  ∀ op, yard.pending.head? = some (.operator op) → op.strength < strength

variable {valueOf : String → Option Float} {strength least : Nat} {yard base next : Yard}
  {value left right : Float} {op : Operator}

theorem waits_two (yard : Yard) : Waits 2 yard := by
  intro op _
  cases op <;> decide

theorem Waits.mono (h : Waits least yard) (hle : least ≤ strength) : Waits strength yard :=
  fun op hop => Nat.lt_of_lt_of_le (h op hop) hle

/-- An operator waits for everything that binds tighter. -/
theorem waits_await_operator (h : op.strength < strength) :
    Waits strength (yard.await (.operator op)) := by
  intro other hother
  cases hother
  exact h

/-- Nothing is applied across an open parenthesis. -/
theorem waits_await_paren (strength : Nat) (yard : Yard) : Waits strength (yard.await .paren) :=
  nofun

/-- Where all operators wait, none is applied. -/
theorem reduce_of_waits (h : Waits strength yard) : yard.reduce strength = some yard := by
  obtain ⟨values, pending⟩ := yard
  cases pending with
  | nil => rfl
  | cons top pending =>
    cases top with
    | paren => rfl
    | operator op =>
      have hweaker : ¬ strength ≤ op.strength := Nat.not_le.mpr (h op rfl)
      rw [reduce, reduceFrom, if_neg hweaker]

/-- An operator that binds tightly enough is applied to the two values on top. -/
theorem reduce_await_operator (hop : least ≤ op.strength) :
    (((base.push left).await (.operator op)).push right).reduce least
      = (base.push (op.apply left right)).reduce least := by
  show reduceFrom least (.operator op :: base.pending) (right :: left :: base.values) = _
  rw [reduceFrom, if_pos hop]
  rfl

/-- What is applied for a tight operator is applied for a weaker one, too. By induction on the stack
of operators. -/
theorem reduce_reduce (hle : least ≤ strength) (h : yard.reduce strength = some next) :
    yard.reduce least = next.reduce least := by
  obtain ⟨values, pending⟩ := yard
  rw [reduce] at h
  dsimp only at h
  show reduceFrom least pending values = _
  -- values are what varies: each operator that is applied changes them
  induction pending generalizing values with
  | nil =>
    cases h
    rfl
  | cons top pending ih =>
    cases top with
    | paren =>
      cases h
      rfl
    | operator op =>
      rw [reduceFrom] at h
      split at h
      · next hop =>
        obtain ⟨applied, happlied, h⟩ := Option.bind_eq_some_iff.mp h
        rw [reduceFrom, if_pos (Nat.le_trans hle hop), happlied, Option.bind_some]
        exact ih applied h
      · cases h
        rfl

/-! ## The tokens of a tree -/

theorem run_append (tokens more : List Token) :
    yard.run valueOf (tokens ++ more) = (yard.run valueOf tokens).bind (·.run valueOf more) :=
  List.foldlM_append

theorem run_cons (token : Token) (tokens : List Token) :
    yard.run valueOf (token :: tokens) = (yard.step valueOf token).bind (·.run valueOf tokens) :=
  List.foldlM_cons

/-- From `base` the tokens lead to stacks on which, once the operators are applied that bind at
least as tightly as `strength`, there is one value more. -/
def Leads (valueOf : String → Option Float) (strength : Nat) (base : Yard) (tokens : List Token)
    (value : Float) : Prop :=
  ∃ yard, base.run valueOf tokens = some yard ∧ yard.reduce strength = some (base.push value)

/-- The tokens of an operand lead to its value under any weaker operator. -/
theorem Leads.weaken {tokens : List Token} (h : Leads valueOf strength base tokens value)
    (hle : least ≤ strength) (hwaits : Waits least base) :
    Leads valueOf least base tokens value := by
  obtain ⟨yard, hrun, hreduce⟩ := h
  refine ⟨yard, hrun, ?_⟩
  rw [reduce_reduce hle hreduce]
  exact reduce_of_waits hwaits

/-- One link of a chain: the operator applies what its left operand has left on the stack and waits
itself; when its right operand is there, it is applied to the two values. -/
theorem Leads.link {tokens more : List Token} (hop : op.strength = strength)
    (hwaits : Waits strength base) (hleft : Leads valueOf strength base tokens left)
    (hright : Leads valueOf (strength + 1) ((base.push left).await (.operator op)) more right) :
    Leads valueOf strength base (tokens ++ .operator op :: more) (op.apply left right) := by
  obtain ⟨yard, hrun, hreduce⟩ := hleft
  obtain ⟨final, hmore, hfinal⟩ := hright
  -- the operator is stronger than none before it, so the left operand is computed first
  have hstep : yard.step valueOf (.operator op) = some ((base.push left).await (.operator op)) := by
    rw [step, hop, hreduce]
    rfl
  refine ⟨final, ?_, ?_⟩
  · rw [run_append, hrun, Option.bind_some, run_cons, hstep, Option.bind_some, hmore]
  · -- behind the right operand the operator is applied, and nothing below it
    rw [reduce_reduce (Nat.le_succ strength) hfinal, reduce_await_operator (Nat.le_of_eq hop.symm)]
    exact reduce_of_waits hwaits

/-- Parentheses: the open one shields what waits below it, and the closing one applies all above. -/
theorem Leads.group {tokens : List Token} (h : Leads valueOf 0 (base.await .paren) tokens value) :
    Leads valueOf 2 base (.openParen :: (tokens ++ [.closeParen])) value := by
  obtain ⟨yard, hrun, hreduce⟩ := h
  have hstep : yard.step valueOf .closeParen = some (base.push value) := by
    rw [step, hreduce]
    rfl
  have hopen : base.step valueOf .openParen = some (base.await .paren) := rfl
  refine ⟨base.push value, ?_, reduce_of_waits (waits_two _)⟩
  rw [run_cons, hopen, Option.bind_some, run_append, hrun, Option.bind_some, run_cons, hstep]
  rfl

end Yard

/-- The strength of the operators that extend a tree of the rule. Nothing extends a primary. -/
def GrammarRule.strength : GrammarRule → Nat
  | primary => 2
  | multiplicative => 1
  | additive | expression => 0

theorem Operator.strength_of_product {op : Operator} (h : op = .mul ∨ op = .div) :
    op.strength = 1 := by
  rcases h with rfl | rfl <;> rfl

theorem Operator.strength_of_sum {op : Operator} (h : op = .add ∨ op = .sub) : op.strength = 0 := by
  rcases h with rfl | rfl <;> rfl

/-- **The pass gives a tree its value**, wherever the operators on the stack wait for it. By
induction on the derivation: an operator of a chain meets the stacks that its left operand leaves,
and its right operand starts from those with the operator on top. -/
theorem Yard.leads_of_derives {context : Context} {rule : GrammarRule} {tree : Formula}
    (h : rule.Derives context.defines tree) :
    ∀ {base : Yard}, Waits rule.strength base →
      Leads context.value? rule.strength base tree.tokens (context.evaluate tree) := by
  induction h with
  | number value =>
    intro base _
    exact ⟨base.push value, rfl, reduce_of_waits (waits_two _)⟩
  | @name name hname =>
    intro base _
    obtain ⟨entry, hentry⟩ := Option.isSome_iff_exists.mp hname
    -- a name in scope has an entry, so the default value does not come into it
    have hvalue : context.value? name = some entry.value := by
      rw [Context.value?, hentry]
      rfl
    have hstep : base.step context.value? (.name name) = some (base.push entry.value) := by
      rw [step, hvalue]
      rfl
    have heval : context.evaluate (.reference name) = entry.value := by
      rw [Context.evaluate, Formula.eval, hvalue]
      rfl
    rw [heval]
    refine ⟨base.push entry.value, ?_, reduce_of_waits (waits_two _)⟩
    rw [Formula.tokens, run_cons, hstep]
    rfl
  | group _ ih =>
    intro base _
    exact (ih (waits_await_paren 0 base)).group
  | factor _ ih =>
    intro base hwaits
    exact (ih (waits_two base)).weaken (Nat.le_succ 1) hwaits
  | @product op left right hop _ _ ihl ihr =>
    intro base hwaits
    exact (ihl hwaits).link (Operator.strength_of_product hop) hwaits (ihr (waits_two _))
  | term _ ih =>
    intro base hwaits
    exact (ih (hwaits.mono (Nat.le_succ 0))).weaken (Nat.le_succ 0) hwaits
  | @sum op left right hop _ _ ihl ihr =>
    intro base hwaits
    have hstrength : op.strength = 0 := Operator.strength_of_sum hop
    have hweaker : op.strength < 1 := Nat.lt_succ_of_le (Nat.le_of_eq hstrength)
    exact (ihl hwaits).link hstrength hwaits (ihr (waits_await_operator hweaker))
  | whole _ ih => exact ih

/-- **Parsing and then evaluating is arithmetic by precedence, from left to right.** If the tokens
have a tree, the pass with two stacks takes them all and gives the value of the tree, by the same
operations on the same doubles. -/
theorem shuntingYard_of_parse (context : Context) (tokens : List Token) (tree : Formula)
    (h : parse context.defines tokens = .ok tree) :
    shuntingYard context.value? tokens = some (context.evaluate tree) := by
  obtain ⟨hderives, rfl, -⟩ := parse_eq_ok_iff.mp h
  have hwaits : Yard.Waits 0 .empty := nofun
  obtain ⟨yard, hrun, hreduce⟩ := Yard.leads_of_derives hderives hwaits
  replace hreduce : yard.reduce 0 = some (Yard.empty.push (context.evaluate tree)) := hreduce
  rw [shuntingYard, hrun, Option.bind_some, hreduce]
  rfl

/-- Operators of one strength in a row, at both levels, and parentheses around a name. -/
theorem difference_shuntingYard :
    let context : Context :=
      ⟨[("A", ⟨.literal 100.0 .parsed, .literal 100.0 .parsed, 100.0, false⟩)]⟩
    let number : Float → Formula := (.literal · .parsed)
    let quotient : Formula := .group (.binary .div (.reference "A") (number 4.0) .parsed)
    let product : Formula :=
      .binary .div (.binary .mul (number 3.0) quotient .parsed) (number 5.0) .parsed
    let tree : Formula :=
      .binary .sub (.binary .sub (number 10.0) (number 2.0) .parsed) product .parsed
    let tokens := tokenize "10 - 2 - 3 * (A / 4) / 5"
    parse context.defines tokens = .ok tree
      ∧ shuntingYard context.value? tokens = some (context.evaluate tree)
      ∧ context.evaluate tree = -7.0 := by
  intro context number quotient product tree tokens
  have hoption : (parse context.defines tokens).toOption = some tree := by decide +kernel
  have hparse : parse context.defines tokens = .ok tree := by
    cases hresult : parse context.defines tokens with
    | error e =>
      rw [hresult] at hoption
      cases hoption
    | ok found =>
      rw [hresult] at hoption
      exact congrArg Except.ok (Option.some.inj hoption)
  exact ⟨hparse, shuntingYard_of_parse context tokens tree hparse, by decide⟩

end FormulaSheet
