import FormulaSheet.Formula.Grammar

/-!
# FormulaSheet — the trees of the grammar

What a rule of the grammar may read, said without reading anything. A tree is *derived* by
a rule if its shape is one that the rule allows (`GrammarRule.Derives`), and it is written
by its tokens from left to right (`Formula.tokens`). Derived trees are canonical: chains lean
to the left, a weaker operator stands under a tighter one only inside of parentheses, and no
node comes from a buff.

* `Formula.tokens_ne_nil` — a tree is written with at least one token.
* `Formula.ne_of_mem_tokens` — neither `^` nor white space is among them.
* `Formula.eval_congr` — the value depends on the values of the references only.
* `GrammarRule.derives_iff` — the scope bears on a derivation through the references only, so a
  tree is derived in every scope that defines the names it refers to.
-/

namespace FormulaSheet

/-! ## Trees as they are written

Reading a tree off from left to right, and the names that it refers to. Both follow the
constructors. -/

namespace Formula

/-- The tokens of a tree from left to right. -/
def tokens : Formula → List Token
  | literal value _ => [.number value]
  | binary op left right _ => left.tokens ++ .operator op :: right.tokens
  | reference name => [.name name]
  | group inner => .openParen :: (inner.tokens ++ [.closeParen])

/-- The names that a tree refers to, from left to right. -/
def references : Formula → List String
  | literal .. => []
  | binary _ left right _ => left.references ++ right.references
  | reference name => [name]
  | group inner => inner.references

theorem tokens_ne_nil (tree : Formula) : tree.tokens ≠ [] := by
  cases tree <;> simp [tokens]

/-- No tree is written with a caret or a blank. -/
theorem ne_of_mem_tokens {tree : Formula} {token : Token} (h : token ∈ tree.tokens) :
    token ≠ .caret ∧ token ≠ .blank := by
  induction tree with
  | literal value origin =>
    rw [List.mem_singleton.mp h]
    exact ⟨nofun, nofun⟩
  | reference name =>
    rw [List.mem_singleton.mp h]
    exact ⟨nofun, nofun⟩
  | group inner ih =>
    simp only [tokens, List.mem_cons, List.mem_append, List.not_mem_nil, or_false] at h
    rcases h with rfl | h | rfl
    · exact ⟨nofun, nofun⟩
    · exact ih h
    · exact ⟨nofun, nofun⟩
  | binary op left right origin ihl ihr =>
    simp only [tokens, List.mem_cons, List.mem_append] at h
    rcases h with h | rfl | h
    · exact ihl h
    · exact ⟨nofun, nofun⟩
    · exact ihr h

/-- Two assignments that agree on the references of a tree give it the same value. -/
theorem eval_congr {tree : Formula} {f g : String → Float}
    (h : ∀ name ∈ tree.references, f name = g name) : tree.eval f = tree.eval g := by
  induction tree with
  | literal value origin => rfl
  | reference name => exact h name (List.mem_singleton.mpr rfl)
  | group inner ih => exact ih h
  | binary op left right origin ihl ihr =>
    have hl := ihl fun name hm => h name (List.mem_append_left _ hm)
    have hr := ihr fun name hm => h name (List.mem_append_right _ hm)
    rw [eval, eval, hl, hr]

end Formula

/-! ## Derivations

One constructor for each way in which a rule of the grammar goes on. The two chains are
left recursive here, as the grammar of a left associative operator is. -/

/-- The tree is one that a rule of the grammar allows, with references to names of the scope
only. -/
inductive GrammarRule.Derives (scope : Scope) : GrammarRule → Formula → Prop where
  | number (value : Float) : Derives scope .primary (.literal value .parsed)
  | name {name : String} (hname : scope name = true) : Derives scope .primary (.reference name)
  | group {inner : Formula} (hinner : Derives scope .expression inner) :
      Derives scope .primary (.group inner)
  | factor {tree : Formula} (htree : Derives scope .primary tree) :
      Derives scope .multiplicative tree
  | product {op : Operator} {left right : Formula} (hop : op = .mul ∨ op = .div)
      (hleft : Derives scope .multiplicative left) (hright : Derives scope .primary right) :
      Derives scope .multiplicative (.binary op left right .parsed)
  | term {tree : Formula} (htree : Derives scope .multiplicative tree) :
      Derives scope .additive tree
  | sum {op : Operator} {left right : Formula} (hop : op = .add ∨ op = .sub)
      (hleft : Derives scope .additive left) (hright : Derives scope .multiplicative right) :
      Derives scope .additive (.binary op left right .parsed)
  | whole {tree : Formula} (htree : Derives scope .additive tree) :
      Derives scope .expression tree

namespace GrammarRule.Derives

variable {scope : Scope} {rule : GrammarRule} {tree : Formula}

/-- The names of a formula that is derived are in scope. -/
theorem defines (h : rule.Derives scope tree) : ∀ name ∈ tree.references, scope name = true := by
  induction h with
  | number value => nofun
  | name hname =>
    intro other hmem
    rw [List.mem_singleton.mp hmem]
    exact hname
  | group _ ih => exact ih
  | factor _ ih => exact ih
  | term _ ih => exact ih
  | whole _ ih => exact ih
  | product _ _ _ ihl ihr =>
    intro other hmem
    exact (List.mem_append.mp hmem).elim (ihl other) (ihr other)
  | sum _ _ _ ihl ihr =>
    intro other hmem
    exact (List.mem_append.mp hmem).elim (ihl other) (ihr other)

/-- A derivation holds in every scope that has the references of the tree. -/
theorem inScope (h : rule.Derives scope tree) {other : Scope}
    (hother : ∀ name ∈ tree.references, other name = true) : rule.Derives other tree := by
  induction h with
  | number value => exact .number value
  | name _ => exact .name (hother _ (List.mem_singleton.mpr rfl))
  | group _ ih => exact .group (ih hother)
  | factor _ ih => exact .factor (ih hother)
  | term _ ih => exact .term (ih hother)
  | whole _ ih => exact .whole (ih hother)
  | product hop _ _ ihl ihr =>
    exact .product hop (ihl fun name hm => hother name (List.mem_append_left _ hm))
      (ihr fun name hm => hother name (List.mem_append_right _ hm))
  | sum hop _ _ ihl ihr =>
    exact .sum hop (ihl fun name hm => hother name (List.mem_append_left _ hm))
      (ihr fun name hm => hother name (List.mem_append_right _ hm))

end GrammarRule.Derives

/-- The scope bears on a derivation through the references of the tree only. -/
theorem GrammarRule.derives_iff {rule : GrammarRule} {scope : Scope} {tree : Formula} :
    rule.Derives scope tree ↔
      rule.Derives (fun _ => true) tree ∧ ∀ name ∈ tree.references, scope name = true :=
  ⟨fun h => ⟨h.inScope fun _ _ => rfl, h.defines⟩, fun h => h.1.inScope h.2⟩

end FormulaSheet
