import FormulaSheet.Formula.Grammar
import FormulaSheet.Formula.Lexer

/-!
# FormulaSheet — the names known so far

While a sheet is evaluated, the context holds an entry for every name that a row has
evaluated under. A name keeps the place at which it first appeared, and the entry of the
last row that had it (`get?_insert`, `names_insert`).
-/

namespace FormulaSheet

/-- The outcome of a row that evaluated. -/
structure Entry where
  /-- The tree of the formula as it was written. -/
  base : Formula
  /-- The tree to show, with what active buffs put around it. -/
  display : Formula
  /-- The value after all modifiers. -/
  value : Float
  /-- Does an active modifier target the row? -/
  buffed : Bool
deriving DecidableEq

/-- Entries by name, in the order in which the names first appeared. -/
structure Context where
  entries : List (String × Entry)
deriving DecidableEq

namespace Context

def empty : Context := ⟨[]⟩

def get? (context : Context) (name : String) : Option Entry :=
  context.entries.lookup name

def value? (context : Context) (name : String) : Option Float :=
  (context.get? name).map Entry.value

/-- Is the name known? This is the scope against which a formula is parsed. -/
def defines (context : Context) : Scope :=
  fun name => (context.get? name).isSome

def names (context : Context) : List String :=
  context.entries.map Prod.fst

/-- Puts an entry at the place of its name, or at the end if the name is new. -/
def insertEntry (name : String) (entry : Entry) : List (String × Entry) → List (String × Entry)
  | [] => [(name, entry)]
  | (other, old) :: rest =>
    if other == name then (name, entry) :: rest
    else (other, old) :: insertEntry name entry rest

def insert (context : Context) (name : String) (entry : Entry) : Context :=
  ⟨insertEntry name entry context.entries⟩

/-- The value of a formula; a name that is not known counts as `0`. -/
def evaluate (context : Context) (tree : Formula) : Float :=
  tree.eval fun name => (context.value? name).getD 0.0

/-- The tree of a source text in which every known name may occur. -/
def parse (context : Context) (source : String) : Except ParseError Formula :=
  FormulaSheet.parse context.defines (tokenize source)

/-! ## Insertion -/

theorem lookup_insertEntry (name other : String) (entry : Entry) (entries : List (String × Entry)) :
    (insertEntry name entry entries).lookup other
      = if other = name then some entry else entries.lookup other := by
  induction entries with
  | nil =>
    rw [insertEntry, List.lookup_cons]
    by_cases h : other = name
    · simp [h]
    · simp [h, beq_false_of_ne h]
  | cons head rest ih =>
    obtain ⟨known, old⟩ := head
    rw [insertEntry]
    by_cases hk : known = name
    · -- the entry is replaced at its place
      subst hk
      by_cases h : other = known
      · simp [h]
      · simp [List.lookup_cons, h, beq_false_of_ne h]
    · by_cases ho : other = known
      · subst ho
        simp [hk]
      · simp [List.lookup_cons, hk, beq_false_of_ne ho, ih]

/-- A recorded entry is found under its name, and every other name stays as it was. -/
theorem get?_insert (context : Context) (name other : String) (entry : Entry) :
    (context.insert name entry).get? other = if other = name then some entry else context.get? other :=
  lookup_insertEntry name other entry context.entries

/-- An insertion defines its name besides those that were defined. -/
theorem defines_insert (context : Context) (name other : String) (entry : Entry) :
    (context.insert name entry).defines other = (other == name || context.defines other) := by
  rw [defines, get?_insert]
  by_cases h : other = name <;> simp [h, defines]

/-- A name that is inserted again keeps its place, and a new one comes last. -/
theorem map_fst_insertEntry (name : String) (entry : Entry) (entries : List (String × Entry)) :
    (insertEntry name entry entries).map Prod.fst
      = if name ∈ entries.map Prod.fst then entries.map Prod.fst
        else entries.map Prod.fst ++ [name] := by
  induction entries with
  | nil => rfl
  | cons head rest ih =>
    obtain ⟨known, old⟩ := head
    rw [insertEntry]
    by_cases hk : known = name
    · subst hk; simp
    · have hne : ¬ name = known := fun h => hk h.symm
      simp only [beq_iff_eq, hk, if_false, List.map_cons, ih, List.mem_cons, hne, false_or]
      by_cases hm : name ∈ rest.map Prod.fst
      · rw [if_pos hm, if_pos hm]
      · rw [if_neg hm, if_neg hm]; rfl

/-- The names in order: a new one comes last, and a known one stays at its place. -/
theorem names_insert (context : Context) (name : String) (entry : Entry) :
    (context.insert name entry).names
      = if name ∈ context.names then context.names else context.names ++ [name] :=
  map_fst_insertEntry name entry context.entries

end Context

end FormulaSheet
