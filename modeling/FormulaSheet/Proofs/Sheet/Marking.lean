import FormulaSheet.Proofs.Formula.Printing
import FormulaSheet.Proofs.Sheet.Expanding
import FormulaSheet.Proofs.Sheet.Grouping

/-!
# FormulaSheet — rendering only adds marks

A rendered tree is its text, with braces behind the names that are expanded and, if nodes from buffs
are to be told apart, with brackets around these. Both can be taken away again. This rests on the
names: a row may have any name, with marks in it or without, but the names that a formula can refer to
are words of the lexer.

* `isUnmarked_formatNumber`, `isUnmarked_of_isName` — the leaves of a tree hold no marks.
* `Expansion.withoutBrackets_text` — without its brackets, a text is the plain one.
* `Expansion.balanced_text`, `Expansion.outsideBraces_text` — the braces of a plain text are balanced,
  and outside of them it is that of the tree.
* `Sheet.isUnmarked_references` — the references of an entry are names of the lexer.
* `Sheet.render_adds_marks` — the headline.
-/

namespace FormulaSheet

open Decimal

/-! ## Marks -/

/-- The characters that rendering adds. -/
def marks : List Char := ['[', ']', '\x7b', '\x7d']

def IsUnmarked (text : List Char) : Prop := ∀ c ∈ text, c ∉ marks

/-- The text without its square brackets. -/
def withoutBrackets (text : List Char) : List Char := text.filter fun c => c != '[' && c != ']'

/-- Every brace that is opened is closed, and the other way round. -/
inductive Balanced : List Char → Prop where
  | nil : Balanced []
  | cons {c : Char} {rest : List Char} (hopen : c ≠ '\x7b') (hclose : c ≠ '\x7d')
      (hrest : Balanced rest) : Balanced (c :: rest)
  | braces {inner rest : List Char} (hinner : Balanced inner) (hrest : Balanced rest) :
      Balanced ('\x7b' :: (inner ++ '\x7d' :: rest))

/-- What stands outside of all braces, from inside of `depth` of them on. -/
def outsideBraces (depth : Nat) : List Char → List Char
  | [] => []
  | c :: rest =>
    if c = '\x7b' then outsideBraces (depth + 1) rest
    else if c = '\x7d' then outsideBraces (depth - 1) rest
    else if depth = 0 then c :: outsideBraces 0 rest
    else outsideBraces depth rest

section Marks

variable {text rest : List Char}

theorem IsUnmarked.append (htext : IsUnmarked text) (hrest : IsUnmarked rest) :
    IsUnmarked (text ++ rest) :=
  List.forall_mem_append.mpr ⟨htext, hrest⟩

theorem withoutBrackets_append (text rest : List Char) :
    withoutBrackets (text ++ rest) = withoutBrackets text ++ withoutBrackets rest :=
  List.filter_append ..

theorem IsUnmarked.withoutBrackets_eq (h : IsUnmarked text) : withoutBrackets text = text := by
  refine List.filter_eq_self.mpr fun c hmem => ?_
  have hmark := h c hmem
  simp only [marks, List.mem_cons, not_or] at hmark
  simp [hmark.1, hmark.2.1]

theorem IsUnmarked.ne_braces (h : IsUnmarked text) : ∀ c ∈ text, c ≠ '\x7b' ∧ c ≠ '\x7d' := by
  intro c hmem
  have hmark := h c hmem
  simp only [marks, List.mem_cons, not_or] at hmark
  exact ⟨hmark.2.2.1, hmark.2.2.2.1⟩

theorem Balanced.append (htext : Balanced text) (hrest : Balanced rest) : Balanced (text ++ rest) := by
  induction htext with
  | nil => exact hrest
  | cons hopen hclose _ ih => exact .cons hopen hclose ih
  | braces hinner _ _ ih =>
    rw [List.cons_append, List.append_assoc, List.cons_append]
    exact .braces hinner ih

/-- A text without marks has no braces to balance. -/
theorem IsUnmarked.balanced (h : IsUnmarked text) : Balanced text := by
  induction text with
  | nil => exact .nil
  | cons c text ih =>
    obtain ⟨⟨hopen, hclose⟩, -⟩ := List.forall_mem_cons.mp h.ne_braces
    exact .cons hopen hclose (ih (List.forall_mem_cons.mp h).2)

/-- Inside of braces, a balanced text is passed over. -/
theorem Balanced.outsideBraces_append (h : Balanced text) (depth : Nat) (rest : List Char) :
    outsideBraces (depth + 1) (text ++ rest) = outsideBraces (depth + 1) rest := by
  induction h generalizing depth rest with
  | nil => rfl
  | cons hopen hclose _ ih =>
    rw [List.cons_append, outsideBraces, if_neg hopen, if_neg hclose, if_neg (Nat.succ_ne_zero depth),
      ih]
  | braces _ _ ihinner ihrest =>
    rw [List.cons_append, outsideBraces, if_pos rfl, List.append_assoc, ihinner, List.cons_append,
      outsideBraces, if_neg (by decide), if_pos rfl, Nat.add_sub_cancel, ihrest]

/-- Nothing of a balanced text between braces is left outside them. -/
theorem Balanced.outsideBraces_braces (h : Balanced text) (depth : Nat) (rest : List Char) :
    outsideBraces depth ('\x7b' :: (text ++ '\x7d' :: rest)) = outsideBraces depth rest := by
  rw [outsideBraces, if_pos rfl, h.outsideBraces_append, outsideBraces, if_neg (by decide), if_pos rfl,
    Nat.add_sub_cancel]

/-- Outside of all braces, a text without any is kept. -/
theorem IsUnmarked.outsideBraces_append (h : IsUnmarked text) (rest : List Char) :
    outsideBraces 0 (text ++ rest) = text ++ outsideBraces 0 rest := by
  induction text with
  | nil => rfl
  | cons c text ih =>
    obtain ⟨⟨hopen, hclose⟩, -⟩ := List.forall_mem_cons.mp h.ne_braces
    rw [List.cons_append, outsideBraces, if_neg hopen, if_neg hclose, if_pos rfl,
      ih (List.forall_mem_cons.mp h).2, List.cons_append]

end Marks

/-! ## Words -/

/-- The characters of names, of numbers, and of what stands between them. -/
def isWordChar (c : Char) : Bool := isNameRest c || symbols.contains c || c == '.' || c == ' '

/-- No mark is a character of words, operators or blanks. -/
theorem isUnmarked_of_isWordChar {text : List Char} (h : ∀ c ∈ text, isWordChar c = true) :
    IsUnmarked text := by
  have hall : marks.all (fun c => !isWordChar c) = true := by decide
  intro c hmem hmark
  have hnot := List.all_eq_true.mp hall c hmark
  rw [h c hmem] at hnot
  cases hnot

theorem isUnmarked_of_all {text : List Char} (h : text.all isWordChar = true) : IsUnmarked text :=
  isUnmarked_of_isWordChar (List.all_eq_true.mp h)

theorem isWordChar_of_isNameRest {c : Char} (h : isNameRest c = true) : isWordChar c = true := by
  rw [isWordChar, h]
  rfl

theorem isWordChar_of_isDigit {c : Char} (h : isDigit c = true) : isWordChar c = true :=
  isWordChar_of_isNameRest (by rw [isNameRest, h, Bool.or_true])

theorem isUnmarked_of_isName {name : List Char} (h : IsName name) : IsUnmarked name := by
  obtain ⟨c, letters, hstart, hletters, rfl⟩ := isName_iff.mp h
  have hfirst : isNameRest c = true := by rw [isNameRest, hstart, Bool.true_or]
  refine isUnmarked_of_isWordChar (List.forall_mem_cons.mpr ⟨isWordChar_of_isNameRest hfirst, ?_⟩)
  exact fun d hmem => isWordChar_of_isNameRest (hletters d hmem)

theorem isUnmarked_lexeme {whole fraction : List Char} (hwhole : AllDigits whole)
    (hfraction : ∀ d ∈ fraction, isDigit d = true) :
    IsUnmarked (Piece.number whole fraction).lexeme := by
  refine isUnmarked_of_isWordChar ?_
  have hdigits : ∀ c ∈ whole, isWordChar c = true :=
    fun c hmem => isWordChar_of_isDigit (hwhole.2 c hmem)
  cases fraction with
  | nil => exact hdigits
  | cons d more =>
    refine List.forall_mem_append.mpr ⟨hdigits, List.forall_mem_cons.mpr ⟨rfl, fun c hmem => ?_⟩⟩
    exact isWordChar_of_isDigit (hfraction c hmem)

/-- The text of any double, infinities and NaN too. -/
theorem isUnmarked_formatNumber (value : Float) : IsUnmarked (formatNumber value).toList := by
  have hsign : IsUnmarked (minusSign (Datum.ofFloat value)) := by
    rw [minusSign]
    split
    · exact isUnmarked_of_all rfl
    · exact isUnmarked_of_all rfl
  rw [formatNumber, withMinus, String.toList_ofList]
  refine hsign.append ?_
  -- behind the sign stand a word, or digits with a point
  cases Datum.ofFloat value with
  | nan => exact isUnmarked_of_all rfl
  | infinite negative => exact isUnmarked_of_all rfl
  | finite negative m q =>
    obtain ⟨whole, fraction, hwhole, hfraction, htext⟩ := exists_hundredths (roundedTo 2 m q)
    show IsUnmarked (hundredths (roundedTo 2 m q))
    rw [htext]
    exact isUnmarked_lexeme hwhole hfraction

theorem isUnmarked_operator (op : Operator) : IsUnmarked op.text.toList := by
  rw [Operator.text, String.toList_singleton]
  refine isUnmarked_of_isWordChar (List.forall_mem_singleton.mpr ?_)
  cases op <;> rfl

/-! ## Expansions -/

namespace Expansion

/-- The names that occur in an expansion, with braces or without. -/
def names : Expansion → List String
  | literal .. => []
  | binary _ left right _ => left.names ++ right.names
  | bare name => [name]
  | expanded name body => name :: body.names
  | group inner => inner.names

/-- The tree that was expanded: what stands in braces is left out. -/
def folded : Expansion → Formula
  | literal value origin => .literal value origin
  | binary op left right origin => .binary op left.folded right.folded origin
  | bare name => .reference name
  | expanded name _ => .reference name
  | group inner => .group inner.folded

end Expansion

section Expands

variable {context : Context} {depth : Nat} {seen seen' : List String} {tree : Formula}
  {expansion : Expansion}

/-- An expansion that is folded again is the formula it expands. Induction on the expansion. -/
theorem Expands.folded_eq (h : Expands context depth seen tree expansion seen') :
    expansion.folded = tree := by
  induction h with
  | literal depth seen value origin => rfl
  | binary op origin _ _ ihleft ihright => rw [Expansion.folded, ihleft, ihright]
  | group _ ih => rw [Expansion.folded, ih]
  | bare _ => rfl
  | expanded _ _ _ _ _ => rfl

/-- What holds of the references of a tree and of all entries holds of the names in the expansion. -/
theorem Expands.forall_names {p : String → Prop} (h : Expands context depth seen tree expansion seen')
    (htree : ∀ name ∈ tree.references, p name)
    (hcontext : ∀ name entry, context.get? name = some entry →
      ∀ reference ∈ entry.display.references, p reference) : ∀ name ∈ expansion.names, p name := by
  induction h with
  | literal depth seen value origin => nofun
  | binary op origin _ _ ihleft ihright =>
    obtain ⟨hleft, hright⟩ := List.forall_mem_append.mp htree
    exact List.forall_mem_append.mpr ⟨ihleft hleft, ihright hright⟩
  | group _ ih => exact ih htree
  | bare _ => exact htree
  | expanded hentry _ _ _ ih =>
    -- the name that is opened, and the names of its entry
    exact List.forall_mem_cons.mpr ⟨(List.forall_mem_cons.mp htree).1, ih (hcontext _ _ hentry)⟩

end Expands

theorem BuffMarker.mark_plain (origin : Origin) (text : String) :
    BuffMarker.plain.mark origin text = text := by
  cases origin <;> rfl

/-- The marks of a buff are brackets around its text. -/
theorem withoutBrackets_mark {text : String} (h : IsUnmarked text.toList) (marker : BuffMarker)
    (origin : Origin) : withoutBrackets (marker.mark origin text).toList = text.toList := by
  cases marker with
  | plain => rw [BuffMarker.mark_plain, h.withoutBrackets_eq]
  | brackets =>
    cases origin with
    | parsed => exact h.withoutBrackets_eq
    | buff =>
      -- only the two brackets around it are taken out
      show withoutBrackets ("[" ++ text ++ "]").toList = _
      rw [String.toList_append, String.toList_append, withoutBrackets_append, withoutBrackets_append,
        h.withoutBrackets_eq]
      exact List.append_nil _

namespace Expansion

/-- **Without its brackets**, a text is the plain one. -/
theorem withoutBrackets_text (marker : BuffMarker) {expansion : Expansion}
    (h : ∀ name ∈ expansion.names, IsUnmarked name.toList) :
    withoutBrackets (expansion.text marker).toList = (expansion.text .plain).toList := by
  -- what is printed between the parts has no brackets
  have hblank : withoutBrackets " ".toList = " ".toList := rfl
  have hopening : withoutBrackets "\x7b".toList = "\x7b".toList := rfl
  have hclosing : withoutBrackets "\x7d".toList = "\x7d".toList := rfl
  have hopen : withoutBrackets "(".toList = "(".toList := rfl
  have hclose : withoutBrackets ")".toList = ")".toList := rfl
  induction expansion with
  | literal value origin =>
    rw [text, text, withoutBrackets_mark (isUnmarked_formatNumber value), BuffMarker.mark_plain]
  | binary op left right origin ihleft ihright =>
    obtain ⟨hleft, hright⟩ := List.forall_mem_append.mp h
    simp only [text, String.toList_append, withoutBrackets_append, ihleft hleft, ihright hright, hblank,
      withoutBrackets_mark (isUnmarked_operator op), BuffMarker.mark_plain]
  | bare name => exact (h name List.mem_cons_self).withoutBrackets_eq
  | expanded name body ih =>
    obtain ⟨hname, hbody⟩ := List.forall_mem_cons.mp h
    simp only [text, String.toList_append, withoutBrackets_append, hname.withoutBrackets_eq, ih hbody,
      hopening, hclosing]
  | group inner ih =>
    simp only [text, String.toList_append, withoutBrackets_append, ih h, hopen, hclose]

/-- Every brace that an expansion opens it closes, since no name has braces of its own. -/
theorem balanced_text {expansion : Expansion}
    (h : ∀ name ∈ expansion.names, IsUnmarked name.toList) :
    Balanced (expansion.text .plain).toList := by
  induction expansion with
  | literal value origin =>
    rw [text, BuffMarker.mark_plain]
    exact (isUnmarked_formatNumber value).balanced
  | binary op left right origin ihleft ihright =>
    obtain ⟨hleft, hright⟩ := List.forall_mem_append.mp h
    have hblank : Balanced " ".toList := (isUnmarked_of_all rfl).balanced
    simp only [text, String.toList_append, BuffMarker.mark_plain]
    exact ((((ihleft hleft).append hblank).append (isUnmarked_operator op).balanced).append
      hblank).append (ihright hright)
  | bare name => exact (h name List.mem_cons_self).balanced
  | expanded name body ih =>
    obtain ⟨hname, hbody⟩ := List.forall_mem_cons.mp h
    simp only [text, String.toList_append, List.append_assoc]
    -- the braces around the body are the only ones that a name adds
    exact hname.balanced.append (.braces (ih hbody) .nil)
  | group inner ih =>
    simp only [text, String.toList_append]
    exact ((isUnmarked_of_all rfl).balanced.append (ih h)).append (isUnmarked_of_all rfl).balanced

/-- **Outside of its braces**, a plain text is that of the tree. -/
theorem outsideBraces_text {expansion : Expansion}
    (h : ∀ name ∈ expansion.names, IsUnmarked name.toList) (rest : List Char) :
    outsideBraces 0 ((expansion.text .plain).toList ++ rest)
      = expansion.folded.text.toList ++ outsideBraces 0 rest := by
  -- what is printed between the parts has no braces
  have hblank : IsUnmarked " ".toList := isUnmarked_of_all rfl
  have hopen : IsUnmarked "(".toList := isUnmarked_of_all rfl
  have hclose : IsUnmarked ")".toList := isUnmarked_of_all rfl
  induction expansion generalizing rest with
  | literal value origin =>
    rw [text, BuffMarker.mark_plain, (isUnmarked_formatNumber value).outsideBraces_append]
    rfl
  | binary op left right origin ihleft ihright =>
    obtain ⟨hleft, hright⟩ := List.forall_mem_append.mp h
    simp only [text, folded, Formula.text, String.toList_append, BuffMarker.mark_plain,
      List.append_assoc, ihleft hleft, ihright hright, hblank.outsideBraces_append,
      (isUnmarked_operator op).outsideBraces_append]
  | bare name => exact (h name List.mem_cons_self).outsideBraces_append rest
  | expanded name body ih =>
    obtain ⟨hname, hbody⟩ := List.forall_mem_cons.mp h
    simp only [text, String.toList_append, List.append_assoc, hname.outsideBraces_append]
    exact congrArg (name.toList ++ ·) ((balanced_text hbody).outsideBraces_braces 0 rest)
  | group inner ih =>
    simp only [text, folded, Formula.text, String.toList_append, List.append_assoc, ih h,
      hopen.outsideBraces_append, hclose.outsideBraces_append]

end Expansion

/-! ## Entries -/

theorem Totals.references_display (totals : Totals) (tree : Formula) :
    (totals.display tree).references = tree.references := by
  -- the amounts of buffs are numbers
  have hbuffed : ∀ (left : Formula) (op : Operator) (amount : Float),
      (left.buffed op amount).references = left.references := fun _ _ _ => List.append_nil _
  have hfactor : tree.asFactor.references = tree.references := by
    rw [Formula.asFactor]
    split <;> rfl
  have hmultiplier : (totals.showMultiplier tree).references = tree.references := by
    rw [showMultiplier]
    split
    · rw [hbuffed, hfactor]
    · rfl
  rw [display, showFlat]
  split
  · rw [hbuffed, hmultiplier]
  · exact hmultiplier

variable {sheet : Sheet} {active : ActivationSet} {name : String} {entry : Entry}

/-- The tree on display of an entry refers to what its formula refers to. -/
theorem Sheet.references_display (h : (sheet.evaluate active).context.get? name = some entry) :
    entry.display.references = entry.base.references := by
  rw [Sheet.display_eq h]
  cases (Aggregation.collect sheet.buffs active)[name]? with
  | none => rfl
  | some totals => exact totals.references_display entry.base

/-- The references of an entry are names of the lexer. -/
theorem Sheet.isUnmarked_references (h : (sheet.evaluate active).context.get? name = some entry) :
    ∀ reference ∈ entry.display.references, IsUnmarked reference.toList := by
  intro reference hmem
  obtain ⟨above, result, below, hresults, -, hentry⟩ := Sheet.exists_row_of_get? h
  have hparse := (Sheet.sees_of_results hresults).base entry hentry
  obtain ⟨-, htokens, -⟩ := parse_eq_ok_iff.mp hparse
  rw [Sheet.references_display h, Formula.mem_references_iff, htokens] at hmem
  exact isUnmarked_of_isName (isName_of_mem_tokenize hmem)

/-- **Rendering only adds marks.** For every entry, the text with brackets is the plain one once these
are deleted; the braces of the plain text are balanced; and what stands outside of them is the text of
the tree on display. -/
theorem Sheet.render_adds_marks (sheet : Sheet) (active : ActivationSet) (name : String) (entry : Entry)
    (h : (sheet.evaluate active).context.get? name = some entry) :
    let context := (sheet.evaluate active).context
    let plain := (entry.display.render context .plain).toList
    withoutBrackets (entry.display.render context .brackets).toList = plain
      ∧ Balanced plain
      ∧ outsideBraces 0 plain = entry.display.text.toList := by
  intro context plain
  obtain ⟨seen, hexpands⟩ := entry.display.expands_expand context
  -- names are made by the lexer, so they have no marks of their own
  have hnames : ∀ name ∈ (entry.display.expand context).names, IsUnmarked name.toList :=
    hexpands.forall_names (Sheet.isUnmarked_references h) fun _ _ => Sheet.isUnmarked_references
  have houtside := Expansion.outsideBraces_text hnames []
  rw [List.append_nil, hexpands.folded_eq, outsideBraces, List.append_nil] at houtside
  exact ⟨Expansion.withoutBrackets_text .brackets hnames, Expansion.balanced_text hnames, houtside⟩

/-- A `Base` that a buff scales, a row with a brace in its name, and a `Total` that a buff raises. -/
def annotated : Sheet where
  rows := [⟨"r1", "Base", "100"⟩, ⟨"r2", "Base\x7b", "Base"⟩, ⟨"r3", "Total", "Base * 2 + Base"⟩]
  buffs := [⟨"b", "Blessing",
    [⟨"m1", "Base", .multiplicative, 0.25⟩, ⟨"m2", "Total", .flat, 5.0⟩]⟩]

theorem annotated_adds_marks :
    let active : ActivationSet := .ofList ["b"]
    let context := (annotated.evaluate active).context
    let product : Formula := .binary .mul (.reference "Base") (.literal 2.0 .parsed) .parsed
    let sum : Formula := .binary .add product (.reference "Base") .parsed
    let total : Entry := ⟨sum, sum.buffed .add 5.0, 380.0, true⟩
    let plain := (total.display.render context .plain).toList
    context.get? "Total" = some total
      ∧ total.display.render context .brackets = "Base\x7b100 [*] [1.25]\x7d * 2 + Base [+] [5]"
      ∧ withoutBrackets (total.display.render context .brackets).toList = plain
      ∧ Balanced plain
      ∧ outsideBraces 0 plain = total.display.text.toList := by
  intro active context product sum total plain
  have hget : context.get? "Total" = some total := by decide +kernel
  exact ⟨hget, by decide +kernel, annotated.render_adds_marks active "Total" total hget⟩

end FormulaSheet
