import FormulaSheet.Json.Printer
import FormulaSheet.Json.Record
import FormulaSheet.Proofs.Json.Numerals

/-!
# FormulaSheet — reading what is written

A reader restores a value if it takes the text of the value, laid out over lines, from behind any
blanks and in front of anything but more of a number (`Takes`), at every depth and with room for the
containers that the value opens (`Restores`). Each of the readers restores what the printer makes of
a value of its kind:

* `restores_text`, `restores_null`, `restores_string`, `restores_number`, `takes_word32` — what has
  no parts.
* `Restores.listMap`, `Restores.list` — a list, by what its item reader makes of the items.
* `Fills`, `Restores.record` — a record, if the readers of its fields restore the members.
-/

namespace FormulaSheet.Json

variable {α β δ : Type}

/-! ## Single steps -/

namespace Reader

variable {cs rest blanks : List Char} {c : Char}

theorem bind_of_ok {first : Reader α} {second : α → Reader β} {x : α}
    (h : first cs = .ok (x, rest)) : (first >>= second) cs = second x rest := by
  show (first cs >>= fun result => second result.1 result.2) = _
  rw [h]
  rfl

theorem map_of_ok {reader : Reader α} {x : α} (f : α → β) (h : reader cs = .ok (x, rest)) :
    (f <$> reader) cs = .ok (f x, rest) := by
  show (reader cs >>= fun result => pure (f result.1, result.2)) = _
  rw [h]
  rfl

theorem drop_cons : drop (c :: rest) = .ok ((), rest) := rfl

theorem length_eq : Reader.length cs = .ok (cs.length, cs) := rfl

/-- The text is blank. -/
def Blank (cs : List Char) : Prop := ∀ c ∈ cs, isJsonBlank c = true

theorem blank_nil : Blank [] := List.forall_mem_nil _

theorem blank_space : Blank [' '] := by
  intro b hb
  obtain rfl := List.mem_singleton.mp hb
  rfl

/-- A new line is blank, with the spaces that indent it. -/
theorem blank_newLine (depth : Nat) : Blank (newLine depth) := by
  intro b hb
  rw [newLine, List.mem_cons] at hb
  rcases hb with rfl | hb
  · rfl
  · obtain rfl := List.eq_of_mem_replicate hb
    rfl

/-- Behind blanks a reader sees the first character that is not blank, and has skipped the
blanks. -/
theorem peek?_blanks (hblanks : Blank blanks) (hc : isJsonBlank c = false) :
    peek? (blanks ++ c :: rest) = .ok (some c, c :: rest) := by
  have hdrop : (blanks ++ c :: rest).dropWhile isJsonBlank = c :: rest := by
    rw [List.dropWhile_append_of_pos hblanks, List.dropWhile_cons_of_neg (by rw [hc]; exact nofun)]
  show Except.ok (((blanks ++ c :: rest).dropWhile isJsonBlank).head?,
    (blanks ++ c :: rest).dropWhile isJsonBlank) = _
  rw [hdrop]
  rfl

/-! ### Punctuation -/

/-- What stands between two items, and nothing before the first. -/
def comma (isFirst : Bool) : List Char := if isFirst then [] else [',']

/-- At the bracket that closes a list no item is due, the first or a further one. -/
theorem another?_close {isFirst : Bool} (hblanks : Blank blanks) :
    another? isFirst (blanks ++ ']' :: rest) = .ok (false, ']' :: rest) := by
  rw [another?, bind_of_ok (peek?_blanks hblanks rfl)]
  rfl

/-- An item is due where its first character stands, behind the comma that sets it off from the one
before. -/
theorem another?_item {isFirst : Bool} (hblanks : Blank blanks)
    (hc : isJsonBlank c = false) (hclose : c ≠ ']') :
    another? isFirst (comma isFirst ++ (blanks ++ c :: rest)) = .ok (true, c :: rest) := by
  cases isFirst with
  | true =>
    -- the first item has no comma in front
    show another? true (blanks ++ c :: rest) = _
    rw [another?, bind_of_ok (peek?_blanks hblanks hc)]
    dsimp only
    rw [if_neg hclose]
    rfl
  | false =>
    -- a further one has its comma there, and blanks behind it
    show another? false ([] ++ ',' :: (blanks ++ c :: rest)) = _
    rw [another?, bind_of_ok (peek?_blanks blank_nil rfl)]
    simp only [Char.reduceEq, reduceIte, Bool.false_eq_true]
    rw [bind_of_ok drop_cons, bind_of_ok (peek?_blanks hblanks hc)]
    dsimp only
    rw [if_neg hclose]
    rfl

/-- The inside of a quoted text reads as the text: each escape is undone by the reader of
strings. -/
theorem body_quoted (s : String) :
    body (s.toList.flatMap escapeChar ++ '"' :: rest) = .ok (s, rest) := by
  show readBody [] _ = _
  rw [readBody_flatMap]
  simp

theorem quote_append (s : String) (rest : List Char) :
    quote s ++ rest = '"' :: (s.toList.flatMap escapeChar ++ '"' :: rest) := by
  rw [quote, List.cons_append, List.append_assoc]
  rfl

theorem key?_close {isFirst : Bool} (hblanks : Blank blanks) :
    key? isFirst (blanks ++ '\x7d' :: rest) = .ok (none, '\x7d' :: rest) := by
  rw [key?, bind_of_ok (peek?_blanks hblanks rfl)]
  rfl

/-- The key behind its opening mark. -/
theorem key?_mark {isFirst : Bool} (hblanks : Blank blanks) {key : String} {marked : List Char}
    (hbody : body marked = .ok (key, rest)) :
    key? isFirst (comma isFirst ++ (blanks ++ '"' :: marked)) = .ok (some key, rest) := by
  cases isFirst with
  | true =>
    -- the first key has no comma in front
    show key? true (blanks ++ '"' :: _) = _
    rw [key?, bind_of_ok (peek?_blanks hblanks rfl)]
    simp only [Char.reduceEq, reduceIte]
    rw [bind_of_ok drop_cons, bind_of_ok hbody]
    rfl
  | false =>
    -- a further one has its comma there, and blanks behind it
    show key? false ([] ++ ',' :: (blanks ++ '"' :: _)) = _
    rw [key?, bind_of_ok (peek?_blanks blank_nil rfl)]
    simp only [Char.reduceEq, reduceIte, Bool.false_eq_true]
    rw [bind_of_ok drop_cons, bind_of_ok (peek?_blanks hblanks rfl)]
    simp only [reduceIte]
    rw [bind_of_ok drop_cons, bind_of_ok hbody]
    rfl

/-- A written key is found again, behind the comma and the blanks in front of it. -/
theorem key?_quote {isFirst : Bool} (hblanks : Blank blanks) (key : String) :
    key? isFirst (comma isFirst ++ (blanks ++ (quote key ++ rest))) = .ok (some key, rest) := by
  rw [quote_append]
  exact key?_mark hblanks (body_quoted key)

theorem colon_cons : colon (':' :: rest) = .ok ((), rest) := by
  show colon ([] ++ ':' :: rest) = _
  rw [colon, bind_of_ok (peek?_blanks blank_nil rfl)]
  rfl

end Reader

/-! ## Restoring -/

open Reader

/-- The text starts as an item does: neither with a blank nor with the end of an array. -/
def StartsItem (text : List Char) : Prop :=
  ∃ c more, text = c :: more ∧ isJsonBlank c = false ∧ c ≠ ']'

/-- The reader takes the text of an item wherever one may stand: behind blanks and in front of a
text that delimits numbers. -/
structure Takes (reader : Reader α) (text : List Char) (x : α) : Prop where
  starts : StartsItem text
  reads : ∀ blanks rest, Blank blanks → Delimits rest →
    reader (blanks ++ (text ++ rest)) = .ok (x, rest)

/-- The reader restores a value, at every depth and with room for so many levels of containers. -/
def Restores (levels : Nat) (reader : Nat → Reader α) (value : Value) (x : α) : Prop :=
  ∀ depth room, levels ≤ room → Takes (reader room) (value.pretty depth) x

theorem Takes.map {reader : Reader α} {text : List Char} {x : α} (h : Takes reader text x)
    (f : α → β) : Takes (f <$> reader) text (f x) :=
  ⟨h.starts, fun blanks rest hblanks hrest => map_of_ok f (h.reads blanks rest hblanks hrest)⟩

theorem Restores.map {levels : Nat} {reader : Nat → Reader α} {value : Value} {x : α}
    (h : Restores levels reader value x) (f : α → β) :
    Restores levels (fun room => f <$> reader room) value (f x) :=
  fun depth room hroom => (h depth room hroom).map f

theorem Restores.mono {levels more : Nat} {reader : Nat → Reader α} {value : Value} {x : α}
    (h : Restores levels reader value x) (hle : levels ≤ more) : Restores more reader value x :=
  fun depth room hroom => h depth room (Nat.le_trans hle hroom)

/-- A value that takes no room is read as its text is. -/
theorem Restores.of_takes {reader : Nat → Reader α} {value : Value} {text : List Char} {x : α}
    (htext : ∀ depth, value.pretty depth = text) (h : ∀ room, Takes (reader room) text x) :
    Restores 0 reader value x := by
  intro depth room _
  rw [htext]
  exact h room

/-! ## Strings and numbers -/

theorem text_quote {blanks rest : List Char} (hblanks : Blank blanks) (s : String) :
    Reader.text (blanks ++ (quote s ++ rest)) = .ok (s, rest) := by
  rw [quote_append, Reader.text, bind_of_ok (peek?_blanks hblanks rfl)]
  exact body_quoted s

/-- A quoted text starts with a mark, so it is neither blank nor a closing bracket. -/
theorem startsItem_quote (s : String) : StartsItem (quote s) :=
  ⟨'"', _, rfl, rfl, by decide⟩

/-- The reader of texts takes a quoted text wherever it stands, behind blanks and in front of
anything. -/
theorem takes_text (s : String) : Takes Reader.text (quote s) s :=
  ⟨startsItem_quote s, fun _ _ hblanks _ => text_quote hblanks s⟩

/-- A quoted text is not mistaken for the word `null` where the word is allowed. -/
theorem takes_optional_text (s : String) :
    Takes (Reader.optional Reader.text) (quote s) (some s) := by
  refine ⟨startsItem_quote s, fun blanks rest hblanks _ => ?_⟩
  have htext : Reader.text ([] ++ (quote s ++ rest)) = .ok (s, rest) := text_quote blank_nil s
  rw [List.nil_append, quote_append] at htext
  rw [quote_append, Reader.optional, bind_of_ok (peek?_blanks hblanks rfl)]
  simp only [Char.reduceEq, reduceIte]
  show (Reader.text >>= _) _ = _
  rw [bind_of_ok htext]
  rfl

/-- The reader of scalars takes a quoted text as a string, by its first character. -/
theorem takes_scalar_string (s : String) : Takes scalar (quote s) (.string s) := by
  refine ⟨startsItem_quote s, fun blanks rest hblanks _ => ?_⟩
  rw [quote_append, scalar, bind_of_ok (peek?_blanks hblanks rfl)]
  simp only [Char.reduceEq, reduceIte]
  rw [bind_of_ok drop_cons, bind_of_ok (body_quoted s)]
  rfl

theorem restores_text (s : String) : Restores 0 (fun _ => Reader.text) (.string s) s :=
  .of_takes (fun _ => rfl) fun _ => takes_text s

theorem restores_optional_text (s : String) :
    Restores 0 (fun _ => Reader.optional Reader.text) (.string s) (some s) :=
  .of_takes (fun _ => rfl) fun _ => takes_optional_text s

/-- What a number starts with starts nothing else. -/
theorem ne_of_startsNumber {c : Char} (h : startsNumber c = true) :
    isJsonBlank c = false ∧ ∀ d ∈ [']', '[', '\x7b', '"', 'n', 't', 'f'], c ≠ d := by
  constructor
  · rw [Bool.eq_false_iff]
    intro hblank
    simp only [isJsonBlank, Bool.or_eq_true, beq_iff_eq] at hblank
    rcases hblank with ((rfl | rfl) | rfl) | rfl <;> exact absurd h (by decide)
  · rintro d hd rfl
    revert h
    simp only [List.mem_cons, List.not_mem_nil, or_false] at hd
    rcases hd with rfl | rfl | rfl | rfl | rfl | rfl | rfl <;> decide

theorem word_append (expected rest : List Char) :
    word expected (expected ++ rest) = .ok ((), rest) := by
  induction expected with
  | nil => rfl
  | cons c more ih =>
    rw [List.cons_append, word, bind_of_ok (x := c :: (more ++ rest)) rfl]
    simp only [List.head?_cons, reduceIte]
    rw [bind_of_ok drop_cons, ih]

theorem takes_scalar_null : Takes scalar "null".toList .null := by
  refine ⟨⟨'n', _, rfl, rfl, by decide⟩, fun blanks rest hblanks _ => ?_⟩
  have hword : word "null".toList ('n' :: ("ull".toList ++ rest)) = .ok ((), rest) :=
    word_append "null".toList rest
  show scalar (blanks ++ 'n' :: ("ull".toList ++ rest)) = _
  rw [scalar, bind_of_ok (peek?_blanks hblanks rfl)]
  simp only [reduceIte]
  rw [bind_of_ok hword]
  rfl

section Numbers

variable {text : List Char} {n : Number} (h : readNumber text = .ok (n, []))
include h

theorem startsItem_number : StartsItem text := by
  obtain ⟨c, more, htext, hc⟩ := startsNumber_of_readNumber h
  obtain ⟨hblank, hne⟩ := ne_of_startsNumber hc
  exact ⟨c, more, htext, hblank, hne _ (by simp)⟩

/-- A number is taken as a scalar, since no other scalar starts as it does, and it ends where a
delimiter stands. -/
theorem takes_scalar_number : Takes scalar text (.number n) := by
  refine ⟨startsItem_number h, fun blanks rest hblanks hrest => ?_⟩
  obtain ⟨c, more, rfl, hc⟩ := startsNumber_of_readNumber h
  obtain ⟨hblank, hne⟩ := ne_of_startsNumber hc
  have hnumber : number (c :: more ++ rest) = .ok (n, rest) := extends_readNumber h hrest
  rw [List.cons_append] at hnumber ⊢
  rw [scalar, bind_of_ok (peek?_blanks hblanks hblank)]
  dsimp only
  rw [if_neg (hne 'n' (by simp)), if_neg (hne 't' (by simp)), if_neg (hne 'f' (by simp)),
    if_neg (hne '"' (by simp)), if_pos hc, bind_of_ok hnumber]
  rfl

end Numbers

/-- A whole number of 32 bits is taken as a word. -/
theorem takes_word32 {text : List Char} {v : UInt32}
    (h : readNumber text = .ok (.integer v.toNat, [])) : Takes word32 text v := by
  refine ⟨startsItem_number h, fun blanks rest hblanks hrest => ?_⟩
  obtain ⟨c, more, rfl, hc⟩ := startsNumber_of_readNumber h
  obtain ⟨hblank, -⟩ := ne_of_startsNumber hc
  -- the number is read in front of what follows, which ends it
  have hnumber : number (c :: more ++ rest) = .ok (.integer v.toNat, rest) :=
    extends_readNumber h hrest
  -- a word is in its own range
  have hrange : (0 : Int) ≤ v.toNat ∧ (v.toNat : Int) < UInt32.size := by
    have := v.toNat_lt_size
    omega
  rw [List.cons_append] at hnumber ⊢
  rw [word32, bind_of_ok (peek?_blanks hblanks hblank)]
  dsimp only
  rw [if_pos hc, bind_of_ok hnumber]
  dsimp only
  rw [if_pos hrange, Int.toNat_natCast, UInt32.ofNat_toNat]
  rfl

/-- A value without containers is taken by the reader of all values. -/
theorem Takes.value {c : Char} {more : List Char} {v : Value} (h : Takes scalar (c :: more) v)
    (hsquare : c ≠ '[') (hcurly : c ≠ '\x7b') (room : Nat) :
    Takes (Reader.value room) (c :: more) v := by
  refine ⟨h.starts, fun blanks rest hblanks hrest => ?_⟩
  cases room with
  | zero => exact h.reads blanks rest hblanks hrest
  | succ room =>
    -- with room for a list or a record, the first character rules them out
    obtain ⟨_, _, ⟨⟩, hblank, -⟩ := h.starts
    have hscalar := h.reads [] rest blank_nil hrest
    rw [List.nil_append] at hscalar
    rw [List.cons_append] at hscalar ⊢
    rw [Reader.value, bind_of_ok (peek?_blanks hblanks hblank)]
    dsimp only
    rw [if_neg hsquare, if_neg hcurly]
    exact hscalar

theorem restores_null : Restores 0 Reader.value .null .null :=
  .of_takes (fun _ => rfl) (takes_scalar_null.value (by decide) (by decide))

theorem restores_string (s : String) : Restores 0 Reader.value (.string s) (.string s) :=
  .of_takes (fun _ => rfl) ((takes_scalar_string s).value (by decide) (by decide))

/-- A number is restored as the one that its text reads as, which may be another one. -/
theorem restores_number {n m : Number} (h : readNumber n.text = .ok (m, [])) :
    Restores 0 Reader.value (.number n) (.number m) := by
  have hpretty : ∀ depth, (Value.number n).pretty depth = n.text := fun _ => rfl
  refine .of_takes hpretty fun room => ?_
  have htakes := takes_scalar_number h
  obtain ⟨c, more, htext, hc⟩ := startsNumber_of_readNumber h
  obtain ⟨-, hne⟩ := ne_of_startsNumber hc
  rw [htext] at htakes ⊢
  exact htakes.value (hne _ (by simp)) (hne _ (by simp)) room

/-! ## Lists -/

section Lists

variable {toJson : α → Value} {depth : Nat}

theorem delimits_newLine (depth : Nat) (rest : List Char) : Delimits (newLine depth ++ rest) :=
  delimits_cons _ (by decide)

/-- Behind the last item a new line and the closing bracket are written. -/
theorem prettyItems_nil_append (isFirst : Bool) (rest : List Char) :
    Value.prettyItems depth isFirst [] ++ rest = newLine depth ++ ']' :: rest := by
  rw [Value.prettyItems, List.append_assoc]
  rfl

/-- An item is written behind its comma, on a line of its own, and the further items behind it. -/
theorem prettyItems_cons_append (isFirst : Bool) (value : Value) (values : List Value)
    (rest : List Char) :
    Value.prettyItems depth isFirst (value :: values) ++ rest
      = comma isFirst ++ (newLine (depth + 1) ++ (value.pretty (depth + 1)
        ++ (Value.prettyItems depth false values ++ rest))) := by
  rw [Value.prettyItems, List.append_assoc, List.append_assoc, List.append_assoc]
  rfl

/-- What is written behind an item ends a number: a comma, or the line of the closing bracket. -/
theorem delimits_prettyItems (values : List Value) (rest : List Char) :
    Delimits (Value.prettyItems depth false values ++ rest) := by
  cases values with
  | nil =>
    rw [prettyItems_nil_append]
    exact delimits_newLine depth _
  | cons value values =>
    rw [prettyItems_cons_append]
    exact delimits_cons _ (by decide)

/-- Every item adds to the text, so the length of the text bounds the number of items. -/
theorem length_le_prettyItems (isFirst : Bool) (values : List Value) :
    values.length ≤ (Value.prettyItems depth isFirst values).length := by
  induction values generalizing isFirst with
  | nil => exact Nat.zero_le _
  | cons value values ih =>
    have hrest := ih false
    simp only [Value.prettyItems, newLine, List.length_append, List.length_cons]
    omega

/-- The items of a list are read in order, each as its own reader reads it, up to the closing
bracket. The bound on the number of items is never met. Induction on the items. -/
theorem items_prettyItems {item : Reader β} {f : α → β} {xs : List α}
    (h : ∀ x ∈ xs, Takes item ((toJson x).pretty (depth + 1)) (f x)) {bound : Nat}
    (hbound : xs.length < bound) (isFirst : Bool) (rest : List Char) :
    items item bound isFirst (Value.prettyItems depth isFirst (xs.map toJson) ++ rest)
      = .ok (xs.map f, ']' :: rest) := by
  induction xs generalizing bound isFirst with
  | nil =>
    obtain ⟨bound, rfl⟩ := Nat.exists_eq_succ_of_ne_zero (Nat.ne_zero_of_lt hbound)
    rw [List.map_nil, prettyItems_nil_append, items,
      bind_of_ok (another?_close (blank_newLine depth))]
    rfl
  | cons x xs ih =>
    obtain ⟨bound, rfl⟩ := Nat.exists_eq_succ_of_ne_zero (Nat.ne_zero_of_lt hbound)
    have hmore := ih (fun y hy => h y (List.mem_cons_of_mem x hy))
      (Nat.lt_of_succ_lt_succ hbound) false
    -- the first character tells that an item comes, and the next line or comma ends it
    obtain ⟨⟨c, more, htext, hblank, hclose⟩, hreads⟩ := h x List.mem_cons_self
    have hitem := hreads [] (Value.prettyItems depth false (xs.map toJson) ++ rest) blank_nil
      (delimits_prettyItems _ _)
    rw [List.nil_append] at hitem
    rw [List.map_cons, prettyItems_cons_append, items]
    rw [htext, List.cons_append] at hitem ⊢
    rw [bind_of_ok (another?_item (blank_newLine _) hblank hclose), if_pos rfl, bind_of_ok hitem,
      bind_of_ok hmore]
    rfl

/-- The items of a list behind its opening bracket, up to the closing one. -/
def listBody (depth : Nat) : List Value → List Char
  | [] => [']']
  | value :: values => Value.prettyItems depth true (value :: values)

theorem pretty_array (values : List Value) :
    (Value.array values).pretty depth = '[' :: listBody depth values := by
  cases values <;> rw [Value.pretty, listBody]

theorem length_le_listBody (values : List Value) :
    values.length ≤ (listBody depth values).length := by
  cases values with
  | nil => exact Nat.zero_le _
  | cons value values => exact length_le_prettyItems true _

/-- The body of a list is read as `items_prettyItems` says, also when it has no items and no
lines. -/
theorem items_listBody {item : Reader β} {f : α → β} {xs : List α}
    (h : ∀ x ∈ xs, Takes item ((toJson x).pretty (depth + 1)) (f x)) {bound : Nat}
    (hbound : xs.length < bound) (rest : List Char) :
    items item bound true (listBody depth (xs.map toJson) ++ rest)
      = .ok (xs.map f, ']' :: rest) := by
  cases xs with
  | nil =>
    obtain ⟨bound, rfl⟩ := Nat.exists_eq_succ_of_ne_zero (Nat.ne_zero_of_lt hbound)
    show items item (bound + 1) true ([] ++ ']' :: rest) = _
    rw [items, bind_of_ok (another?_close blank_nil)]
    rfl
  | cons x xs => exact items_prettyItems h hbound true rest

/-- **A list** is read item by item. -/
theorem Restores.listMap {levels : Nat} {item : Nat → Reader β} {f : α → β} {xs : List α}
    (h : ∀ x ∈ xs, Restores levels item (toJson x) (f x)) :
    Restores (levels + 1) (Reader.list item) (.array (xs.map toJson)) (xs.map f) := by
  intro depth room hroom
  obtain ⟨room, rfl⟩ := Nat.exists_eq_succ_of_ne_zero (Nat.ne_zero_of_lt hroom)
  have hitem : ∀ x ∈ xs, Takes (item room) ((toJson x).pretty (depth + 1)) (f x) := fun x hx =>
    h x hx (depth + 1) room (Nat.le_of_succ_le_succ hroom)
  rw [pretty_array]
  refine ⟨⟨'[', _, rfl, rfl, by decide⟩, fun blanks rest hblanks _ => ?_⟩
  rw [List.cons_append, Reader.list, bind_of_ok (peek?_blanks hblanks rfl)]
  simp only [reduceIte]
  rw [array, bind_of_ok drop_cons, bind_of_ok length_eq]
  -- every item takes a character, so the bound on the recursion is not met
  have hbound : xs.length < (listBody depth (xs.map toJson) ++ rest).length + 1 := by
    have hlength : (xs.map toJson).length ≤ (listBody depth (xs.map toJson)).length :=
      length_le_listBody _
    rw [List.length_map] at hlength
    rw [List.length_append]
    omega
  rw [bind_of_ok (items_listBody hitem hbound rest)]
  rfl

/-- A list is restored if its items are. -/
theorem Restores.list {levels : Nat} {item : Nat → Reader α} {xs : List α}
    (h : ∀ x ∈ xs, Restores levels item (toJson x) x) :
    Restores (levels + 1) (Reader.list item) (.array (xs.map toJson)) xs := by
  have hlist := Restores.listMap (f := id) h
  rwa [List.map_id] at hlist

end Lists

/-! ## Records -/

/-- The members fill the first draft up to the second: each has the key of a field that the draft
has not got yet, and the reader of the field restores it. -/
inductive Fills (format : RecordFormat δ α) (levels : Nat) : δ → List (String × Value) → δ → Prop
  | nil (draft : δ) : Fills format levels draft [] draft
  | cons {draft final : δ} {key : String} {value : Value} {members : List (String × Value)}
      {β : Type} {isOptional : Bool} {get : δ → Option β} {set : δ → β → δ} {item : Nat → Reader β} {x : β}
      (hfield : format.field? key = some (.of key isOptional get set item))
      (hunset : get draft = none) (hitem : Restores levels item value x)
      (hmembers : Fills format levels (set draft x) members final) :
      Fills format levels draft ((key, value) :: members) final

section Records

variable {format : RecordFormat δ α} {levels depth : Nat} {draft middle final : δ}
  {members : List (String × Value)}

/-- Members that fill a draft one list after the other fill it together. -/
theorem Fills.append {more : List (String × Value)} (h : Fills format levels draft members middle)
    (hmore : Fills format levels middle more final) :
    Fills format levels draft (members ++ more) final := by
  induction h with
  | nil draft => exact hmore
  | cons hfield hunset hitem _ ih => exact .cons hfield hunset hitem (ih hmore)

/-- Behind the last member a new line and the closing brace are written. -/
theorem prettyMembers_nil_append (isFirst : Bool) (rest : List Char) :
    Value.prettyMembers depth isFirst [] ++ rest = newLine depth ++ '\x7d' :: rest := by
  rw [Value.prettyMembers, List.append_assoc]
  rfl

/-- A member is written behind its comma, on a line of its own: the key, a colon, a space and the
value. -/
theorem prettyMembers_cons_append (isFirst : Bool) (key : String) (value : Value)
    (members : List (String × Value)) (rest : List Char) :
    Value.prettyMembers depth isFirst ((key, value) :: members) ++ rest
      = comma isFirst ++ (newLine (depth + 1) ++ (quote key ++ ':' :: ([' '] ++
        (value.pretty (depth + 1) ++ (Value.prettyMembers depth false members ++ rest))))) := by
  simp [Value.prettyMembers, comma]

/-- What is written behind a member ends a number: a comma, or the line of the closing brace. -/
theorem delimits_prettyMembers (members : List (String × Value)) (rest : List Char) :
    Delimits (Value.prettyMembers depth false members ++ rest) := by
  cases members with
  | nil =>
    rw [prettyMembers_nil_append]
    exact delimits_newLine depth _
  | cons member members =>
    rw [prettyMembers_cons_append]
    exact delimits_cons _ (by decide)

theorem length_le_prettyMembers (isFirst : Bool) (members : List (String × Value)) :
    members.length ≤ (Value.prettyMembers depth isFirst members).length := by
  induction members generalizing isFirst with
  | nil => exact Nat.zero_le _
  | cons member members ih =>
    have hrest := ih false
    simp only [Value.prettyMembers, newLine, List.length_append, List.length_cons]
    omega

/-- The members of a record fill its draft in the order they are written in, up to the closing
brace. Induction on how they fill it. -/
theorem Fills.readMembers (h : Fills format levels draft members final) {room : Nat}
    (hroom : levels ≤ room) {bound : Nat} (hbound : members.length < bound) (isFirst : Bool)
    (rest : List Char) :
    format.readMembers room bound isFirst draft (Value.prettyMembers depth isFirst members ++ rest)
      = .ok (final, '\x7d' :: rest) := by
  induction h generalizing bound isFirst with
  | nil draft =>
    obtain ⟨bound, rfl⟩ := Nat.exists_eq_succ_of_ne_zero (Nat.ne_zero_of_lt hbound)
    rw [prettyMembers_nil_append, RecordFormat.readMembers,
      bind_of_ok (key?_close (blank_newLine depth))]
    rfl
  | @cons draft final key value members _ isOptional get set item x hfield hunset hitem _ ih =>
    obtain ⟨bound, rfl⟩ := Nat.exists_eq_succ_of_ne_zero (Nat.ne_zero_of_lt hbound)
    have hmore := ih (Nat.lt_of_succ_lt_succ hbound) false
    have hread := (hitem (depth + 1) room hroom).reads [' ']
      (Value.prettyMembers depth false members ++ rest) blank_space (delimits_prettyMembers _ _)
    rw [prettyMembers_cons_append, RecordFormat.readMembers,
      bind_of_ok (key?_quote (blank_newLine _) key)]
    -- the draft has not got the field, so it is read and not refused
    have hnotSet : ¬ (Field.of key isOptional get set item).isSet draft = true := by
      show ¬ (get draft).isSome = true
      rw [hunset]
      exact nofun
    have hset : (Field.of key isOptional get set item).read room draft
        ([' '] ++ (value.pretty (depth + 1) ++ (Value.prettyMembers depth false members ++ rest)))
          = .ok (set draft x, Value.prettyMembers depth false members ++ rest) := by
      show (item room >>= fun y => pure (set draft y)) _ = _
      rw [bind_of_ok hread]
      rfl
    dsimp only
    rw [hfield]
    dsimp only
    rw [if_neg hnotSet, bind_of_ok colon_cons, bind_of_ok hset]
    exact hmore

/-- The members of an object behind its opening brace, up to the closing one. -/
def objectBody (depth : Nat) : List (String × Value) → List Char
  | [] => ['\x7d']
  | member :: members => Value.prettyMembers depth true (member :: members)

theorem pretty_object (members : List (String × Value)) :
    (Value.object members).pretty depth = '\x7b' :: objectBody depth members := by
  cases members <;> rw [Value.pretty, objectBody]

theorem length_le_objectBody (members : List (String × Value)) :
    members.length ≤ (objectBody depth members).length := by
  cases members with
  | nil => exact Nat.zero_le _
  | cons member members => exact length_le_prettyMembers true _

/-- The body of a record fills the draft, also when it has no members and no lines. -/
theorem Fills.readMembers_objectBody (h : Fills format levels draft members final) {room : Nat}
    (hroom : levels ≤ room) {bound : Nat} (hbound : members.length < bound) (rest : List Char) :
    format.readMembers room bound true draft (objectBody depth members ++ rest)
      = .ok (final, '\x7d' :: rest) := by
  cases members with
  | nil =>
    obtain ⟨bound, rfl⟩ := Nat.exists_eq_succ_of_ne_zero (Nat.ne_zero_of_lt hbound)
    cases h
    show format.readMembers room (bound + 1) true draft ([] ++ '\x7d' :: rest) = _
    rw [RecordFormat.readMembers, bind_of_ok (key?_close blank_nil)]
    rfl
  | cons member members => exact h.readMembers hroom hbound true rest

/-- A draft that has all its fields is finished as its record, and takes no text for it. -/
theorem finish_of_ok {x : α} {cs : List Char} (h : format.build draft = .ok x) :
    format.finish draft cs = .ok (x, cs) := by
  rw [RecordFormat.finish, h]
  rfl

/-- **A record** is restored if its members fill a draft from which it is built. -/
theorem Restores.record {x : α} (h : Fills format levels format.blank members final)
    (hbuild : format.build final = .ok x) :
    Restores (levels + 1) format.read (.object members) x := by
  intro depth room hroom
  obtain ⟨room, rfl⟩ := Nat.exists_eq_succ_of_ne_zero (Nat.ne_zero_of_lt hroom)
  rw [pretty_object]
  refine ⟨⟨'\x7b', _, rfl, rfl, by decide⟩, fun blanks rest hblanks _ => ?_⟩
  rw [List.cons_append, RecordFormat.read, bind_of_ok (peek?_blanks hblanks rfl)]
  simp only [reduceIte]
  rw [bind_of_ok drop_cons, bind_of_ok length_eq]
  -- every member takes a character, so the bound on the recursion is not met
  have hbound : members.length < (objectBody depth members ++ rest).length + 1 := by
    have hlength : members.length ≤ (objectBody depth members).length := length_le_objectBody _
    rw [List.length_append]
    omega
  rw [bind_of_ok (h.readMembers_objectBody (Nat.le_of_succ_le_succ hroom) hbound rest),
    bind_of_ok (finish_of_ok hbuild)]
  rfl

end Records

/-! ## Texts -/

/-- A reader that restores a value reads it from the text that holds nothing else. -/
theorem Restores.run {levels : Nat} {reader : Nat → Reader α} {value : Value} {x : α}
    (h : Restores levels reader value x) {room : Nat} (hroom : levels ≤ room) :
    (reader room).run (String.ofList (value.pretty 0)) = .ok x := by
  have hread := (h 0 room hroom).reads [] [] blank_nil delimits_nil
  rw [List.nil_append, List.append_nil] at hread
  rw [Reader.run, String.toList_ofList]
  show (reader room (value.pretty 0) >>= _) = _
  rw [hread]
  rfl

end FormulaSheet.Json
