import FormulaSheet.Proofs.Json.Extents
import Mathlib.Data.List.Forall2

/-!
# FormulaSheet — the pieces of arrays and objects

Between its brackets an array is made of pieces with commas between them, each a text with blanks
around it. An object is, too, and each of its pieces has a colon between a key and a value. A reader
of items cuts an array into such pieces and reads an array that is made of them, whatever the pieces
are.

* `exists_pieces_of_items`, `items_separated` — arrays, from the text to the pieces and back.
* `Member`, `exists_members_of_key?`, `key?_named` — the same for one member of an object.
* `cutsTo_list`, `Takes.list` — lists.
* `cutsTo_value` — a value is read with any room in which its containers fit.
-/

namespace FormulaSheet.Json

open Reader

variable {α β : Type} {cs rest lead : List Char} {isFirst : Bool} {bound : Nat}
  {item : Reader α} {written : List Char → α → Prop}

/-! ## Blanks -/

theorem Reader.Blank.append {more : List Char} (h : Blank lead) (hmore : Blank more) :
    Blank (lead ++ more) :=
  fun c hc => (List.mem_append.mp hc).elim (h c) (hmore c)

/-- Blanks in front of a text that ends a number end a number, too. -/
theorem Reader.Blank.delimits (h : Blank lead) (hrest : Delimits rest) :
    Delimits (lead ++ rest) := by
  cases lead with
  | nil => exact hrest
  | cons c lead =>
    have hc := h c List.mem_cons_self
    simp only [isJsonBlank, Bool.or_eq_true, beq_iff_eq] at hc
    rcases hc with ((rfl | rfl) | rfl) | rfl <;> exact delimits_cons _ (by decide)

/-- A reader that looks for the next character does not see the blanks in front of it. -/
theorem bind_peek?_append (h : Blank lead) (second : Option Char → Reader α) (cs : List Char) :
    (peek? >>= second) (lead ++ cs) = (peek? >>= second) cs := by
  show second ((lead ++ cs).dropWhile isJsonBlank).head? ((lead ++ cs).dropWhile isJsonBlank)
    = second (cs.dropWhile isJsonBlank).head? (cs.dropWhile isJsonBlank)
  rw [List.dropWhile_append_of_pos h]

/-- Blanks stand around a text that is written for the value. -/
def Around (written : List Char → α → Prop) (piece : List Char) (x : α) : Prop :=
  ∃ lead text trail, piece = lead ++ (text ++ trail) ∧ Blank lead ∧ Blank trail ∧ written text x

/-- What a text is written for may be weakened with the blanks around it kept. -/
theorem Around.imp {written' : List Char → β → Prop} {piece : List Char} {x : α} {y : β}
    (h : Around written piece x) (himp : ∀ text, written text x → written' text y) :
    Around written' piece y := by
  obtain ⟨lead, text, trail, hpiece, hlead, htrail, hwritten⟩ := h
  exact ⟨lead, text, trail, hpiece, hlead, htrail, himp text hwritten⟩

theorem Around.ne_nil {piece : List Char} {x : α} (h : Around (Takes item) piece x) :
    piece ≠ [] := by
  obtain ⟨lead, text, trail, rfl, -, -, htakes⟩ := h
  obtain ⟨c, more, rfl, -⟩ := htakes.starts
  exact List.append_ne_nil_of_right_ne_nil _ (List.cons_ne_nil _ _)

/-! ## Items -/

/-- The pieces, with a comma in front of each but the first one of all. -/
def separated (isFirst : Bool) : List (List Char) → List Char
  | [] => []
  | piece :: pieces => comma isFirst ++ (piece ++ separated false pieces)

/-- What follows an item ends a number: the comma in front of the next piece, or what stands behind
them all. -/
theorem delimits_separated (pieces : List (List Char)) (hrest : Delimits rest) :
    Delimits (separated false pieces ++ rest) := by
  cases pieces with
  | nil => exact hrest
  | cons piece pieces => exact delimits_cons _ (by decide)

/-- Every piece adds to the text, so the length of the text bounds the number of pieces. -/
theorem length_le_separated {pieces : List (List Char)} (h : ∀ piece ∈ pieces, piece ≠ [])
    (isFirst : Bool) :
    pieces.length ≤ (separated isFirst pieces).length := by
  induction pieces generalizing isFirst with
  | nil => exact Nat.zero_le _
  | cons piece pieces ih =>
    have hpiece := List.length_pos_iff.mpr (h piece List.mem_cons_self)
    have hmore := ih (fun other hmem => h other (List.mem_cons_of_mem piece hmem)) false
    simp only [separated, List.length_append, List.length_cons]
    omega

theorem ne_nil_of_mem {pieces : List (List Char)} {xs : List α}
    (h : List.Forall₂ (Around (Takes item)) pieces xs) : ∀ piece ∈ pieces, piece ≠ [] := by
  induction h with
  | nil => exact List.forall_mem_nil _
  | cons hpiece _ ih => exact List.forall_mem_cons.mpr ⟨hpiece.ne_nil, ih⟩

/-- One piece can be taken out of its place for another one. -/
theorem exists_place_in_separated (isFirst : Bool) (pieces more : List (List Char)) :
    ∃ before after, ∀ piece,
      separated isFirst (pieces ++ piece :: more) = before ++ (piece ++ after) := by
  induction pieces generalizing isFirst with
  | nil => exact ⟨comma isFirst, separated false more, fun piece => rfl⟩
  | cons first pieces ih =>
    obtain ⟨before, after, hplace⟩ := ih false
    refine ⟨comma isFirst ++ (first ++ before), after, fun piece => ?_⟩
    rw [List.cons_append, separated, hplace]
    simp only [List.append_assoc]

theorem another?_append (h : Blank lead) (cs : List Char) :
    another? isFirst (lead ++ cs) = another? isFirst cs :=
  bind_peek?_append h _ cs

/-- Where an item is due, its comma stands in front, with blanks on both sides. -/
theorem another?_eq_true (h : another? isFirst cs = .ok (true, rest)) :
    ∃ lead gap, cs = lead ++ (comma isFirst ++ (gap ++ rest)) ∧ Blank lead ∧ Blank gap := by
  obtain ⟨blanks, c, more, rfl, hblanks, -, h⟩ := exists_of_peek? rfl h
  dsimp only at h
  split at h
  · cases h
  split at h
  · -- the first item has no comma in front, so the blanks are its own
    next hfirst =>
    obtain ⟨-, rfl⟩ := Prod.mk.inj (Except.ok.inj h)
    exact ⟨[], blanks, by rw [hfirst]; rfl, blank_nil, hblanks⟩
  split at h
  · -- the comma parts the blanks into those before it and those of the item
    next hfirst hcomma =>
    subst hcomma
    rw [bind_of_ok drop_cons] at h
    obtain ⟨gap, d, tail, rfl, hgap, -, h⟩ := exists_of_peek? rfl h
    dsimp only at h
    split at h
    · cases h
    · obtain ⟨-, rfl⟩ := Prod.mk.inj (Except.ok.inj h)
      refine ⟨blanks, gap, ?_, hblanks, hgap⟩
      rw [Bool.eq_false_iff.mpr hfirst]
      rfl
  · cases h

/-- Where no item is due, the closing bracket stands behind blanks. -/
theorem another?_eq_false (h : another? isFirst cs = .ok (false, rest)) :
    ∃ lead more, cs = lead ++ rest ∧ Blank lead ∧ rest = ']' :: more := by
  obtain ⟨blanks, c, more, rfl, hblanks, -, h⟩ := exists_of_peek? rfl h
  dsimp only at h
  split at h
  · next hclose =>
    obtain ⟨-, rfl⟩ := Prod.mk.inj (Except.ok.inj h)
    exact ⟨blanks, more, rfl, hblanks, by rw [hclose]⟩
  split at h
  · cases h
  split at h
  · -- behind a comma an item is due, or the list is refused
    rw [bind_of_ok drop_cons] at h
    obtain ⟨gap, d, tail, -, -, -, h⟩ := exists_of_peek? rfl h
    dsimp only at h
    split at h <;> cases h
  · cases h

/-- The items that are read are cut off the text piece by piece. -/
theorem exists_pieces_of_items (hitem : CutsTo item written) {xs : List α}
    (h : items item bound isFirst cs = .ok (xs, rest)) :
    ∃ lead pieces more, cs = lead ++ (separated isFirst pieces ++ rest) ∧ Blank lead
      ∧ rest = ']' :: more ∧ List.Forall₂ (Around written) pieces xs := by
  -- the bound falls with each item, and what is left of the text stays behind the pieces
  induction bound generalizing cs isFirst xs with
  | zero => cases h
  | succ bound ih =>
    obtain ⟨another, between, hanother, h⟩ := exists_of_bind h
    cases another with
    | false =>
      obtain ⟨rfl, rfl⟩ := Prod.mk.inj (Except.ok.inj h)
      obtain ⟨lead, more, rfl, hlead, hclose⟩ := another?_eq_false hanother
      exact ⟨lead, [], more, rfl, hlead, hclose, .nil⟩
    | true =>
      obtain ⟨x, afterItem, hx, h⟩ := exists_of_bind h
      obtain ⟨ys, afterItems, hys, h⟩ := exists_of_bind h
      obtain ⟨rfl, rfl⟩ := Prod.mk.inj (Except.ok.inj h)
      obtain ⟨lead, gap, rfl, hlead, hgap⟩ := another?_eq_true hanother
      obtain ⟨blanks, text, rfl, hblanks, hwritten⟩ := hitem hx
      obtain ⟨trail, pieces, more, rfl, htrail, hclose, hpieces⟩ := ih hys
      -- the blanks in front of the next comma or bracket belong to this item
      have hpiece : Around written ((gap ++ blanks) ++ (text ++ trail)) x :=
        ⟨_, text, trail, rfl, hgap.append hblanks, htrail, hwritten⟩
      refine ⟨lead, _ :: pieces, more, ?_, hlead, hclose, .cons hpiece hpieces⟩
      simp only [separated, List.append_assoc]

/-- Pieces that stand for items are read as them, in order, up to the closing bracket. Induction on
the pieces. -/
theorem items_separated {pieces : List (List Char)} {xs : List α}
    (h : List.Forall₂ (Around (Takes item)) pieces xs) (hlead : Blank lead)
    (hbound : xs.length < bound) :
    items item bound isFirst (lead ++ (separated isFirst pieces ++ ']' :: rest))
      = .ok (xs, ']' :: rest) := by
  induction h generalizing bound isFirst lead with
  | nil =>
    obtain ⟨bound, rfl⟩ := Nat.exists_eq_succ_of_ne_zero (Nat.ne_zero_of_lt hbound)
    show items item (bound + 1) isFirst (lead ++ ']' :: rest) = _
    rw [items, bind_of_ok (another?_close hlead)]
    rfl
  | @cons piece x pieces xs hpiece _ ih =>
    obtain ⟨bound, rfl⟩ := Nat.exists_eq_succ_of_ne_zero (Nat.ne_zero_of_lt hbound)
    obtain ⟨gap, text, trail, rfl, hgap, htrail, ⟨c, more, rfl, hc, hclose⟩, hreads⟩ := hpiece
    have hmore : items item bound false (trail ++ (separated false pieces ++ ']' :: rest)) = _ :=
      ih htrail (Nat.lt_of_succ_lt_succ hbound)
    -- an item ends where blanks, a comma or the bracket starts
    have hdelimits : Delimits (trail ++ (separated false pieces ++ ']' :: rest)) :=
      htrail.delimits (delimits_separated _ (delimits_cons _ (by decide)))
    have hitem := hreads [] _ blank_nil hdelimits
    rw [List.nil_append, List.cons_append] at hitem
    simp only [separated, List.append_assoc, List.cons_append]
    rw [items, bind_of_ok ((another?_append hlead _).trans (another?_item hgap hc hclose)), if_pos rfl,
      bind_of_ok hitem, bind_of_ok hmore]
    rfl

/-- An array with blanks and pieces between its brackets. -/
def arrayText (lead : List Char) (pieces : List (List Char)) : List Char :=
  '[' :: (lead ++ (separated true pieces ++ [']']))

theorem arrayText_append (lead : List Char) (pieces : List (List Char)) (rest : List Char) :
    arrayText lead pieces ++ rest = '[' :: (lead ++ (separated true pieces ++ ']' :: rest)) := by
  simp [arrayText]

theorem startsItem_arrayText (lead : List Char) (pieces : List (List Char)) :
    StartsItem (arrayText lead pieces) :=
  ⟨'[', _, rfl, rfl, by decide⟩

/-- A list that is read is a bracket, pieces for its items, and the closing bracket. -/
theorem array_eq_ok (hitem : CutsTo item written) {more : List Char} {xs : List α}
    (h : array item ('[' :: more) = .ok (xs, rest)) :
    ∃ lead pieces, '[' :: more = arrayText lead pieces ++ rest ∧ Blank lead
      ∧ List.Forall₂ (Around written) pieces xs := by
  rw [array, bind_of_ok drop_cons, bind_of_ok length_eq] at h
  obtain ⟨ys, between, hys, hclose⟩ := exists_of_bind h
  obtain ⟨lead, pieces, tail, rfl, hlead, rfl, hpieces⟩ := exists_pieces_of_items hitem hys
  rw [bind_of_ok drop_cons] at hclose
  obtain ⟨rfl, rfl⟩ := Prod.mk.inj (Except.ok.inj hclose)
  exact ⟨lead, pieces, (arrayText_append ..).symm, hlead, hpieces⟩

/-- Pieces between brackets are read as the items they stand for. -/
theorem array_arrayText {pieces : List (List Char)} {xs : List α}
    (h : List.Forall₂ (Around (Takes item)) pieces xs) (hlead : Blank lead) (rest : List Char) :
    array item (arrayText lead pieces ++ rest) = .ok (xs, rest) := by
  rw [arrayText_append, array, bind_of_ok drop_cons, bind_of_ok length_eq]
  have hbound : xs.length < (lead ++ (separated true pieces ++ ']' :: rest)).length + 1 := by
    have hlength := length_le_separated (ne_nil_of_mem h) true
    rw [← h.length_eq, List.length_append, List.length_append]
    omega
  rw [bind_of_ok (items_separated h hlead hbound), bind_of_ok drop_cons]
  rfl

/-! ## Lists -/

theorem array_eq_ok_of_list {room : Nat} {item : Nat → Reader α} {xs : List α}
    (h : Reader.list item room cs = .ok (xs, rest)) : ∃ less blanks more, room = less + 1
      ∧ cs = blanks ++ '[' :: more ∧ Blank blanks
      ∧ array (item less) ('[' :: more) = .ok (xs, rest) := by
  obtain ⟨blanks, c, more, rfl, hblanks, -, h⟩ := exists_of_peek? rfl h
  dsimp only at h
  split at h
  · next hopen =>
    subst hopen
    -- a list needs one level of room
    cases room with
    | zero => cases h
    | succ less => exact ⟨less, blanks, more, rfl, rfl, hblanks, h⟩
  · exact absurd h (refuseFound_ne_ok _ _)

/-- A list is written as an array whose pieces are its items. -/
theorem cutsTo_list {item : Nat → Reader α} {written : Nat → List Char → α → Prop}
    (h : ∀ room, CutsTo (item room) (written room)) (room : Nat) :
    CutsTo (Reader.list item room) fun text xs => ∃ less lead pieces, room = less + 1
      ∧ text = arrayText lead pieces ∧ Blank lead
      ∧ List.Forall₂ (Around (written less)) pieces xs := by
  intro cs rest xs hxs
  obtain ⟨less, blanks, more, rfl, rfl, hblanks, harray⟩ := array_eq_ok_of_list hxs
  obtain ⟨lead, pieces, htext, hlead, hpieces⟩ := array_eq_ok (h less) harray
  exact ⟨blanks, _, by rw [htext], hblanks, less, lead, pieces, rfl, rfl, hlead, hpieces⟩

/-- A list takes one level of room more than its items, and its text may stand anywhere. -/
theorem Takes.list {item : Nat → Reader α} {less : Nat} {pieces : List (List Char)} {xs : List α}
    (h : List.Forall₂ (Around (Takes (item less))) pieces xs) (hlead : Blank lead) :
    Takes (Reader.list item (less + 1)) (arrayText lead pieces) xs := by
  refine ⟨startsItem_arrayText lead pieces, fun blanks rest hblanks _ => ?_⟩
  have harray := array_arrayText h hlead rest
  rw [arrayText_append] at harray ⊢
  rw [Reader.list, bind_of_ok (peek?_blanks hblanks rfl)]
  exact harray

/-- A list of items that are cut out of their text is cut out of its text. -/
theorem Reader.Cuts.list {item : Nat → Reader α} (h : ∀ room, Cuts (item room)) (room : Nat) :
    Cuts (Reader.list item room) := by
  intro cs rest xs hxs
  obtain ⟨blanks, text, hcs, hblanks, less, lead, pieces, rfl, rfl, hlead, hpieces⟩ :=
    cutsTo_list h room hxs
  exact ⟨blanks, _, hcs, hblanks, .list hpieces hlead⟩

/-! ## Members -/

/-- A member of an object, each part with the blanks around it. -/
structure Member where
  /-- The key between its quotation marks. -/
  name : List Char
  value : List Char

namespace Member

def text (m : Member) : List Char := m.name ++ ':' :: m.value

/-- The key that the member has, if its name is a text. -/
def key? (m : Member) : Option String := (Reader.text.run (String.ofList m.name)).toOption

theorem text_ne_nil (m : Member) : m.text ≠ [] :=
  List.append_ne_nil_of_right_ne_nil _ (List.cons_ne_nil _ _)

end Member

/-- A text by itself reads as a value exactly when it is, between blanks, a text that is taken for
it. -/
theorem run_eq_ok_iff {reader : Reader α} (h : Cuts reader) {text : List Char} {x : α} :
    reader.run (String.ofList text) = .ok x ↔ Around (Takes reader) text x := by
  rw [Reader.run, String.toList_ofList]
  constructor
  · intro hrun
    obtain ⟨⟨y, trail⟩, hread, hend⟩ := exists_of_bind_eq_ok hrun
    obtain ⟨lead, own, htext, hlead, htakes⟩ := h hread
    dsimp only at hend
    split at hend
    · next htrail =>
      obtain rfl := Except.ok.inj hend
      exact ⟨lead, own, trail, htext, hlead, List.all_eq_true.mp htrail, htakes⟩
    · cases hend
  · rintro ⟨lead, own, trail, rfl, hlead, htrail, htakes⟩
    -- blanks up to the end of the input end a value
    have hdelimits : Delimits trail := by
      have := htrail.delimits delimits_nil
      rwa [List.append_nil] at this
    have hread := htakes.reads lead trail hlead hdelimits
    show (reader _ >>= _) = _
    rw [hread]
    show (if trail.all isJsonBlank then Except.ok x else _) = _
    rw [if_pos (List.all_eq_true.mpr htrail)]

/-- The key of a member is what its name reads as by itself. -/
theorem Member.key?_eq_some_iff {m : Member} {key : String} :
    m.key? = some key ↔ Around (Takes Reader.text) m.name key := by
  rw [← run_eq_ok_iff cuts_text, Member.key?]
  cases Reader.text.run (String.ofList m.name) with
  | error e => exact ⟨nofun, nofun⟩
  | ok s => exact ⟨fun h => congrArg Except.ok (Option.some.inj h), fun h => congrArg some (Except.ok.inj h)⟩

/-- The inside of a string that is read is, behind its mark, a text that is taken for it. -/
theorem takes_text_of_body {key : String} (h : body cs = .ok (key, rest)) :
    ∃ marked, cs = marked ++ rest ∧ Takes Reader.text ('"' :: marked) key := by
  obtain ⟨marked, hcs, hread⟩ := local_body h
  have htext : Reader.text ('"' :: marked) = body marked := by
    show Reader.text ([] ++ '"' :: marked) = _
    rw [Reader.text, bind_of_ok (peek?_blanks blank_nil rfl)]
    rfl
  have hbody := hread [] delimits_nil
  rw [List.append_nil, ← htext] at hbody
  exact ⟨marked, hcs, cuts_text.takes ⟨'"', marked, rfl, rfl, by decide⟩ hbody⟩

/-- A text that is taken for a string is a mark and an inside that is read anywhere. -/
theorem Takes.exists_body {own : List Char} {key : String} (h : Takes Reader.text own key) :
    ∃ marked, own = '"' :: marked
      ∧ ∀ after, Delimits after → body (marked ++ after) = .ok (key, after) := by
  obtain ⟨⟨c, marked, rfl, hc, -⟩, hreads⟩ := h
  have hbody : ∀ after, Delimits after → c = '"' ∧ body (marked ++ after) = .ok (key, after) := by
    intro after hafter
    have hread := hreads [] after blank_nil hafter
    rw [List.cons_append, Reader.text, bind_of_ok (peek?_blanks blank_nil hc)] at hread
    dsimp only at hread
    split at hread
    · next hmark => exact ⟨hmark, hread⟩
    · exact absurd hread (refuseFound_ne_ok _ _)
  -- the text by itself is read already, which shows the mark that it starts with
  obtain ⟨rfl, -⟩ := hbody [] delimits_nil
  exact ⟨marked, rfl, fun after hafter => (hbody after hafter).2⟩

/-- A colon is read behind blanks. -/
theorem colon_eq_ok (h : colon cs = .ok ((), rest)) :
    ∃ gap, cs = gap ++ ':' :: rest ∧ Blank gap :=
  exists_of_mark h

/-- A name and a colon are cut off the text. -/
theorem exists_name {blanks more between : List Char} {key : String} (hblanks : Blank blanks)
    (hbody : body more = .ok (key, between)) (hcolon : colon between = .ok ((), rest)) :
    ∃ name, blanks ++ '"' :: more = name ++ ':' :: rest ∧ Around (Takes Reader.text) name key := by
  obtain ⟨marked, rfl, htakes⟩ := takes_text_of_body hbody
  obtain ⟨gap, rfl, hgap⟩ := colon_eq_ok hcolon
  refine ⟨blanks ++ ('"' :: marked ++ gap), ?_, blanks, _, gap, rfl, hblanks, hgap, htakes⟩
  simp only [List.append_assoc, List.cons_append]

/-- A key is what stands behind a quotation mark. -/
theorem markedKey_eq_ok {c : Char} {more : List Char} {found : Option String}
    (h : (if c = '"' then (do drop; return some (← body)) else throw .malformed : Reader (Option String))
      (c :: more) = .ok (found, rest)) :
    c = '"' ∧ ∃ key, found = some key ∧ body more = .ok (key, rest) := by
  split at h
  · next hmark =>
    rw [bind_of_ok drop_cons] at h
    obtain ⟨key, _, hbody, h⟩ := exists_of_bind h
    obtain ⟨rfl, rfl⟩ := Prod.mk.inj (Except.ok.inj h)
    exact ⟨hmark, key, rfl, hbody⟩
  · cases h

/-- Where a key is found and a colon behind it, a name stands there: the comma in front of it, the
name with blanks around it, the colon. -/
theorem exists_name_of_key? {key : String} {between : List Char}
    (h : key? isFirst cs = .ok (some key, between)) (hcolon : colon between = .ok ((), rest)) :
    ∃ lead name, cs = lead ++ (comma isFirst ++ (name ++ ':' :: rest)) ∧ Blank lead
      ∧ Around (Takes Reader.text) name key := by
  obtain ⟨blanks, c, more, rfl, hblanks, -, h⟩ := exists_of_peek? rfl h
  dsimp only at h
  split at h
  · cases h
  split at h
  · next hfirst =>
    obtain ⟨rfl, _, ⟨⟩, hbody⟩ := markedKey_eq_ok h
    obtain ⟨name, hname, haround⟩ := exists_name hblanks hbody hcolon
    exact ⟨[], name, by rw [hname, hfirst]; rfl, blank_nil, haround⟩
  split at h
  · -- behind a comma there are blanks of their own, and they belong to the name
    next hfirst hcomma =>
    subst hcomma
    rw [bind_of_ok drop_cons] at h
    obtain ⟨gap, d, tail, rfl, hgap, -, h⟩ := exists_of_peek? rfl h
    obtain ⟨rfl, _, ⟨⟩, hbody⟩ := markedKey_eq_ok h
    obtain ⟨name, hname, haround⟩ := exists_name hgap hbody hcolon
    exact ⟨blanks, name, by rw [hname, Bool.eq_false_iff.mpr hfirst]; rfl, hblanks, haround⟩
  · cases h

/-- Where no key is found, the closing brace stands behind blanks. -/
theorem key?_eq_none (h : key? isFirst cs = .ok (none, rest)) :
    ∃ lead more, cs = lead ++ rest ∧ Blank lead ∧ rest = '\x7d' :: more := by
  obtain ⟨blanks, c, more, rfl, hblanks, -, h⟩ := exists_of_peek? rfl h
  dsimp only at h
  split at h
  · next hclose =>
    obtain ⟨-, rfl⟩ := Prod.mk.inj (Except.ok.inj h)
    exact ⟨blanks, more, rfl, hblanks, by rw [hclose]⟩
  -- otherwise a key is found, or nothing is read
  split at h
  · obtain ⟨-, _, ⟨⟩, -⟩ := markedKey_eq_ok h
  split at h
  · rw [bind_of_ok drop_cons] at h
    obtain ⟨gap, d, tail, -, -, -, h⟩ := exists_of_peek? rfl h
    obtain ⟨-, _, ⟨⟩, -⟩ := markedKey_eq_ok h
  · cases h

theorem key?_append (h : Blank lead) (cs : List Char) :
    key? isFirst (lead ++ cs) = key? isFirst cs :=
  bind_peek?_append h _ cs

/-- A name is found as its key, and the colon behind it. -/
theorem key?_named {name : List Char} {key : String} (h : Around (Takes Reader.text) name key)
    (hlead : Blank lead) (cs : List Char) :
    ∃ between, key? isFirst (lead ++ (comma isFirst ++ (name ++ ':' :: cs))) = .ok (some key, between)
      ∧ colon between = .ok ((), cs) := by
  obtain ⟨blanks, own, gap, rfl, hblanks, hgap, htakes⟩ := h
  obtain ⟨marked, rfl, hbody⟩ := htakes.exists_body
  have hdelimits : Delimits (gap ++ ':' :: cs) := hgap.delimits (delimits_cons _ (by decide))
  refine ⟨gap ++ ':' :: cs, ?_, ?_⟩
  · simp only [List.append_assoc, List.cons_append]
    exact (key?_append hlead _).trans (key?_mark hblanks (hbody _ hdelimits))
  · rw [colon, bind_of_ok (peek?_blanks hgap rfl)]
    rfl

/-- An object with blanks and members between its braces. -/
def objectText (lead : List Char) (members : List Member) : List Char :=
  '\x7b' :: (lead ++ (separated true (members.map Member.text) ++ ['\x7d']))

theorem objectText_append (lead : List Char) (members : List Member) (rest : List Char) :
    objectText lead members ++ rest
      = '\x7b' :: (lead ++ (separated true (members.map Member.text) ++ '\x7d' :: rest)) := by
  simp [objectText]

theorem startsItem_objectText (lead : List Char) (members : List Member) :
    StartsItem (objectText lead members) :=
  ⟨'\x7b', _, rfl, rfl, by decide⟩

/-- A member in front of others is its comma, its name, a colon and its value. -/
theorem separated_member (m : Member) (ms : List Member) (rest : List Char) :
    separated isFirst ((m :: ms).map Member.text) ++ rest
      = comma isFirst ++ (m.name ++ ':' :: (m.value ++ (separated false (ms.map Member.text) ++ rest))) := by
  simp only [List.map_cons, separated, Member.text, List.append_assoc, List.cons_append]

/-- What follows a value of a record ends a number: a comma or the closing brace. -/
theorem delimits_members (ms : List Member) (rest : List Char) :
    Delimits (separated false (ms.map Member.text) ++ '\x7d' :: rest) :=
  delimits_separated _ (delimits_cons _ (by decide))

theorem length_le_members (ms : List Member) (isFirst : Bool) :
    ms.length ≤ (separated isFirst (ms.map Member.text)).length := by
  have hne : ∀ piece ∈ ms.map Member.text, piece ≠ [] := by
    intro piece hmem
    obtain ⟨m, -, rfl⟩ := List.mem_map.mp hmem
    exact m.text_ne_nil
  have hlength := length_le_separated hne isFirst
  rwa [List.length_map] at hlength

/-- The member has a key, and a text that is written for the value. -/
def Member.Holds (written : List Char → α → Prop) (m : Member) (entry : String × α) : Prop :=
  m.key? = some entry.1 ∧ Around written m.value entry.2

/-- Members that are read stand in the text one after the other, each with its name and its value,
up to the closing brace. -/
theorem exists_members_of_members (hitem : CutsTo item written) {xs : List (String × α)}
    (h : Reader.members item bound isFirst cs = .ok (xs, rest)) :
    ∃ lead ms more, cs = lead ++ (separated isFirst (ms.map Member.text) ++ rest) ∧ Blank lead
      ∧ rest = '\x7d' :: more ∧ List.Forall₂ (Member.Holds written) ms xs := by
  -- as for the items of an array, with a name and a colon in front of each
  induction bound generalizing cs isFirst xs with
  | zero => cases h
  | succ bound ih =>
    obtain ⟨key?, between, hkey, h⟩ := exists_of_bind h
    cases key? with
    | none =>
      obtain ⟨rfl, rfl⟩ := Prod.mk.inj (Except.ok.inj h)
      obtain ⟨lead, more, rfl, hlead, hclose⟩ := key?_eq_none hkey
      exact ⟨lead, [], more, rfl, hlead, hclose, .nil⟩
    | some key =>
      obtain ⟨⟨⟩, afterColon, hcolon, h⟩ := exists_of_bind h
      obtain ⟨x, afterItem, hx, h⟩ := exists_of_bind h
      obtain ⟨ys, afterItems, hys, h⟩ := exists_of_bind h
      obtain ⟨rfl, rfl⟩ := Prod.mk.inj (Except.ok.inj h)
      obtain ⟨lead, name, rfl, hlead, hname⟩ := exists_name_of_key? hkey hcolon
      obtain ⟨blanks, text, rfl, hblanks, hwritten⟩ := hitem hx
      obtain ⟨trail, ms, more, rfl, htrail, hclose, hms⟩ := ih hys
      have hmember : Member.Holds written ⟨name, blanks ++ (text ++ trail)⟩ (key, x) :=
        ⟨Member.key?_eq_some_iff.mpr hname, blanks, text, trail, rfl, hblanks, htrail, hwritten⟩
      refine ⟨lead, _ :: ms, more, ?_, hlead, hclose, .cons hmember hms⟩
      rw [separated_member]
      simp only [List.append_assoc]

/-- Members that stand for entries are read as them, in order. Induction on the members. -/
theorem members_separated {ms : List Member} {xs : List (String × α)}
    (h : List.Forall₂ (Member.Holds (Takes item)) ms xs) (hlead : Blank lead)
    (hbound : xs.length < bound) :
    Reader.members item bound isFirst
        (lead ++ (separated isFirst (ms.map Member.text) ++ '\x7d' :: rest))
      = .ok (xs, '\x7d' :: rest) := by
  induction h generalizing bound isFirst lead with
  | nil =>
    obtain ⟨bound, rfl⟩ := Nat.exists_eq_succ_of_ne_zero (Nat.ne_zero_of_lt hbound)
    show Reader.members item (bound + 1) isFirst (lead ++ '\x7d' :: rest) = _
    rw [Reader.members, bind_of_ok (key?_close hlead)]
    rfl
  | @cons m entry ms xs hmember _ ih =>
    obtain ⟨bound, rfl⟩ := Nat.exists_eq_succ_of_ne_zero (Nat.ne_zero_of_lt hbound)
    obtain ⟨hkey, blanks, text, trail, hvalue, hblanks, htrail, htakes⟩ := hmember
    -- the blanks behind the value are the ones the next round starts with
    have hmore : Reader.members item bound false
        (trail ++ (separated false (ms.map Member.text) ++ '\x7d' :: rest)) = _ :=
      ih htrail (Nat.lt_of_succ_lt_succ hbound)
    have hitem := htakes.reads blanks _ hblanks (htrail.delimits (delimits_members ms rest))
    rw [separated_member, hvalue]
    simp only [List.append_assoc]
    obtain ⟨between, hkey, hcolon⟩ := key?_named (Member.key?_eq_some_iff.mp hkey) hlead _
    rw [Reader.members, bind_of_ok hkey]
    dsimp only
    rw [bind_of_ok hcolon, bind_of_ok hitem, bind_of_ok hmore]
    rfl

/-- A record that is read is a brace, members for its entries, and the closing brace. -/
theorem object_eq_ok (hitem : CutsTo item written) {more : List Char} {xs : List (String × α)}
    (h : Reader.object item ('\x7b' :: more) = .ok (xs, rest)) :
    ∃ lead ms, '\x7b' :: more = objectText lead ms ++ rest ∧ Blank lead
      ∧ List.Forall₂ (Member.Holds written) ms xs := by
  rw [Reader.object, bind_of_ok drop_cons, bind_of_ok length_eq] at h
  obtain ⟨ys, between, hys, hclose⟩ := exists_of_bind h
  obtain ⟨lead, ms, tail, rfl, hlead, rfl, hms⟩ := exists_members_of_members hitem hys
  rw [bind_of_ok drop_cons] at hclose
  obtain ⟨rfl, rfl⟩ := Prod.mk.inj (Except.ok.inj hclose)
  exact ⟨lead, ms, (objectText_append ..).symm, hlead, hms⟩

/-- Members between braces are read as the entries they stand for. -/
theorem object_objectText {ms : List Member} {xs : List (String × α)}
    (h : List.Forall₂ (Member.Holds (Takes item)) ms xs) (hlead : Blank lead) (rest : List Char) :
    Reader.object item (objectText lead ms ++ rest) = .ok (xs, rest) := by
  rw [objectText_append, Reader.object, bind_of_ok drop_cons, bind_of_ok length_eq]
  have hbound : xs.length
      < (lead ++ (separated true (ms.map Member.text) ++ '\x7d' :: rest)).length + 1 := by
    have hlength := length_le_members ms true
    rw [← h.length_eq, List.length_append, List.length_append]
    omega
  rw [bind_of_ok (members_separated h hlead hbound), bind_of_ok drop_cons]
  rfl

/-! ## Values -/

mutual

/-- The number of containers that are nested in each other. -/
def Value.depth : Value → Nat
  | .array items => Value.itemsDepth items + 1
  | .object members => Value.membersDepth members + 1
  | .null | .boolean _ | .number _ | .string _ => 0

def Value.itemsDepth : List Value → Nat
  | [] => 0
  | item :: items => max item.depth (Value.itemsDepth items)

def Value.membersDepth : List (String × Value) → Nat
  | [] => 0
  | (_, item) :: members => max item.depth (Value.membersDepth members)

end

/-- The text is written for the value, which is read with any room in which it fits. -/
def WrittenFor (room : Nat) (text : List Char) (v : Value) : Prop :=
  v.depth ≤ room ∧ ∀ room', v.depth ≤ room' → Takes (Reader.value room') text v

/-- The items of a list need no more room than there was to read them. -/
theorem itemsDepth_le {room : Nat} {pieces : List (List Char)} {xs : List Value}
    (h : List.Forall₂ (Around (WrittenFor room)) pieces xs) : Value.itemsDepth xs ≤ room := by
  induction h with
  | nil => exact Nat.zero_le _
  | cons hpiece _ ih =>
    obtain ⟨_, _, _, -, -, -, hdepth, -⟩ := hpiece
    exact Nat.max_le.mpr ⟨hdepth, ih⟩

/-- With room for the deepest item, every piece is taken for its item again. -/
theorem takes_of_itemsDepth_le {room room' : Nat} {pieces : List (List Char)} {xs : List Value}
    (h : List.Forall₂ (Around (WrittenFor room)) pieces xs) (hdepth : Value.itemsDepth xs ≤ room') :
    List.Forall₂ (Around (Takes (Reader.value room'))) pieces xs := by
  induction h with
  | nil => exact .nil
  | cons hpiece _ ih =>
    obtain ⟨hfirst, hrest⟩ := Nat.max_le.mp hdepth
    exact .cons (hpiece.imp fun _ hwritten => hwritten.2 room' hfirst) (ih hrest)

theorem membersDepth_le {room : Nat} {ms : List Member} {xs : List (String × Value)}
    (h : List.Forall₂ (Member.Holds (WrittenFor room)) ms xs) : Value.membersDepth xs ≤ room := by
  induction h with
  | nil => exact Nat.zero_le _
  | cons hmember _ ih =>
    obtain ⟨-, _, _, _, -, -, -, hdepth, -⟩ := hmember
    exact Nat.max_le.mpr ⟨hdepth, ih⟩

/-- With room for the deepest value, every member holds its entry again. -/
theorem takes_of_membersDepth_le {room room' : Nat} {ms : List Member} {xs : List (String × Value)}
    (h : List.Forall₂ (Member.Holds (WrittenFor room)) ms xs)
    (hdepth : Value.membersDepth xs ≤ room') :
    List.Forall₂ (Member.Holds (Takes (Reader.value room'))) ms xs := by
  induction h with
  | nil => exact .nil
  | cons hmember _ ih =>
    obtain ⟨hfirst, hrest⟩ := Nat.max_le.mp hdepth
    exact .cons ⟨hmember.1, hmember.2.imp fun _ hwritten => hwritten.2 room' hfirst⟩ (ih hrest)

/-- A list of values is taken as a value with one level of room more than its items have. -/
theorem Takes.array {room : Nat} {pieces : List (List Char)} {xs : List Value}
    (h : List.Forall₂ (Around (Takes (Reader.value room))) pieces xs) (hlead : Blank lead) :
    Takes (Reader.value (room + 1)) (arrayText lead pieces) (.array xs) := by
  refine ⟨startsItem_arrayText lead pieces, fun blanks rest hblanks _ => ?_⟩
  have harray := array_arrayText h hlead rest
  rw [arrayText_append] at harray ⊢
  rw [Reader.value, bind_of_ok (peek?_blanks hblanks rfl)]
  simp only [reduceIte]
  rw [bind_of_ok harray]
  rfl

/-- A record is taken as a value with one level of room more than its values have. -/
theorem Takes.object {room : Nat} {ms : List Member} {xs : List (String × Value)}
    (h : List.Forall₂ (Member.Holds (Takes (Reader.value room))) ms xs) (hlead : Blank lead) :
    Takes (Reader.value (room + 1)) (objectText lead ms) (.object xs) := by
  refine ⟨startsItem_objectText lead ms, fun blanks rest hblanks _ => ?_⟩
  have hobject := object_objectText h hlead rest
  rw [objectText_append] at hobject ⊢
  rw [Reader.value, bind_of_ok (peek?_blanks hblanks rfl)]
  simp only [Char.reduceEq, reduceIte]
  rw [bind_of_ok hobject]
  rfl

theorem depth_of_scalar {v : Value} (h : scalar cs = .ok (v, rest)) : v.depth = 0 := by
  obtain rfl | ⟨b, rfl⟩ | ⟨s, rfl⟩ | ⟨n, more, rfl, -⟩ := scalar_eq_ok h <;> rfl

/-- No scalar starts with a bracket or a brace. -/
theorem scalar_ne_ok_of_open {c : Char} (hc : c = '[' ∨ c = '\x7b') {more : List Char} {v : Value} :
    scalar (c :: more) ≠ .ok (v, rest) := by
  have hscalar : scalar (c :: more) = .error .malformed := by
    rcases hc with rfl | rfl
    · rw [← List.nil_append ('[' :: more), scalar, bind_of_ok (peek?_blanks blank_nil rfl)]
      rfl
    · rw [← List.nil_append ('\x7b' :: more), scalar, bind_of_ok (peek?_blanks blank_nil rfl)]
      rfl
  rw [hscalar]
  intro heq
  cases heq

/-- A value without containers is read with any room. -/
theorem cutsTo_scalar (room : Nat) : CutsTo scalar (WrittenFor room) := by
  intro cs rest v hv
  obtain ⟨blanks, text, hcs, hblanks, htakes⟩ := cuts_scalar hv
  have hdepth : v.depth ≤ room := by
    rw [depth_of_scalar hv]
    exact Nat.zero_le _
  refine ⟨blanks, text, hcs, hblanks, hdepth, fun room' _ => ?_⟩
  obtain ⟨c, more, rfl, -⟩ := htakes.starts
  have hopen : ∀ d, d = '[' ∨ d = '\x7b' → c ≠ d := by
    rintro d hd rfl
    exact scalar_ne_ok_of_open hd htakes.eq_ok
  exact htakes.value (hopen _ (.inl rfl)) (hopen _ (.inr rfl)) room'

/-- **A value is read** with any room in which its containers fit. -/
theorem cutsTo_value (room : Nat) : CutsTo (Reader.value room) (WrittenFor room) := by
  -- what stands inside of a container is read with one level less
  induction room with
  | zero => exact cutsTo_scalar 0
  | succ room ih =>
    intro cs rest v hv
    obtain ⟨blanks, c, more, rfl, hblanks, hc, hv⟩ := exists_of_peek? rfl hv
    dsimp only at hv
    split at hv
    · next hopen =>
      subst hopen
      obtain ⟨xs, between, hxs, hv⟩ := exists_of_bind hv
      obtain ⟨rfl, rfl⟩ := Prod.mk.inj (Except.ok.inj hv)
      obtain ⟨lead, pieces, htext, hlead, hpieces⟩ := array_eq_ok ih hxs
      refine ⟨blanks, _, by rw [htext], hblanks, Nat.succ_le_succ (itemsDepth_le hpieces), ?_⟩
      intro room' hroom
      obtain ⟨less, rfl⟩ := Nat.exists_eq_succ_of_ne_zero (Nat.ne_zero_of_lt hroom)
      have hitems := takes_of_itemsDepth_le hpieces (Nat.le_of_succ_le_succ hroom)
      exact .array hitems hlead
    split at hv
    · next hopen =>
      subst hopen
      obtain ⟨xs, between, hxs, hv⟩ := exists_of_bind hv
      obtain ⟨rfl, rfl⟩ := Prod.mk.inj (Except.ok.inj hv)
      obtain ⟨lead, ms, htext, hlead, hms⟩ := object_eq_ok ih hxs
      refine ⟨blanks, _, by rw [htext], hblanks, Nat.succ_le_succ (membersDepth_le hms), ?_⟩
      intro room' hroom
      obtain ⟨less, rfl⟩ := Nat.exists_eq_succ_of_ne_zero (Nat.ne_zero_of_lt hroom)
      have hmembers := takes_of_membersDepth_le hms (Nat.le_of_succ_le_succ hroom)
      exact .object hmembers hlead
    · obtain ⟨lead, text, heq, hlead, hwritten⟩ := cutsTo_scalar (room + 1) hv
      exact ⟨blanks ++ lead, text, by rw [heq, List.append_assoc], hblanks.append hlead, hwritten⟩

theorem cuts_value (room : Nat) : Cuts (Reader.value room) := by
  intro cs rest v hv
  obtain ⟨blanks, text, hcs, hblanks, hdepth, htakes⟩ := cutsTo_value room hv
  exact ⟨blanks, text, hcs, hblanks, htakes room hdepth⟩

end FormulaSheet.Json
