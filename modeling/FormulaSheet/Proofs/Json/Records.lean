import FormulaSheet.Json.Record
import FormulaSheet.Proofs.Json.Skipping

/-!
# FormulaSheet — the texts of records

A record is written as an object, whose members fill a draft one after the other (`Filled`), or as an
array, whose pieces are its fields in their order (`Listed`). A reader of records takes such texts
(`Drafted.takes`) and no others (`cutsTo_read`), if the readers of its fields take texts that do not
depend on what stands behind them.
-/

namespace FormulaSheet.Json

open Reader

variable {α β δ : Type} {format : RecordFormat δ α} {room index : Nat} {draft next final : δ}
  {cs rest lead : List Char} {isFirst : Bool} {bound : Nat}

/-! ## Members of a record -/

/-- Reads the value under a key: that of a field into the draft, which must not have it yet, and any
other one not at all. -/
def RecordFormat.readMember (format : RecordFormat δ α) (room : Nat) (draft : δ) (key : String) :
    Reader δ :=
  match format.field? key with
  | none => (fun _ => draft) <$> skip
  | some field =>
    if field.isSet draft then refuse (.duplicateField key) else field.read room draft

/-- The members fill the first draft up to the second. -/
inductive Filled (format : RecordFormat δ α) (room : Nat) : δ → List Member → δ → Prop
  | nil (draft : δ) : Filled format room draft [] draft
  | cons {draft next final : δ} {m : Member} {ms : List Member} {key : String}
      (hkey : m.key? = some key)
      (hread : Around (Takes (format.readMember room draft key)) m.value next)
      (hms : Filled format room next ms final) : Filled format room draft (m :: ms) final

/-- The readers of all fields take texts that do not depend on what stands behind. -/
def RecordFormat.CutsFields (format : RecordFormat δ α) : Prop :=
  ∀ field ∈ format.fields, ∀ room draft, Cuts (field.read room draft)

/-- A member is cut out of its text by its field, or as a value that is skipped. -/
theorem cuts_readMember (h : format.CutsFields) (room : Nat) (draft : δ) (key : String) :
    Cuts (format.readMember room draft key) := by
  rw [RecordFormat.readMember]
  split
  · exact cuts_skip.map _
  · next field hfield =>
    split
    · intro cs rest x hx
      cases hx
    · exact h field (List.mem_of_find?_eq_some hfield) room draft

/-- One step of reading members: behind a key and a colon the value is read, and then the others. -/
theorem readMembers_of_key? {key : String} {between afterColon afterValue : List Char}
    (hkey : key? isFirst cs = .ok (some key, between)) (hcolon : colon between = .ok ((), afterColon))
    (hread : format.readMember room draft key afterColon = .ok (next, afterValue)) :
    format.readMembers room (bound + 1) isFirst draft cs
      = format.readMembers room bound false next afterValue := by
  rw [RecordFormat.readMember] at hread
  rw [RecordFormat.readMembers, bind_of_ok hkey]
  dsimp only
  cases hfield : format.field? key with
  | none =>
    rw [hfield] at hread
    -- a key without a field: its value is skipped and the draft kept
    obtain ⟨⟨⟩, hskip, rfl⟩ := exists_of_map hread
    dsimp only
    rw [bind_of_ok hcolon, bind_of_ok hskip]
  | some field =>
    rw [hfield] at hread
    dsimp only at hread ⊢
    -- a field that is set already is refused
    split at hread
    · cases hread
    · next hunset => rw [if_neg hunset, bind_of_ok hcolon, bind_of_ok hread]

/-- Behind a key its colon is read, then its member, then the further ones. -/
theorem exists_of_readMembers {key : String} {between : List Char}
    (hkey : key? isFirst cs = .ok (some key, between))
    (h : format.readMembers room (bound + 1) isFirst draft cs = .ok (final, rest)) :
    ∃ afterColon next afterValue, colon between = .ok ((), afterColon)
      ∧ format.readMember room draft key afterColon = .ok (next, afterValue)
      ∧ format.readMembers room bound false next afterValue = .ok (final, rest) := by
  rw [RecordFormat.readMembers, bind_of_ok hkey] at h
  dsimp only at h
  rw [RecordFormat.readMember]
  cases hfield : format.field? key with
  -- a key that no field has is read over
  | none =>
    rw [hfield] at h
    obtain ⟨⟨⟩, afterColon, hcolon, hread⟩ := exists_of_bind h
    obtain ⟨⟨⟩, afterValue, hskip, hmembers⟩ := exists_of_bind hread
    exact ⟨afterColon, draft, afterValue, hcolon, map_of_ok _ hskip, hmembers⟩
  | some field =>
    rw [hfield] at h
    dsimp only at h ⊢
    split at h
    · cases h
    · next hunset =>
      obtain ⟨⟨⟩, afterColon, hcolon, hread⟩ := exists_of_bind h
      obtain ⟨next, afterValue, hvalue, hmembers⟩ := exists_of_bind hread
      rw [if_neg hunset]
      exact ⟨afterColon, next, afterValue, hcolon, hvalue, hmembers⟩

/-- Members that are read fill the draft in the order of the text. Induction on the bound. -/
theorem exists_members_of_readMembers (hformat : format.CutsFields)
    (h : format.readMembers room bound isFirst draft cs = .ok (final, rest)) :
    ∃ lead ms more, cs = lead ++ (separated isFirst (ms.map Member.text) ++ rest) ∧ Blank lead
      ∧ rest = '\x7d' :: more ∧ Filled format room draft ms final := by
  -- the bound falls with each member, and the draft that is filled so far is the state
  induction bound generalizing cs isFirst draft with
  | zero => cases h
  | succ bound ih =>
    have hread := h
    rw [RecordFormat.readMembers] at hread
    obtain ⟨key?, between, hkey, hread⟩ := exists_of_bind hread
    cases key? with
    | none =>
      obtain ⟨rfl, rfl⟩ := Prod.mk.inj (Except.ok.inj hread)
      obtain ⟨lead, more, rfl, hlead, hclose⟩ := key?_eq_none hkey
      exact ⟨lead, [], more, rfl, hlead, hclose, .nil _⟩
    | some key =>
      obtain ⟨afterColon, next, afterValue, hcolon, hvalue, hmembers⟩ := exists_of_readMembers hkey h
      obtain ⟨lead, name, rfl, hlead, hname⟩ := exists_name_of_key? hkey hcolon
      obtain ⟨blanks, text, rfl, hblanks, htakes⟩ :=
        cuts_readMember hformat room draft key hvalue
      obtain ⟨trail, ms, more, rfl, htrail, hclose, hms⟩ := ih hmembers
      have hfilled : Filled format room draft (⟨name, blanks ++ (text ++ trail)⟩ :: ms) final :=
        .cons (Member.key?_eq_some_iff.mpr hname) ⟨blanks, text, trail, rfl, hblanks, htrail, htakes⟩
          hms
      refine ⟨lead, _, more, ?_, hlead, hclose, hfilled⟩
      rw [separated_member]
      simp only [List.append_assoc]

/-- Members that fill a draft are read so, up to the closing brace. Induction on how they fill
it. -/
theorem Filled.readMembers {ms : List Member} (h : Filled format room draft ms final)
    (hlead : Blank lead) (hbound : ms.length < bound) :
    format.readMembers room bound isFirst draft
        (lead ++ (separated isFirst (ms.map Member.text) ++ '\x7d' :: rest))
      = .ok (final, '\x7d' :: rest) := by
  induction h generalizing bound isFirst lead with
  | nil draft =>
    obtain ⟨bound, rfl⟩ := Nat.exists_eq_succ_of_ne_zero (Nat.ne_zero_of_lt hbound)
    show format.readMembers room (bound + 1) isFirst draft (lead ++ '\x7d' :: rest) = _
    rw [RecordFormat.readMembers, bind_of_ok (key?_close hlead)]
    rfl
  | @cons draft next final m ms key hkey hread _ ih =>
    obtain ⟨bound, rfl⟩ := Nat.exists_eq_succ_of_ne_zero (Nat.ne_zero_of_lt hbound)
    obtain ⟨blanks, text, trail, hvalue, hblanks, htrail, htakes⟩ := hread
    have hmore : format.readMembers room bound false next
        (trail ++ (separated false (ms.map Member.text) ++ '\x7d' :: rest)) = _ :=
      ih htrail (Nat.lt_of_succ_lt_succ hbound)
    -- the value ends at the comma or the brace behind it
    have hmember := htakes.reads blanks _ hblanks (htrail.delimits (delimits_members ms rest))
    rw [separated_member, hvalue]
    simp only [List.append_assoc]
    obtain ⟨between, hkey, hcolon⟩ := key?_named (Member.key?_eq_some_iff.mp hkey) hlead _
    rw [readMembers_of_key? hkey hcolon hmember, hmore]

/-! ## Fields in their order -/

/-- The pieces are read as the first of the fields, and the others are optional. -/
inductive Listed (room : Nat) : List (Field δ) → δ → List (List Char) → δ → Prop
  | done {fields : List (Field δ)} (draft : δ) (h : ∀ field ∈ fields, field.isOptional = true) :
      Listed room fields draft [] draft
  | cons {field : Field δ} {fields : List (Field δ)} {draft next final : δ} {piece : List Char}
      {pieces : List (List Char)} (hread : Around (Takes (field.read room draft)) piece next)
      (hpieces : Listed room fields next pieces final) :
      Listed room (field :: fields) draft (piece :: pieces) final

/-- At the closing bracket, nothing is left to be read but optional fields. -/
theorem readItems_close {fields : List (Field δ)} {more : List Char}
    (h : format.readItems room index fields draft (']' :: more) = .ok (final, rest)) :
    final = draft ∧ rest = ']' :: more ∧ ∀ field ∈ fields, field.isOptional = true := by
  induction fields generalizing index with
  | nil =>
    obtain ⟨rfl, rfl⟩ := Prod.mk.inj (Except.ok.inj h)
    exact ⟨rfl, rfl, List.forall_mem_nil _⟩
  | cons field fields ih =>
    -- no item is due at the bracket, so the fields that are left take their defaults
    have hclose : another? (index == 0) ([] ++ ']' :: more) = _ := another?_close blank_nil
    rw [RecordFormat.readItems, ← List.nil_append (']' :: more), bind_of_ok hclose] at h
    simp only [Bool.false_eq_true, reduceIte] at h
    split at h
    · next hoptional =>
      obtain ⟨hfinal, hrest, hfields⟩ := ih h
      exact ⟨hfinal, hrest, List.forall_mem_cons.mpr ⟨hoptional, hfields⟩⟩
    · cases h

/-- A list may end where only fields are left that may be missing. -/
theorem readItems_of_optional {fields : List (Field δ)}
    (h : ∀ field ∈ fields, field.isOptional = true) (hlead : Blank lead) {more : List Char} :
    ∃ lead', Blank lead' ∧ format.readItems room index fields draft (lead ++ ']' :: more)
      = .ok (draft, lead' ++ ']' :: more) := by
  induction fields generalizing index lead with
  | nil => exact ⟨lead, hlead, rfl⟩
  | cons field fields ih =>
    obtain ⟨hfield, hfields⟩ := List.forall_mem_cons.mp h
    -- the first field is skipped without taking its blanks, and so are the others
    obtain ⟨lead', hlead', hread⟩ : ∃ lead', Blank lead' ∧ format.readItems room (index + 1) fields
        draft ([] ++ ']' :: more) = .ok (draft, lead' ++ ']' :: more) := ih hfields blank_nil
    refine ⟨lead', hlead', ?_⟩
    rw [RecordFormat.readItems, bind_of_ok (another?_close hlead)]
    simp only [Bool.false_eq_true, reduceIte]
    rw [if_pos hfield]
    exact hread

/-- A list is closed behind blanks. -/
theorem closeArray_eq_ok (h : RecordFormat.closeArray cs = .ok ((), rest)) :
    ∃ blanks, cs = blanks ++ ']' :: rest ∧ Blank blanks :=
  Reader.exists_of_mark h

theorem closeArray_blanks (hlead : Blank lead) :
    RecordFormat.closeArray (lead ++ ']' :: rest) = .ok ((), rest) := by
  rw [RecordFormat.closeArray, bind_of_ok (peek?_blanks hlead rfl)]
  rfl

/-- Fields that are read in their order stand in the text one after the other, and the list ends
behind them. Induction on the fields. -/
theorem exists_pieces_of_readItems {fields : List (Field δ)} {between : List Char}
    (hfields : ∀ field ∈ fields, ∀ room draft, Cuts (field.read room draft))
    (h : format.readItems room index fields draft cs = .ok (final, between))
    (hclose : RecordFormat.closeArray between = .ok ((), rest)) :
    ∃ lead pieces, cs = lead ++ (separated (index == 0) pieces ++ ']' :: rest) ∧ Blank lead
      ∧ Listed room fields draft pieces final := by
  -- the fields that are left are the induction's, and at most the last of them are missing
  induction fields generalizing index draft cs with
  | nil =>
    obtain ⟨rfl, rfl⟩ := Prod.mk.inj (Except.ok.inj h)
    obtain ⟨lead, rfl, hlead⟩ := closeArray_eq_ok hclose
    exact ⟨lead, [], rfl, hlead, .done _ (List.forall_mem_nil _)⟩
  | cons field fields ih =>
    obtain ⟨hfield, hfields⟩ := List.forall_mem_cons.mp hfields
    rw [RecordFormat.readItems] at h
    obtain ⟨another, afterComma, hanother, hread⟩ := exists_of_bind h
    cases another with
    | true =>
      obtain ⟨next, afterField, hnext, hrest⟩ := exists_of_bind hread
      obtain ⟨lead, gap, rfl, hlead, hgap⟩ := another?_eq_true hanother
      obtain ⟨blanks, text, rfl, hblanks, htakes⟩ := hfield room draft hnext
      obtain ⟨trail, pieces, rfl, htrail, hpieces⟩ := ih hfields hrest
      have hpiece : Around (Takes (field.read room draft)) (gap ++ blanks ++ (text ++ trail)) next :=
        ⟨_, text, trail, rfl, hgap.append hblanks, htrail, htakes⟩
      refine ⟨lead, _, ?_, hlead, .cons hpiece hpieces⟩
      simp only [separated, List.append_assoc]
      rfl
    | false =>
      obtain ⟨lead, more, rfl, hlead, rfl⟩ := another?_eq_false hanother
      simp only [Bool.false_eq_true, reduceIte] at hread
      split at hread
      · next hoptional =>
        obtain ⟨rfl, rfl, hfields⟩ := readItems_close hread
        have hmore : RecordFormat.closeArray ([] ++ ']' :: more) = .ok ((), more) :=
          closeArray_blanks blank_nil
        obtain ⟨-, rfl⟩ := Prod.mk.inj (Except.ok.inj (hmore.symm.trans hclose))
        exact ⟨lead, [], rfl, hlead, .done _ (List.forall_mem_cons.mpr ⟨hoptional, hfields⟩)⟩
      · cases hread

/-- Pieces that stand for the fields in their order are read so, up to the closing bracket. -/
theorem Listed.readItems {fields : List (Field δ)} {pieces : List (List Char)}
    (h : Listed room fields draft pieces final) (hlead : Blank lead) :
    ∃ between, format.readItems room index fields draft
        (lead ++ (separated (index == 0) pieces ++ ']' :: rest)) = .ok (final, between)
      ∧ RecordFormat.closeArray between = .ok ((), rest) := by
  induction h generalizing index lead with
  | done draft h =>
    obtain ⟨lead', hlead', hread⟩ := readItems_of_optional h hlead
    exact ⟨_, hread, closeArray_blanks hlead'⟩
  | @cons field fields draft next final piece pieces hread _ ih =>
    obtain ⟨gap, text, trail, rfl, hgap, htrail, ⟨c, more, rfl, hc, hclose⟩, hreads⟩ := hread
    obtain ⟨between, hmore, hend⟩ : ∃ between, format.readItems room (index + 1) fields next
        (trail ++ (separated false pieces ++ ']' :: rest)) = .ok (final, between)
        ∧ RecordFormat.closeArray between = .ok ((), rest) := ih htrail
    refine ⟨between, ?_, hend⟩
    -- a field ends where blanks, a comma or the bracket starts
    have hdelimits : Delimits (trail ++ (separated false pieces ++ ']' :: rest)) :=
      htrail.delimits (delimits_separated _ (delimits_cons _ (by decide)))
    have hfield := hreads [] _ blank_nil hdelimits
    rw [List.nil_append, List.cons_append] at hfield
    simp only [separated, List.append_assoc, List.cons_append]
    rw [RecordFormat.readItems,
      bind_of_ok ((another?_append hlead _).trans (another?_item hgap hc hclose)), if_pos rfl,
      bind_of_ok hfield]
    exact hmore

/-! ## Records -/

/-- The text of a record, in either form, from which the draft is read. -/
inductive Drafted (format : RecordFormat δ α) : Nat → List Char → δ → Prop
  | object {room : Nat} {lead : List Char} {ms : List Member} {final : δ} (hlead : Blank lead)
      (h : Filled format room format.blank ms final) :
      Drafted format (room + 1) (objectText lead ms) final
  | array {room : Nat} {lead : List Char} {pieces : List (List Char)} {final : δ}
      (hlead : Blank lead) (h : Listed room format.fields format.blank pieces final) :
      Drafted format (room + 1) (arrayText lead pieces) final

/-- A text that gives a draft is taken for what is built from the draft. -/
theorem Drafted.takes {text : List Char} {x : α} (h : Drafted format room text final)
    (hbuild : format.build final = .ok x) : Takes (format.read room) text x := by
  cases h with
  | @object room lead ms _ hlead h =>
    refine ⟨startsItem_objectText lead ms, fun blanks rest hblanks _ => ?_⟩
    rw [objectText_append, RecordFormat.read, bind_of_ok (peek?_blanks hblanks rfl)]
    simp only [reduceIte]
    rw [bind_of_ok drop_cons, bind_of_ok length_eq]
    -- the bound on the members is the length of the text, which none of them exceeds
    have hbound : ms.length
        < (lead ++ (separated true (ms.map Member.text) ++ '\x7d' :: rest)).length + 1 := by
      have hlength := length_le_members ms true
      rw [List.length_append, List.length_append]
      omega
    rw [bind_of_ok (h.readMembers hlead hbound), bind_of_ok (finish_of_ok hbuild)]
    rfl
  | @array room lead pieces _ hlead h =>
    refine ⟨startsItem_arrayText lead pieces, fun blanks rest hblanks _ => ?_⟩
    obtain ⟨between, hread, hclose⟩ : ∃ between, format.readItems room 0 format.fields format.blank
        (lead ++ (separated true pieces ++ ']' :: rest)) = .ok (final, between)
        ∧ RecordFormat.closeArray between = .ok ((), rest) := h.readItems hlead
    rw [arrayText_append, RecordFormat.read, bind_of_ok (peek?_blanks hblanks rfl)]
    simp only [Char.reduceEq, reduceIte]
    rw [bind_of_ok drop_cons, bind_of_ok hread, bind_of_ok hclose, finish_of_ok hbuild]

theorem finish_eq_ok {x : α} (h : format.finish draft cs = .ok (x, rest)) :
    format.build draft = .ok x ∧ rest = cs := by
  rw [RecordFormat.finish] at h
  cases hbuild : format.build draft with
  | error reason =>
    rw [hbuild] at h
    cases h
  | ok y =>
    rw [hbuild] at h
    obtain ⟨rfl, rfl⟩ := Prod.mk.inj (Except.ok.inj h)
    exact ⟨rfl, rfl⟩

/-- **A record is read** from a text of its draft. -/
theorem cutsTo_read (hformat : format.CutsFields) (room : Nat) :
    CutsTo (format.read room) fun text x =>
      ∃ final, Drafted format room text final ∧ format.build final = .ok x := by
  intro cs rest x hx
  obtain ⟨blanks, c, more, rfl, hblanks, -, h⟩ := exists_of_peek? rfl hx
  dsimp only at h
  split at h
  · next hopen =>
    subst hopen
    cases room with
    | zero => cases h
    | succ room =>
      dsimp only at h
      rw [bind_of_ok drop_cons, bind_of_ok length_eq] at h
      obtain ⟨final, between, hmembers, hbehind⟩ := exists_of_bind h
      -- the draft is complete at the closing brace, which is dropped last
      obtain ⟨y, afterFinish, hfinish, hclose⟩ := exists_of_bind hbehind
      obtain ⟨hbuild, rfl⟩ := finish_eq_ok hfinish
      obtain ⟨lead, ms, tail, rfl, hlead, rfl, hms⟩ := exists_members_of_readMembers hformat hmembers
      rw [bind_of_ok drop_cons] at hclose
      obtain ⟨rfl, rfl⟩ := Prod.mk.inj (Except.ok.inj hclose)
      exact ⟨blanks, _, by rw [objectText_append], hblanks, final, .object hlead hms, hbuild⟩
  split at h
  · next hopen =>
    subst hopen
    cases room with
    | zero => cases h
    | succ room =>
      dsimp only at h
      rw [bind_of_ok drop_cons] at h
      obtain ⟨final, between, hitems, hbehind⟩ := exists_of_bind h
      -- here the bracket is closed first
      obtain ⟨⟨⟩, afterClose, hclose, hfinish⟩ := exists_of_bind hbehind
      obtain ⟨hbuild, rfl⟩ := finish_eq_ok hfinish
      obtain ⟨lead, pieces, rfl, hlead, hpieces⟩ :=
        exists_pieces_of_readItems hformat hitems hclose
      exact ⟨blanks, _, by rw [arrayText_append]; rfl, hblanks, final, .array hlead hpieces, hbuild⟩
  · exact absurd h (refuseFound_ne_ok _ _)

/-- A record is cut out of its text if its fields are. -/
theorem cuts_read (hformat : format.CutsFields) (room : Nat) : Cuts (format.read room) := by
  intro cs rest x hx
  obtain ⟨blanks, text, hcs, hblanks, final, hdrafted, hbuild⟩ := cutsTo_read hformat room hx
  exact ⟨blanks, text, hcs, hblanks, hdrafted.takes hbuild⟩

end FormulaSheet.Json
