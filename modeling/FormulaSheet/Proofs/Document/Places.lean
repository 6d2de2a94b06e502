import FormulaSheet.Document.Reading
import FormulaSheet.Proofs.Json.Places

/-!
# FormulaSheet — the place of a modifier in the text of a document

In the text of a document every modifier has its place, and what is read there is a modifier of its
own: another one can stand in it, and the document is read with that one and is the same otherwise
(`Document.hasPlace_modifier`). The way leads through four fields and items, each of which has its
place in the text of the one before it.
-/

namespace FormulaSheet

open Json (Field HasPlace Reader Slot Takes bind_eq_of_ok cutsTo_read cuts_read cuts_value
  exists_of_bind_eq_ok hasPlace_field hasPlace_item required)
open Json.Reader (Cuts cuts_text cuts_word32)
open Json.Slot (apart_of)

/-! ## Fields -/

/-- The text of a field does not depend on what stands behind it if that of its value does not. -/
theorem Json.Field.cuts_of {δ β : Type} {key : String} {isOptional : Bool} {get : δ → Option β}
    {set : δ → β → δ} {item : Nat → Reader β} (h : ∀ room, Cuts (item room)) (room : Nat)
    (draft : δ) : Cuts ((Field.of key isOptional get set item).read room draft) :=
  (h room).map (set draft)

theorem Row.cutsFields : Row.format.CutsFields := by
  intro field hmem
  simp only [Row.format, List.mem_cons, List.not_mem_nil, or_false] at hmem
  rcases hmem with rfl | rfl | rfl <;> exact Field.cuts_of fun _ => cuts_text

/-- Every field of a modifier is cut out of its text, the ones that may be any value included. -/
theorem Modifier.cutsFields : Modifier.format.CutsFields := by
  intro field hmem
  simp only [Modifier.format, List.mem_cons, List.not_mem_nil, or_false] at hmem
  rcases hmem with rfl | rfl | rfl | rfl
  · exact Field.cuts_of fun _ => cuts_text
  · exact Field.cuts_of fun _ => cuts_text
  · exact Field.cuts_of fun room => (cuts_value room).map _
  · exact Field.cuts_of fun room => (cuts_value room).map _

/-- Every field of a buff is cut out of its text, its modifiers by their own fields. -/
theorem Buff.cutsFields : Buff.format.CutsFields := by
  intro field hmem
  simp only [Buff.format, List.mem_cons, List.not_mem_nil, or_false] at hmem
  rcases hmem with rfl | rfl | rfl
  · exact Field.cuts_of fun _ => cuts_text
  · exact Field.cuts_of fun _ => cuts_text
  · exact Field.cuts_of (Cuts.list (cuts_read Modifier.cutsFields))

theorem ActivationSet.cuts_read (room : Nat) : Cuts (ActivationSet.read room) :=
  (Cuts.list (fun _ => cuts_text) room).map _

theorem Scenario.cutsFields : Scenario.format.CutsFields := by
  intro field hmem
  simp only [Scenario.format, List.mem_cons, List.not_mem_nil, or_false] at hmem
  rcases hmem with rfl | rfl | rfl
  · exact Field.cuts_of fun _ => cuts_text
  · exact Field.cuts_of fun _ => cuts_text
  · exact Field.cuts_of ActivationSet.cuts_read

/-- Every field of a document is cut out of its text, by the fields of all its parts. -/
theorem Document.cutsFields : Document.format.CutsFields := by
  intro field hmem
  simp only [Document.format, List.mem_cons, List.not_mem_nil, or_false] at hmem
  rcases hmem with rfl | rfl | rfl | rfl | rfl | rfl | rfl
  · exact Field.cuts_of fun _ => cuts_word32
  · exact Field.cuts_of (Cuts.list (cuts_read Row.cutsFields))
  · exact Field.cuts_of (Cuts.list (cuts_read Buff.cutsFields))
  · exact Field.cuts_of ActivationSet.cuts_read
  · exact Field.cuts_of fun _ => cuts_text.optional
  · exact Field.cuts_of (Cuts.list (cuts_read Scenario.cutsFields))
  · exact Field.cuts_of fun _ => cuts_text.optional

/-! ## Slots -/

def Modifier.kindSlot : Slot ModifierDraft ModifierKind where
  get := ModifierDraft.kind
  put draft kind := { draft with kind := kind }
  get_put _ _ := rfl
  put_put _ _ _ := rfl
  put_get _ := rfl

def Modifier.valueSlot : Slot ModifierDraft Float where
  get := ModifierDraft.value
  put draft value := { draft with value := value }
  get_put _ _ := rfl
  put_put _ _ _ := rfl
  put_get _ := rfl

def Buff.modsSlot : Slot BuffDraft (List Modifier) where
  get := BuffDraft.mods
  put draft mods := { draft with mods := mods }
  get_put _ _ := rfl
  put_put _ _ _ := rfl
  put_get _ := rfl

def Document.buffsSlot : Slot DocumentDraft (List Buff) where
  get := DocumentDraft.buffs
  put draft buffs := { draft with buffs := buffs }
  get_put _ _ := rfl
  put_put _ _ _ := rfl
  put_get _ := rfl

theorem Modifier.hasField_kind : Modifier.format.HasField Modifier.kindSlot "type"
    fun room => ModifierKind.ofJson <$> Reader.value room where
  blank := rfl
  cuts room := (cuts_value room).map _
  fields := by
    -- the field stands third, and the others have other names and slots
    refine ⟨true, Modifier.format.fields.take 2, Modifier.format.fields.drop 3, rfl, ?_⟩
    intro field hmem
    simp only [Modifier.format, List.take, List.drop, List.cons_append, List.nil_append,
      List.mem_cons, List.not_mem_nil, or_false] at hmem
    rcases hmem with rfl | rfl | rfl
    · exact ⟨by decide, apart_of fun _ => cuts_text⟩
    · exact ⟨by decide, apart_of fun _ => cuts_text⟩
    · exact ⟨by decide, apart_of fun room => (cuts_value room).map _⟩

/-- The member "value" fills the value of a modifier and nothing else. -/
theorem Modifier.hasField_value : Modifier.format.HasField Modifier.valueSlot "value"
    fun room => Modifier.valueOfJson <$> Reader.value room where
  blank := rfl
  cuts room := (cuts_value room).map _
  fields := by
    -- the field stands last
    refine ⟨true, Modifier.format.fields.take 3, [], rfl, ?_⟩
    intro field hmem
    simp only [Modifier.format, List.take, List.append_nil, List.mem_cons, List.not_mem_nil,
      or_false] at hmem
    rcases hmem with rfl | rfl | rfl
    · exact ⟨by decide, apart_of fun _ => cuts_text⟩
    · exact ⟨by decide, apart_of fun _ => cuts_text⟩
    · exact ⟨by decide, apart_of fun room => (cuts_value room).map _⟩

theorem Buff.hasField_mods :
    Buff.format.HasField Buff.modsSlot "mods" (Reader.list Modifier.format.read) where
  blank := rfl
  cuts := Cuts.list (cuts_read Modifier.cutsFields)
  fields := by
    refine ⟨true, Buff.format.fields.take 2, [], rfl, ?_⟩
    intro field hmem
    simp only [Buff.format, List.take, List.append_nil, List.mem_cons, List.not_mem_nil,
      or_false] at hmem
    rcases hmem with rfl | rfl <;> exact ⟨by decide, apart_of fun _ => cuts_text⟩

/-- The member "buffs" fills the buffs of a document and nothing else. -/
theorem Document.hasField_buffs :
    Document.format.HasField Document.buffsSlot "buffs" (Reader.list Buff.format.read) where
  blank := rfl
  cuts := Cuts.list (cuts_read Buff.cutsFields)
  fields := by
    -- the field stands third among seven
    refine ⟨false, Document.format.fields.take 2, Document.format.fields.drop 3, rfl, ?_⟩
    intro field hmem
    simp only [Document.format, List.take, List.drop, List.cons_append, List.nil_append,
      List.mem_cons, List.not_mem_nil, or_false] at hmem
    rcases hmem with rfl | rfl | rfl | rfl | rfl | rfl
    · exact ⟨by decide, apart_of fun _ => cuts_word32⟩
    · exact ⟨by decide, apart_of (Cuts.list (cuts_read Row.cutsFields))⟩
    · exact ⟨by decide, apart_of ActivationSet.cuts_read⟩
    · exact ⟨by decide, apart_of fun _ => cuts_text.optional⟩
    · exact ⟨by decide, apart_of (Cuts.list (cuts_read Scenario.cutsFields))⟩
    · exact ⟨by decide, apart_of fun _ => cuts_text.optional⟩

/-! ## Places -/

namespace Buff

variable {buff : Buff} {m : Modifier} {text : List Char} {room j : Nat}

/-- The modifiers of a buff have a place in its text, if it has any. -/
theorem hasPlace_mods (h : Takes (Buff.format.read (room + 1)) text buff)
    (hm : buff.mods[j]? = some m) :
    HasPlace (Buff.format.read (room + 1)) (Reader.list Modifier.format.read room) text buff.mods
      fun mods => { buff with mods := mods } := by
  obtain ⟨final, hdrafted, hbuild⟩ := (cutsTo_read Buff.cutsFields _).written h
  obtain ⟨id, hid, hbuild⟩ := exists_of_bind_eq_ok hbuild
  obtain ⟨name, hname, hbuild⟩ := exists_of_bind_eq_ok hbuild
  obtain rfl := Except.ok.inj hbuild
  -- a modifier is there, so the list was given
  obtain ⟨mods, hmods⟩ : ∃ mods, final.mods = some mods := by
    cases hmods : final.mods with
    | none =>
      rw [hmods] at hm
      cases hm
    | some mods => exact ⟨mods, rfl⟩
  dsimp only
  rw [hmods, Option.getD_some]
  refine hasPlace_field hdrafted Buff.hasField_mods hmods fun mods' => ?_
  show (required "id" final.id >>= fun id => required "name" final.name >>= fun name => _) = _
  rw [bind_eq_of_ok hid, bind_eq_of_ok hname]
  rfl

end Buff

namespace Document

variable {document : Document} {buff : Buff} {m : Modifier} {text : List Char} {room i j : Nat}

/-- The buffs of a document have a place in its text. -/
theorem hasPlace_buffs (h : Takes (Document.format.read (room + 1)) text document) :
    HasPlace (Document.format.read (room + 1)) (Reader.list Buff.format.read room) text
      document.sheet.buffs fun buffs => { document with sheet.buffs := buffs } := by
  obtain ⟨final, hdrafted, hbuild⟩ := (cutsTo_read Document.cutsFields _).written h
  obtain ⟨rows, hrows, hbuild⟩ := exists_of_bind_eq_ok hbuild
  obtain ⟨buffs, hbuffs, hbuild⟩ := exists_of_bind_eq_ok hbuild
  obtain rfl := Except.ok.inj hbuild
  have hget : final.buffs = some buffs := by
    cases hfinal : final.buffs with
    | none =>
      rw [hfinal] at hbuffs
      cases hbuffs
    | some given =>
      rw [hfinal] at hbuffs
      rw [Except.ok.inj hbuffs]
  refine hasPlace_field hdrafted Document.hasField_buffs hget fun buffs' => ?_
  show (required "rows" final.rows >>= fun rows => _) = _
  rw [bind_eq_of_ok hrows]
  rfl

/-- The document with another modifier in one place of one of its buffs. -/
def setModifier (document : Document) (i j : Nat) (m : Modifier) : Document :=
  { document with
    sheet.buffs := document.sheet.buffs.modify i fun buff => { buff with mods := buff.mods.set j m } }

/-- **A modifier has its place** in the text of the document. -/
theorem hasPlace_modifier (h : Takes (Document.format.read (room + 4)) text document)
    (hbuff : document.sheet.buffs[i]? = some buff) (hm : buff.mods[j]? = some m) :
    HasPlace (Document.format.read (room + 4)) (Modifier.format.read room) text m
      (document.setModifier i j) := by
  have hplace := (hasPlace_buffs h).trans fun _ hbuffs =>
    (hasPlace_item (cuts_read Buff.cutsFields) hbuffs hbuff).trans fun _ hown =>
      (Buff.hasPlace_mods hown hm).trans fun _ hmods =>
        hasPlace_item (cuts_read Modifier.cutsFields) hmods hm
  have hset : document.setModifier i j = fun m' => { document with
      sheet.buffs := document.sheet.buffs.set i { buff with mods := buff.mods.set j m' } } := by
    funext m'
    rw [setModifier, List.modify_eq_set_getElem?, hbuff]
    rfl
  rw [hset]
  exact hplace

end Document

end FormulaSheet
