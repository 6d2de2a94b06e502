import FormulaSheet.Proofs.Document.Places
import FormulaSheet.Proofs.Document.Resaving
import FormulaSheet.Proofs.Json.NotANumber

/-!
# FormulaSheet — modifiers with any type and any value

The type and the value of a modifier are read from any JSON: what makes no sense counts as flat and
as zero, so nothing there makes a document unreadable, and no modifier gets a NaN. The one bound is
that of all nesting, which counts from the document on, so five levels stand above such a value.

* `Modifier.StandsFor` — the number that a modifier takes from a JSON value, or from none.
* `Modifier.Loosened` — the members of an object with another type and another value.
* `Modifier.takes_loosened` — with these the object is read as a modifier.
* `Document.read_loosened` — the headline, on the text of a whole document.
* `Document.deep_value_refused` — a value that can be read, but not inside of a modifier.
-/

namespace FormulaSheet

open Json (Around Drafted Filled HasPlace Member Number Reader Takes Value WrittenFor cutsTo_read cutsTo_value
  cuts_read cuts_value exists_of_bind_eq_ok bind_eq_of_ok nestingLimit objectText required run_eq_ok_iff)
open Json.Member (named others)

/-! ## Numbers -/

theorem Decimal.isNaN_numberOrZero (x : Float) : (numberOrZero x).isNaN = false := by
  rw [numberOrZero]
  split
  · decide
  · next hx => exact Bool.eq_false_iff.mpr hx

theorem Decimal.numberOrZero_eq_self {x : Float} (h : x.isNaN = false) : numberOrZero x = x := by
  rw [numberOrZero, h]
  rfl

namespace Modifier

/-- The number that a modifier takes from a JSON value, or from none: the number itself, that of a
text with blanks around it, or zero if there is no such number. -/
inductive StandsFor : Option Value → Float → Prop
  | number (n : Number) : StandsFor (some (.number n)) n.toDouble
  | text {s : String} {x : Float} (hread : Decimal.readDouble? (Text.trim s.toList) = some x)
      (hx : x.isNaN = false) : StandsFor (some (.string s)) x
  | zero {value? : Option Value} (hnumber : ∀ n, value? ≠ some (.number n))
      (htext : ∀ s x, value? = some (.string s) →
        Decimal.readDouble? (Text.trim s.toList) = some x → x.isNaN = true) : StandsFor value? 0.0

/-- The value of a modifier is a number whatever stands for it in JSON. -/
theorem isNaN_valueOfJson (v : Value) : (valueOfJson v).isNaN = false := by
  cases v with
  | number n => exact Decimal.isNaN_numberOrZero _
  | string s => exact Decimal.isNaN_numberOrZero _
  | null | boolean | array | object =>
    show (0.0 : Float).isNaN = false
    decide

/-- A text stands for the number it reads as, or for zero. -/
theorem standsFor_string (s : String) : StandsFor (some (.string s)) (Decimal.textOrZero s) := by
  rw [Decimal.textOrZero]
  cases hread : Decimal.readDouble? (Text.trim s.toList) with
  | none =>
    -- a text that is no number stands for zero
    rw [Option.getD_none, Decimal.numberOrZero_eq_self (by decide)]
    refine .zero nofun fun s' x hs hx => ?_
    cases hs
    rw [hread] at hx
    cases hx
  | some x =>
    rw [Option.getD_some, Decimal.numberOrZero]
    split
    · next hx =>
      -- so does a text that reads as NaN
      refine .zero nofun fun s' x' hs hx' => ?_
      cases hs
      rw [hread] at hx'
      rwa [← Option.some.inj hx']
    · next hx => exact .text hread (Bool.eq_false_iff.mpr hx)

/-- What is read for a value stands for it, if the value itself is no NaN. -/
theorem standsFor_value {value? : Option Value}
    (hnumber : ∀ n, value? = some (.number n) → n.toDouble.isNaN = false) :
    StandsFor value? ((value?.map valueOfJson).getD 0.0) := by
  cases value? with
  | none => exact .zero nofun nofun
  | some v =>
    cases v with
    | number n =>
      show StandsFor _ (Decimal.numberOrZero n.toDouble)
      rw [Decimal.numberOrZero_eq_self (hnumber n rfl)]
      exact .number n
    | string s => exact standsFor_string s
    -- no other kind of value is a number or a text
    | null | boolean | array | object => exact .zero nofun nofun

/-- Only the word for it makes a modifier multiplicative. -/
theorem kind_eq_multiplicative_iff {type? : Option Value} :
    (type?.map ModifierKind.ofJson).getD .flat = .multiplicative ↔ type? = some (.string "mult") := by
  cases type? with
  | none => exact ⟨nofun, nofun⟩
  | some v =>
    cases v with
    | string s =>
      show (if s = "mult" then ModifierKind.multiplicative else .flat) = .multiplicative ↔ _
      split
      · next hs => exact ⟨fun _ => by rw [hs], fun _ => rfl⟩
      · next hs => exact ⟨nofun, fun heq => absurd (Value.string.inj (Option.some.inj heq)) hs⟩
    | null | boolean | number | array | object => exact ⟨nofun, nofun⟩

/-! ## Drafts -/

theorem exists_of_build {final : ModifierDraft} {m : Modifier} (h : format.build final = .ok m) :
    ∃ id, required "id" final.id = .ok id
      ∧ m = ⟨id, final.target.getD "", final.kind.getD .flat, final.value.getD 0.0⟩ := by
  obtain ⟨id, hid, hm⟩ := exists_of_bind_eq_ok h
  exact ⟨id, hid, (Except.ok.inj hm).symm⟩

/-- The value of a modifier that is read is a number. -/
theorem isNaN_value_of_takes {room : Nat} {text : List Char} {m : Modifier}
    (h : Takes (format.read (room + 1)) text m) : m.value.isNaN = false := by
  obtain ⟨final, hdrafted, hbuild⟩ := (cutsTo_read cutsFields _).written h
  obtain ⟨id, -, rfl⟩ := exists_of_build hbuild
  show (final.value.getD 0.0).isNaN = false
  cases hvalue : final.value with
  | none => decide
  | some x =>
    obtain ⟨_, own, _, -, htakes, -⟩ := hdrafted.exists_place hasField_value hvalue
    obtain ⟨v, -, rfl⟩ := (cuts_value room).exists_of_takes_map htakes
    exact isNaN_valueOfJson v

/-! ## Objects -/

/-- As many arrays and objects can be nested in the value of a modifier: it stands inside of five. -/
def valueRoom : Nat := nestingLimit - 5

/-- The members of an object that is read as the modifier. -/
def HasMembers (m : Modifier) (ms : List Member) : Prop :=
  ∃ final, Filled format valueRoom format.blank ms final ∧ format.build final = .ok m

/-- The member has a JSON value which can be read by itself, and which is not nested too deeply. -/
def Fits (m : Member) (v : Value) : Prop :=
  (Reader.value nestingLimit).run (String.ofList m.value) = .ok v ∧ v.depth ≤ valueRoom

/-- All members stay as they are, but for the type and the value. Of each there is at most one, and
it can be any JSON. -/
structure Loosened (ms ms' : List Member) (type? value? : Option Value) : Prop where
  others_eq : others "type" (others "value" ms') = others "type" (others "value" ms)
  type_fits : List.Forall₂ Fits (named "type" ms') type?.toList
  value_fits : List.Forall₂ Fits (named "value" ms') value?.toList

/-- Every object can be given every value that fits, and lose its type. -/
theorem loosened_cons {ms : List Member} {value : Member} {v : Value}
    (hkey : value.key? = some "value") (hfits : Fits value v) :
    Loosened ms (value :: others "type" (others "value" ms)) none (some v) := by
  -- what is left of the object is named neither way, so it is found under neither name
  have hrest : ∀ m ∈ others "type" (others "value" ms),
      m.key? ≠ some "type" ∧ m.key? ≠ some "value" := by
    intro m hmem
    obtain ⟨hmem, htype⟩ := List.mem_filter.mp hmem
    exact ⟨bne_iff_ne.mp htype, bne_iff_ne.mp (List.mem_filter.mp hmem).2⟩
  have htype : named "type" (others "type" (others "value" ms)) = [] :=
    List.filter_eq_nil_iff.mpr fun m hmem => by simpa using (hrest m hmem).1
  have hvalue : named "value" (others "type" (others "value" ms)) = [] :=
    List.filter_eq_nil_iff.mpr fun m hmem => by simpa using (hrest m hmem).2
  constructor
  · have hothers : others "value" ([] ++ value :: others "type" (others "value" ms)) = _ :=
      Json.others_place hkey
    rw [List.nil_append] at hothers
    rw [hothers, Json.others_of_named_nil hvalue]
    exact Json.others_of_named_nil htype
  · rw [named, List.filter_cons_of_neg (by rw [hkey]; decide)]
    rw [named] at htype
    rw [htype]
    exact .nil
  · have hnamed : named "value" ([] ++ value :: others "type" (others "value" ms)) = [value] :=
      Json.named_place hkey rfl hvalue
    rw [List.nil_append] at hnamed
    rw [hnamed]
    exact .cons hfits .nil

/-- A modifier that is written as an object is one whose members give its fields. -/
theorem exists_members_of_takes {own : List Char} {m : Modifier}
    (h : Takes (format.read (valueRoom + 1)) own m) (hopen : own.head? = some '\x7b') :
    ∃ blanks ms, own = objectText blanks ms ∧ Json.Reader.Blank blanks ∧ m.HasMembers ms := by
  obtain ⟨final, hdrafted, hbuild⟩ := (cutsTo_read cutsFields _).written h
  cases hdrafted with
  | object hblanks hfilled => exact ⟨_, _, rfl, hblanks, final, hfilled, hbuild⟩
  | array => cases hopen

/-- A text that fits is a value as deep as any text by itself may be. -/
theorem Fits.around {m : Member} {v : Value} (h : Fits m v) :
    Around (Takes (Reader.value nestingLimit)) m.value v :=
  (run_eq_ok_iff (cuts_value _)).mp h.1

/-- With less room the value is read as well. -/
theorem Fits.gives {β : Type} {m : Member} {v : Value} (h : Fits m v) (f : Value → β) :
    m.Gives (f <$> Reader.value valueRoom) (f v) := by
  refine h.around.imp fun text htakes => ?_
  have hwritten : WrittenFor nestingLimit text v := (cutsTo_value nestingLimit).written htakes
  exact (hwritten.2 valueRoom h.2).map f

/-- Members that fit give a field what is made of their value. -/
theorem gives_of_fits {β : Type} {ms : List Member} {v? : Option Value}
    (h : List.Forall₂ Fits ms v?.toList) (f : Value → β) :
    List.Forall₂ (Member.Gives (f <$> Reader.value valueRoom)) ms (v?.map f).toList := by
  rw [Option.toList_map, List.forall₂_map_right_iff]
  exact h.imp fun m v hfits => hfits.gives f

theorem isNaN_of_fits {ms : List Member} {value? : Option Value}
    (h : List.Forall₂ Fits ms value?.toList) (n : Number) (hn : value? = some (.number n)) :
    n.toDouble.isNaN = false := by
  subst hn
  obtain ⟨m, _, hfits, -, -⟩ := List.forall₂_cons_right_iff.mp h
  obtain ⟨_, text, _, -, -, -, htakes⟩ := hfits.around
  exact Json.isNaN_of_value htakes.eq_ok

/-- The members of one name are not touched by a change to those of another. -/
theorem named_others (ms : List Member) : named "type" (others "value" ms) = named "type" ms := by
  rw [named, others, named, List.filter_filter]
  refine List.filter_congr fun m _ => ?_
  by_cases hkey : m.key? = some "type"
  · rw [hkey]
    rfl
  · rw [beq_eq_false_iff_ne.mpr hkey, Bool.false_and]

/-- **Another type and another value**, whatever they are, make another modifier. -/
theorem takes_loosened {m : Modifier} {ms ms' : List Member} {type? value? : Option Value}
    {blanks : List Char} (hblanks : Json.Reader.Blank blanks) (hms : m.HasMembers ms)
    (h : Loosened ms ms' type? value?) :
    ∃ m', Takes (format.read (valueRoom + 1)) (objectText blanks ms') m'
      ∧ m'.id = m.id ∧ m'.target = m.target
      ∧ (m'.kind = .multiplicative ↔ type? = some (.string "mult")) ∧ StandsFor value? m'.value := by
  obtain ⟨final, hfilled, hbuild⟩ := hms
  obtain ⟨id, hid, rfl⟩ := exists_of_build hbuild
  -- the value goes, the type changes, and the new value comes
  have hwithout : Filled format valueRoom format.blank (others "value" ms) (valueSlot.put final none) :=
    hfilled.put_others hasField_value none
  have htype := gives_of_fits h.type_fits ModifierKind.ofJson
  rw [← named_others] at htype
  have hkind := hwithout.edit hasField_kind h.others_eq htype
  have hvalue := hkind.insert hasField_value rfl (gives_of_fits h.value_fits valueOfJson)
  refine ⟨⟨id, final.target.getD "", (type?.map ModifierKind.ofJson).getD .flat,
    (value?.map valueOfJson).getD 0.0⟩, (Drafted.object hblanks hvalue).takes ?_, rfl, rfl,
    kind_eq_multiplicative_iff, standsFor_value (isNaN_of_fits h.value_fits)⟩
  show (required "id" final.id >>= fun id => _) = _
  rw [bind_eq_of_ok hid]
  rfl

end Modifier

namespace Document

variable {document : Document}

/-! ## Documents -/

theorem read_eq_ok_iff {text : List Char} :
    read (String.ofList text) = .ok document
      ↔ Around (Takes (Document.format.read nestingLimit)) text document
        ∧ document.version = documentVersion := by
  rw [← run_eq_ok_iff (cuts_read cutsFields _), read]
  cases (Document.format.read nestingLimit).run (String.ofList text) with
  | error e =>
    constructor
    · intro h
      cases h
    · rintro ⟨h, -⟩
      cases h
  | ok found =>
    dsimp only
    -- the version is tested on the document that was read
    split
    · next hversion =>
      rw [Except.ok.injEq, Except.ok.injEq]
      exact ⟨fun h => ⟨h, h ▸ hversion⟩, And.left⟩
    · next hversion =>
      rw [Except.ok.injEq]
      constructor
      · intro h
        cases h
      · rintro ⟨rfl, hdocument⟩
        exact absurd hdocument hversion

/-- A modifier of a document that is read has its own text, and another modifier written there takes
its place and changes nothing else. The places of buffs in the document, of modifiers in the buff
and of the modifier in its list are put together. -/
theorem exists_place_of_read {source : String} (h : read source = .ok document) {i j : Nat} {buff : Buff}
    {m : Modifier} (hbuff : document.sheet.buffs[i]? = some buff) (hm : buff.mods[j]? = some m) :
    ∃ before own after, source.toList = before ++ (own ++ after)
      ∧ Takes (Modifier.format.read (Modifier.valueRoom + 1)) own m
      ∧ ∀ own' m', Takes (Modifier.format.read (Modifier.valueRoom + 1)) own' m' →
          read (String.ofList (before ++ (own' ++ after))) = .ok (document.setModifier i j m') := by
  rw [← String.ofList_toList (s := source), read_eq_ok_iff] at h
  obtain ⟨haround, hversion⟩ := h
  obtain ⟨front, whole, back, hsource, htakes, hreplace⟩ := haround.replace
  -- a modifier stands four levels inside of its document
  obtain ⟨before, own, after, rfl, hown, hput⟩ : HasPlace (Document.format.read nestingLimit)
      (Modifier.format.read (Modifier.valueRoom + 1)) whole m (document.setModifier i j) :=
    hasPlace_modifier htakes hbuff hm
  refine ⟨front ++ before, own, after ++ back, ?_, hown, fun own' m' hown' => ?_⟩
  · rw [hsource]
    simp only [List.append_assoc]
  · rw [read_eq_ok_iff]
    have haround := hreplace _ _ (hput own' m' hown')
    simp only [List.append_assoc] at haround ⊢
    exact ⟨haround, hversion⟩

/-- **Loose modifiers.** No modifier of a document that was read has a NaN as its value. Each has its
place in the text, and with another modifier there the document is read with that one and is the same
otherwise. If an object stands there, its type and value can be changed to any JSON that fits, put in
and taken out: the kind is multiplicative if the type is the text `mult` and flat in all other cases,
and the value is what the JSON value stands for. -/
theorem read_loosened {source : String} (h : read source = .ok document) :
    (∀ buff ∈ document.sheet.buffs, ∀ m ∈ buff.mods, m.value.isNaN = false)
    ∧ ∀ (i j : Nat) (buff : Buff) (m : Modifier),
        document.sheet.buffs[i]? = some buff → buff.mods[j]? = some m →
        ∃ before own after, source.toList = before ++ (own ++ after)
          ∧ Takes (Modifier.format.read (Modifier.valueRoom + 1)) own m
          ∧ (∀ own' m', Takes (Modifier.format.read (Modifier.valueRoom + 1)) own' m' →
              read (String.ofList (before ++ (own' ++ after))) = .ok (document.setModifier i j m'))
          ∧ (own.head? = some '\x7b' →
              ∃ blanks ms, own = objectText blanks ms ∧ m.HasMembers ms
                ∧ ∀ ms' type? value?, Modifier.Loosened ms ms' type? value? →
                    ∃ m', read (String.ofList (before ++ (objectText blanks ms' ++ after)))
                        = .ok (document.setModifier i j m')
                      ∧ m'.id = m.id ∧ m'.target = m.target
                      ∧ (m'.kind = .multiplicative ↔ type? = some (.string "mult"))
                      ∧ Modifier.StandsFor value? m'.value) := by
  refine ⟨fun buff hbuff m hm => ?_, fun i j buff m hbuff hm => ?_⟩
  · -- every modifier has its own text, from which its value was read
    obtain ⟨i, hi⟩ := List.getElem?_of_mem hbuff
    obtain ⟨j, hj⟩ := List.getElem?_of_mem hm
    obtain ⟨_, own, _, -, hown, -⟩ := exists_place_of_read h hi hj
    exact Modifier.isNaN_value_of_takes hown
  · obtain ⟨before, own, after, hsource, hown, hput⟩ := exists_place_of_read h hbuff hm
    refine ⟨before, own, after, hsource, hown, hput, fun hopen => ?_⟩
    obtain ⟨blanks, ms, rfl, hblanks, hms⟩ := Modifier.exists_members_of_takes hown hopen
    refine ⟨blanks, ms, rfl, hms, fun ms' type? value? hloose => ?_⟩
    -- the object with the other members is taken as a modifier, which is put in the same place
    obtain ⟨m', htakes, hid, htarget, hkind, hvalue⟩ := Modifier.takes_loosened hblanks hms hloose
    exact ⟨m', hput _ m' htakes, hid, htarget, hkind, hvalue⟩

/-- A document with one modifier, which is an object. -/
def oneModifier : String :=
  "\x7b\"rows\": [], \"buffs\": [\x7b\"id\": \"b\", \"name\": \"B\",
    \"mods\": [\x7b\"id\": \"m\", \"type\": \"mult\", \"value\": 2\x7d]\x7d]\x7d"

/-- Its type is taken out, and its value becomes the text of a NaN. -/
theorem oneModifier_loosened :
    let document : Document :=
      ⟨1, ⟨[], [⟨"b", "B", [⟨"m", "", .multiplicative, 2.0⟩]⟩]⟩, ∅, none, [], none⟩
    let value : Member := ⟨"\"value\"".toList, "\"NaN\"".toList⟩
    read oneModifier = .ok document
      ∧ ∃ before blanks ms after, oneModifier.toList = before ++ (objectText blanks ms ++ after)
        ∧ read (String.ofList (before
            ++ (objectText blanks (value :: others "type" (others "value" ms)) ++ after)))
          = .ok (document.setModifier 0 0 ⟨"m", "", .flat, 0.0⟩) := by
  intro document value
  have hread : read oneModifier = .ok document := read_of_toOption (by decide +kernel)
  obtain ⟨-, hplace⟩ := read_loosened hread
  obtain ⟨before, own, after, hsource, hown, -, hobject⟩ :=
    hplace 0 0 ⟨"b", "B", [⟨"m", "", .multiplicative, 2.0⟩]⟩ _ rfl rfl
  -- no text that starts at a bracket is read as a modifier
  have hbrackets : ∀ whole ∈ oneModifier.toList.tails.filter fun whole => whole.head? == some '[',
      ∀ own ∈ whole.inits,
        (Modifier.format.read (Modifier.valueRoom + 1) own).toOption = none := by
    rw [show oneModifier.toList = _ from String.toList_ofList]
    decide +kernel
  have hopen : own.head? = some '\x7b' := by
    obtain ⟨final, hdrafted, -⟩ := (cutsTo_read Modifier.cutsFields _).written hown
    cases hdrafted with
    | object => rfl
    | array =>
      have hwhole := (List.mem_tails _ _).mpr ⟨before, hsource.symm⟩
      have hnone := hbrackets _ (List.mem_filter.mpr ⟨hwhole, rfl⟩) _
        ((List.mem_inits _ _).mpr (List.prefix_append _ _))
      rw [hown.eq_ok] at hnone
      cases hnone
  obtain ⟨blanks, ms, rfl, -, hloosen⟩ := hobject hopen
  have hfits : Modifier.Fits value (.string "NaN") := by
    refine ⟨?_, by decide⟩
    show (Reader.value nestingLimit).run (String.ofList "\"NaN\"".toList) = _
    cbv
  obtain ⟨⟨_, _, kind, x⟩, hread', rfl, rfl, hkind, hvalue⟩ :=
    hloosen _ _ _ (Modifier.loosened_cons (by decide +kernel) hfits)
  have hflat : kind = .flat := by
    cases kind with
    | flat => rfl
    | multiplicative => cases hkind.mp rfl
  have hzero : x = 0.0 := by
    cases hvalue with
    | text hnumber hx =>
      have hnan : (Decimal.readDouble? (Text.trim "NaN".toList)).all Float.isNaN = true := by
        decide +kernel
      rw [hnumber] at hnan
      cases hnan.symm.trans hx
    | zero => rfl
  rw [hflat, hzero] at hread'
  exact ⟨hread, before, blanks, ms, after, hsource, hread'⟩

/-- A document with one modifier, an object with this value. -/
def withValue (value : List Char) : String :=
  String.ofList ("\x7b\"rows\": [[\"r\", \"A\", \"1\"]], \"buffs\": [[\"b\", \"B\", [\x7b\"id\": \"m\",
    \"value\": ".toList ++ (value ++ "\x7d]]]\x7d".toList))

/-- Arrays inside of each other. -/
def nestedArrays (depth : Nat) : List Char := List.replicate depth '[' ++ List.replicate depth ']'

/-- A text that the reader of documents rejects is refused with its error. -/
theorem read_of_error {text : List Char} {e : Json.Error}
    (h : Document.format.read nestingLimit text = .error e) :
    read (String.ofList text) = .error (.json e) := by
  have hrun : StateT.run (Document.format.read nestingLimit) text = .error e := h
  rw [read, Reader.run, String.toList_ofList, hrun]
  rfl

/-- A value can be nested too deeply for a modifier, though it can be read by itself: with a number in
its place the document is read, and with this value it is refused. -/
theorem deep_value_refused :
    (read (withValue ['2'])).toOption.isSome
      ∧ ((Reader.value nestingLimit).run (String.ofList (nestedArrays 123))).toOption.isSome
      ∧ read (withValue (nestedArrays 123)) = .error (.json .malformed) := by
  refine ⟨by decide +kernel, ?_, read_of_error (by decide +kernel)⟩
  rw [Reader.run, String.toList_ofList]
  decide +kernel

end Document

end FormulaSheet
