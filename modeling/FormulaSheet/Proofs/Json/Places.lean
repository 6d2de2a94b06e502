import FormulaSheet.Proofs.Json.Records

/-!
# FormulaSheet — places in the texts of lists and records

In the text of a list each item has its place, and in the text of a record each field that is given
(`HasPlace`): any other text that the reader of the item takes can stand there, and the rest of the
value stays what it was. For a record this needs that the field has a slot of its own in the draft,
which the other fields neither look at nor change (`Slot.Apart`).

* `Slot`, `RecordFormat.HasField` — a field and its slot.
* `Filled.edit` — the members of a field can be changed, added, moved and taken out.
* `hasPlace_item`, `hasPlace_field` — the places of items and fields.
-/

namespace FormulaSheet.Json

open Reader

variable {α β γ δ : Type} {text lead : List Char}

/-! ## Texts that are taken -/

theorem Reader.CutsTo.written {reader : Reader α} {written : List Char → α → Prop}
    (h : CutsTo reader written) {x : α} (htakes : Takes reader text x) : written text x := by
  obtain ⟨blanks, own, htext, hblanks, hwritten⟩ := h htakes.eq_ok
  obtain ⟨c, more, rfl, hc, -⟩ := htakes.starts
  obtain rfl := hblanks.eq_nil hc htext
  rw [List.nil_append, List.append_nil] at htext
  rwa [htext]

/-- A text that is taken for what a function makes of a value is taken for such a value. -/
theorem Reader.Cuts.exists_of_takes_map {reader : Reader α} (h : Cuts reader) {f : α → β} {y : β}
    (htakes : Takes (f <$> reader) text y) : ∃ x, Takes reader text x ∧ f x = y := by
  obtain ⟨x, hx, hy⟩ := exists_of_map htakes.eq_ok
  exact ⟨x, h.takes htakes.starts hx, hy⟩

/-! ## Places -/

/-- In the text there is a place where `x` stands: every text that the inner reader takes can stand
there, and the outer reader takes the whole with what was read put into it. -/
def HasPlace (outer : Reader β) (inner : Reader α) (text : List Char) (x : α) (put : α → β) : Prop :=
  ∃ before own after, text = before ++ (own ++ after) ∧ Takes inner own x
    ∧ ∀ own' x', Takes inner own' x' → Takes outer (before ++ (own' ++ after)) (put x')

theorem HasPlace.trans {outer : Reader γ} {middle : Reader β} {inner : Reader α} {y : β} {x : α}
    {put : β → γ} {put' : α → β} (h : HasPlace outer middle text y put)
    (hinner : ∀ own, Takes middle own y → HasPlace middle inner own x put') :
    HasPlace outer inner text x (put ∘ put') := by
  obtain ⟨before, own, after, rfl, htakes, hput⟩ := h
  obtain ⟨before', own', after', rfl, htakes', hput'⟩ := hinner own htakes
  refine ⟨before ++ before', own', after' ++ after, by simp only [List.append_assoc], htakes', ?_⟩
  intro other x' hother
  have hwhole := hput _ _ (hput' other x' hother)
  simp only [List.append_assoc] at hwhole ⊢
  exact hwhole

/-- A piece has its place between the brackets. -/
theorem exists_place_of_piece (opening closing : Char) (lead : List Char)
    (pieces more : List (List Char)) :
    ∃ before after, ∀ piece,
      opening :: (lead ++ (separated true (pieces ++ piece :: more) ++ [closing]))
        = before ++ (piece ++ after) := by
  obtain ⟨before, after, hplace⟩ := exists_place_in_separated true pieces more
  refine ⟨opening :: (lead ++ before), after ++ [closing], fun piece => ?_⟩
  rw [hplace]
  simp only [List.append_assoc, List.cons_append]

/-! ## Items of a list -/

theorem exists_place_in_forall₂ {R : γ → α → Prop} {pieces : List γ} {xs : List α} {i : Nat} {x : α}
    (h : List.Forall₂ R pieces xs) (hx : xs[i]? = some x) :
    ∃ before piece after, pieces = before ++ piece :: after ∧ R piece x
      ∧ ∀ piece' x', R piece' x' → List.Forall₂ R (before ++ piece' :: after) (xs.set i x') := by
  induction h generalizing i with
  | nil => cases hx
  | @cons first y pieces xs hfirst hrest ih =>
    cases i with
    | zero =>
      obtain rfl := Option.some.inj hx
      exact ⟨[], first, pieces, rfl, hfirst, fun _ _ hpiece => .cons hpiece hrest⟩
    | succ i =>
      -- the place is further behind
      obtain ⟨before, piece, after, rfl, hpiece, hset⟩ := ih hx
      exact ⟨first :: before, piece, after, rfl, hpiece, fun piece' x' h => .cons hfirst (hset piece' x' h)⟩

/-- **An item** of a list has its place in the text. -/
theorem hasPlace_item {item : Nat → Reader α} (hitem : ∀ room, Cuts (item room)) {room i : Nat}
    {xs : List α} {x : α} (h : Takes (Reader.list item (room + 1)) text xs) (hx : xs[i]? = some x) :
    HasPlace (Reader.list item (room + 1)) (item room) text x (xs.set i) := by
  obtain ⟨less, lead, pieces, hroom, rfl, hlead, hpieces⟩ :=
    (cutsTo_list (fun room => hitem room) (room + 1)).written h
  obtain rfl := Nat.succ.inj hroom
  -- the piece of the item, and its own text within the blanks around it
  obtain ⟨before, piece, after, rfl, ⟨front, own, back, rfl, hfront, hback, hown⟩, hset⟩ :=
    exists_place_in_forall₂ hpieces hx
  obtain ⟨outside, behind, hplace⟩ := exists_place_of_piece '[' ']' lead before after
  refine ⟨outside ++ front, own, back ++ behind, ?_, hown, fun own' x' hown' => ?_⟩
  · rw [arrayText, hplace]
    simp only [List.append_assoc]
  · -- the list with the other text in that place is taken again
    have hwhole := Takes.list (hset _ x' ⟨front, own', back, rfl, hfront, hback, hown'⟩) hlead
    rw [arrayText, hplace] at hwhole
    simpa only [List.append_assoc] using hwhole

/-! ## Slots -/

/-- The place of a field in drafts. -/
structure Slot (δ β : Type) where
  get : δ → Option β
  put : δ → Option β → δ
  get_put : ∀ draft x, get (put draft x) = x
  put_put : ∀ draft x y, put (put draft x) y = put draft y
  put_get : ∀ draft, put draft (get draft) = draft

namespace Slot

variable (slot : Slot δ β)

/-- The field that is read into the slot. -/
def field (key : String) (isOptional : Bool) (item : Nat → Reader β) : Field δ :=
  .of key isOptional slot.get (fun draft x => slot.put draft (some x)) item

/-- The field neither looks at the slot nor changes it. -/
structure Apart (field : Field δ) : Prop where
  isSet_put : ∀ draft x, field.isSet (slot.put draft x) = field.isSet draft
  get_eq : ∀ {room draft text next}, Takes (field.read room draft) text next →
    slot.get next = slot.get draft
  read_put : ∀ {room draft text next} x, Takes (field.read room draft) text next →
    Takes (field.read room (slot.put draft x)) text (slot.put next x)

variable {slot}

theorem apart_of {key : String} {isOptional : Bool} {get : δ → Option γ} {set : δ → γ → δ}
    {item : Nat → Reader γ} (hitem : ∀ room, Cuts (item room))
    (hget : ∀ draft x, get (slot.put draft x) = get draft := by intros; rfl)
    (hset : ∀ draft y, slot.get (set draft y) = slot.get draft := by intros; rfl)
    (hput : ∀ draft x y, set (slot.put draft x) y = slot.put (set draft y) x := by intros; rfl) :
    slot.Apart (.of key isOptional get set item) where
  isSet_put draft x := congrArg Option.isSome (hget draft x)
  get_eq := by
    intro room draft text next h
    obtain ⟨y, -, rfl⟩ := (hitem room).exists_of_takes_map (f := set draft) h
    exact hset draft y
  read_put := by
    intro room draft text next x h
    obtain ⟨y, hy, rfl⟩ := (hitem room).exists_of_takes_map (f := set draft) h
    rw [← hput]
    exact hy.map (set (slot.put draft x))

end Slot

/-- The format has a field of this key with a slot of its own. -/
structure RecordFormat.HasField (format : RecordFormat δ α) (slot : Slot δ β) (key : String)
    (item : Nat → Reader β) : Prop where
  blank : slot.get format.blank = none
  cuts : ∀ room, Cuts (item room)
  fields : ∃ isOptional before after,
    format.fields = before ++ slot.field key isOptional item :: after
      ∧ ∀ field ∈ before ++ after, field.key ≠ key ∧ slot.Apart field

section Fields

variable {format : RecordFormat δ α} {slot : Slot δ β} {key : String} {item : Nat → Reader β}
  {room : Nat} {draft next final : δ} {ms ms' : List Member}

namespace RecordFormat.HasField

/-- A field is found by its key. -/
theorem field?_eq (h : format.HasField slot key item) :
    ∃ isOptional, format.field? key = some (slot.field key isOptional item) := by
  obtain ⟨isOptional, before, after, hfields, happart⟩ := h.fields
  refine ⟨isOptional, ?_⟩
  have hbefore : before.find? (fun field => field.key == key) = none :=
    List.find?_eq_none.mpr fun field hmem => by
      simpa using (happart field (List.mem_append_left after hmem)).1
  rw [RecordFormat.field?, hfields, List.find?_append, hbefore, Option.none_or]
  exact List.find?_cons_of_pos (beq_self_eq_true key)

/-- The fields with other keys are apart from it. -/
theorem apart (h : format.HasField slot key item) {other : String} {field : Field δ}
    (hne : other ≠ key) (hfield : format.field? other = some field) : slot.Apart field := by
  obtain ⟨isOptional, before, after, hfields, happart⟩ := h.fields
  have hkey : field.key = other := by simpa using List.find?_some hfield
  have hmem := List.mem_of_find?_eq_some hfield
  rw [hfields, List.mem_append, List.mem_cons] at hmem
  rcases hmem with hmem | rfl | hmem
  · exact (happart field (List.mem_append_left after hmem)).2
  · exact absurd hkey.symm hne
  · exact (happart field (List.mem_append_right before hmem)).2

/-- A member of another key leaves the slot as it is, and does not look at it. -/
theorem readMember_other (h : format.HasField slot key item) {other : String} (hne : other ≠ key)
    (htakes : Takes (format.readMember room draft other) text next) :
    slot.get next = slot.get draft
      ∧ ∀ x, Takes (format.readMember room (slot.put draft x) other) text (slot.put next x) := by
  simp only [RecordFormat.readMember] at htakes ⊢
  cases hfield : format.field? other with
  | none =>
    rw [hfield] at htakes
    -- a member without a field is skipped
    obtain ⟨⟨⟩, hskip, rfl⟩ := cuts_skip.exists_of_takes_map htakes
    exact ⟨rfl, fun x => hskip.map fun _ => slot.put draft x⟩
  | some field =>
    have happart := h.apart hne hfield
    rw [hfield] at htakes
    dsimp only at htakes ⊢
    split at htakes
    · cases htakes.eq_ok
    · next hunset =>
      -- whether that field is set does not depend on the slot
      refine ⟨happart.get_eq htakes, fun x => ?_⟩
      rw [happart.isSet_put, if_neg hunset]
      exact happart.read_put x htakes

/-- A member of the key is read into the slot, which must be empty. -/
theorem readMember_key_iff (h : format.HasField slot key item) :
    Takes (format.readMember room draft key) text next
      ↔ slot.get draft = none ∧ ∃ x, Takes (item room) text x ∧ slot.put draft (some x) = next := by
  obtain ⟨isOptional, hfield⟩ := h.field?_eq
  rw [RecordFormat.readMember, hfield]
  dsimp only
  -- a field that is set is refused a second time
  have hset : (slot.field key isOptional item).isSet draft = (slot.get draft).isSome := rfl
  rw [hset]
  cases hget : slot.get draft with
  | some y =>
    constructor
    · intro htakes
      cases htakes.eq_ok
    · rintro ⟨hunset, -⟩
      cases hunset
  | none =>
    refine ⟨fun htakes => ⟨rfl, ?_⟩, ?_⟩
    · exact (h.cuts room).exists_of_takes_map htakes
    · rintro ⟨-, x, hx, rfl⟩
      exact hx.map fun x => slot.put draft (some x)

end RecordFormat.HasField

/-! ## Members of a field -/

/-- The members of a key. -/
def Member.named (key : String) (ms : List Member) : List Member :=
  ms.filter fun m => m.key? == some key

/-- The members of other keys. -/
def Member.others (key : String) (ms : List Member) : List Member :=
  ms.filter fun m => m.key? != some key

/-- The member has a value that the reader takes. -/
def Member.Gives (reader : Reader β) (m : Member) (x : β) : Prop := Around (Takes reader) m.value x

open Member (named others)

/-- The members of the key give what the slot gets. -/
theorem Filled.values (h : Filled format room draft ms final) (hfield : format.HasField slot key item) :
    ∃ xs, List.Forall₂ (Member.Gives (item room)) (named key ms) xs
      ∧ (slot.get final).toList = (slot.get draft).toList ++ xs := by
  induction h with
  | nil draft => exact ⟨[], .nil, (List.append_nil _).symm⟩
  | @cons draft next final m ms other hkey hread _ ih =>
    obtain ⟨xs, hxs, hfinal⟩ := ih
    obtain ⟨front, own, back, hvalue, hfront, hback, hown⟩ := hread
    by_cases hother : other = key
    · -- a member of the field gives its value, and the field was not set before it
      subst hother
      obtain ⟨hunset, x, hx, rfl⟩ := hfield.readMember_key_iff.mp hown
      rw [slot.get_put] at hfinal
      refine ⟨x :: xs, ?_, by rw [hfinal, hunset]; rfl⟩
      rw [named, List.filter_cons_of_pos (by rw [hkey, beq_self_eq_true])]
      exact .cons ⟨front, own, back, hvalue, hfront, hback, hx⟩ hxs
    · -- any other member leaves the field as it is
      rw [(hfield.readMember_other hother hown).1] at hfinal
      refine ⟨xs, ?_, hfinal⟩
      rwa [named, List.filter_cons_of_neg (by simpa [hkey] using hother)]

/-- Without the members of the key, the slot keeps what is put into it. -/
theorem Filled.put_others (h : Filled format room draft ms final) (hfield : format.HasField slot key item)
    (x : Option β) : Filled format room (slot.put draft x) (others key ms) (slot.put final x) := by
  induction h with
  | nil draft => exact .nil _
  | @cons draft next final m ms other hkey hread _ ih =>
    by_cases hother : other = key
    · -- a member of the field is left out, and what it set is put instead
      subst hother
      obtain ⟨_, _, _, -, -, -, hown⟩ := hread
      obtain ⟨-, y, -, rfl⟩ := hfield.readMember_key_iff.mp hown
      rw [slot.put_put] at ih
      rwa [Member.others, List.filter_cons_of_neg (by simp [hkey])]
    · rw [Member.others, List.filter_cons_of_pos (by simpa [hkey] using hother)]
      exact .cons hkey (hread.imp fun _ hown => (hfield.readMember_other hother hown).2 x) ih

theorem others_of_named_nil (h : named key ms = []) : others key ms = ms := by
  refine List.filter_eq_self.mpr fun m hmem => ?_
  simpa [named] using List.filter_eq_nil_iff.mp h m hmem

theorem others_place {before after : List Member} {m : Member} (hm : m.key? = some key) :
    others key (before ++ m :: after) = others key before ++ others key after := by
  rw [others, List.filter_append, List.filter_cons_of_neg (by simp [hm])]
  rfl

/-- A member that stands alone with its name is all there is of it. -/
theorem named_place {before after : List Member} {m : Member} (hm : m.key? = some key)
    (hbefore : named key before = []) (hafter : named key after = []) :
    named key (before ++ m :: after) = [m] := by
  rw [named] at hbefore hafter ⊢
  rw [List.filter_append, List.filter_cons_of_pos (by rw [hm, beq_self_eq_true]), hbefore, hafter]
  rfl

/-- A member of the key, or none, can be put anywhere between the others. -/
theorem Filled.insert (hfield : format.HasField slot key item) {x : Option β}
    (h : Filled format room draft (others key ms) final) (hunset : slot.get draft = none)
    (hx : List.Forall₂ (Member.Gives (item room)) (named key ms) x.toList) :
    Filled format room draft ms (slot.put final x) := by
  -- up to the member of the key the slot stays empty, and behind it the others do not look at it
  induction ms generalizing draft with
  | nil =>
    cases h
    cases x with
    | some y => cases hx
    | none =>
      have hput := slot.put_get final
      rw [hunset] at hput
      rw [hput]
      exact .nil _
  | cons m ms ih =>
    by_cases hkey : m.key? = some key
    · rw [named, List.filter_cons_of_pos (by rw [hkey, beq_self_eq_true])] at hx
      rw [Member.others, List.filter_cons_of_neg (by simp [hkey])] at h
      cases x with
      | none => cases hx
      | some y =>
        obtain ⟨hvalue, hrest⟩ := List.forall₂_cons.mp hx
        -- this is the only member of the key
        have hnamed : named key ms = [] := List.forall₂_nil_right_iff.mp hrest
        have hmore := Filled.put_others h hfield (some y)
        rw [← Member.others, others_of_named_nil hnamed, others_of_named_nil hnamed] at hmore
        exact .cons hkey
          (hvalue.imp fun _ hown => hfield.readMember_key_iff.mpr ⟨hunset, y, hown, rfl⟩) hmore
    · rw [named, List.filter_cons_of_neg (by simpa using hkey)] at hx
      rw [Member.others, List.filter_cons_of_pos (by simpa using hkey)] at h
      cases h with
      | @cons _ next _ _ _ other hother hread hms =>
        have hne : other ≠ key := fun heq => hkey (heq ▸ hother)
        have hget : slot.get next = slot.get draft := by
          obtain ⟨_, _, _, -, -, -, hown⟩ := hread
          exact (hfield.readMember_other hne hown).1
        exact .cons hother hread (ih hms (hget.trans hunset) hx)

/-- **The members of a field** can be changed, added, moved and taken out, as long as there is not more
than one of them. -/
theorem Filled.edit (h : Filled format room format.blank ms final)
    (hfield : format.HasField slot key item) (hothers : others key ms' = others key ms) {x : Option β}
    (hx : List.Forall₂ (Member.Gives (item room)) (named key ms') x.toList) :
    Filled format room format.blank ms' (slot.put final x) := by
  have hwithout := h.put_others hfield none
  have hblank : slot.put format.blank none = format.blank := by
    have hput := slot.put_get format.blank
    rwa [hfield.blank] at hput
  rw [hblank, ← hothers] at hwithout
  have hinsert := hwithout.insert hfield hfield.blank hx
  rwa [slot.put_put] at hinsert

/-! ## Fields of a record -/

theorem Around.replace {written : List Char → γ → Prop} {piece : List Char} {x : γ}
    (h : Around written piece x) : ∃ front own back, piece = front ++ (own ++ back) ∧ written own x
      ∧ ∀ own' x', written own' x' → Around written (front ++ (own' ++ back)) x' := by
  obtain ⟨front, own, back, rfl, hfront, hback, hown⟩ := h
  exact ⟨front, own, back, rfl, hown, fun own' _ h => ⟨front, own', back, rfl, hfront, hback, h⟩⟩

/-- The member that gives the slot its value can be given another one. -/
theorem Filled.exists_member (h : Filled format room format.blank ms final)
    (hfield : format.HasField slot key item) {y : β} (hy : slot.get final = some y) :
    ∃ before m after, ms = before ++ m :: after ∧ m.Gives (item room) y
      ∧ ∀ value y', Around (Takes (item room)) value y' →
          Filled format room format.blank (before ++ ⟨m.name, value⟩ :: after)
            (slot.put final (some y')) := by
  obtain ⟨xs, hxs, hfinal⟩ := h.values hfield
  obtain rfl : xs = [y] := by
    rw [hy, hfield.blank] at hfinal
    exact hfinal.symm
  obtain ⟨m, _, hm, hnil, hnamed⟩ := List.forall₂_cons_right_iff.mp hxs
  obtain rfl := List.forall₂_nil_right_iff.mp hnil
  obtain ⟨before, after, rfl, hbefore, hnamedKey, hafter⟩ := List.filter_eq_cons_iff.mp hnamed
  have hkey : m.key? = some key := beq_iff_eq.mp hnamedKey
  refine ⟨before, m, after, rfl, hm, fun value y' hvalue => ?_⟩
  -- the name stays, so the member is still one of the key
  have hkey' : Member.key? ⟨m.name, value⟩ = some key := hkey
  refine h.edit hfield (by rw [others_place hkey, others_place hkey']) ?_
  rw [named_place hkey' (List.filter_eq_nil_iff.mpr hbefore) hafter]
  exact .cons hvalue .nil

/-- Fields apart from the slot neither change it nor look at it. -/
theorem Listed.put {fields : List (Field δ)} {pieces : List (List Char)}
    (h : Listed room fields draft pieces final) (hfields : ∀ field ∈ fields, slot.Apart field) :
    slot.get final = slot.get draft
      ∧ ∀ x, Listed room fields (slot.put draft x) pieces (slot.put final x) := by
  induction h with
  | done draft hoptional => exact ⟨rfl, fun x => .done _ hoptional⟩
  | @cons field fields draft next final piece pieces hread _ ih =>
    obtain ⟨happart, hfields⟩ := List.forall_mem_cons.mp hfields
    obtain ⟨hget, hput⟩ := ih hfields
    have hnext : slot.get next = slot.get draft := by
      obtain ⟨_, _, _, -, -, -, hown⟩ := hread
      exact happart.get_eq hown
    exact ⟨hget.trans hnext, fun x =>
      .cons (hread.imp fun _ hown => happart.read_put x hown) (hput x)⟩

/-- The piece that gives the slot its value can be given another one. -/
theorem Listed.exists_piece {before after : List (Field δ)} {isOptional : Bool}
    {pieces : List (List Char)} (hitem : ∀ room, Cuts (item room))
    (h : Listed room (before ++ slot.field key isOptional item :: after) draft pieces final)
    (hbefore : ∀ field ∈ before, slot.Apart field) (hafter : ∀ field ∈ after, slot.Apart field)
    (hunset : slot.get draft = none) {y : β} (hy : slot.get final = some y) :
    ∃ front piece back, pieces = front ++ piece :: back ∧ Around (Takes (item room)) piece y
      ∧ ∀ piece' y', Around (Takes (item room)) piece' y' →
          Listed room (before ++ slot.field key isOptional item :: after) draft
            (front ++ piece' :: back) (slot.put final (some y')) := by
  -- the fields in front of the slot's own leave it empty
  induction before generalizing draft pieces with
  | nil =>
    cases h with
    | done draft hoptional =>
      rw [hunset] at hy
      cases hy
    | @cons _ _ _ next _ piece pieces hread hpieces =>
      obtain ⟨hget, hput⟩ := hpieces.put hafter
      obtain ⟨front, own, back, rfl, hfront, hback, hown⟩ := hread
      obtain ⟨x, hx, rfl⟩ :=
        (hitem room).exists_of_takes_map (f := fun x => slot.put draft (some x)) hown
      rw [slot.get_put, hy] at hget
      obtain rfl := Option.some.inj hget
      refine ⟨[], _, pieces, rfl, ⟨front, own, back, rfl, hfront, hback, hx⟩, ?_⟩
      intro piece' y' hpiece
      have hput' := hput (some y')
      rw [slot.put_put] at hput'
      exact .cons (hpiece.imp fun _ hown => hown.map fun x => slot.put draft (some x)) hput'
  | cons field before ih =>
    obtain ⟨happart, hbefore⟩ := List.forall_mem_cons.mp hbefore
    cases h with
    | done draft hoptional =>
      rw [hunset] at hy
      cases hy
    | @cons _ _ _ next _ piece pieces hread hpieces =>
      have hget : slot.get next = slot.get draft := by
        obtain ⟨_, _, _, -, -, -, hown⟩ := hread
        exact happart.get_eq hown
      obtain ⟨front, own, back, rfl, hown, hput⟩ := ih hpieces hbefore (hget.trans hunset)
      exact ⟨piece :: front, own, back, rfl, hown, fun piece' y' h => .cons hread (hput piece' y' h)⟩

/-- In an object the value of the field's member can be replaced. -/
theorem Filled.exists_place (hlead : Blank lead) {ms : List Member}
    (h : Filled format room format.blank ms final) (hfield : format.HasField slot key item) {y : β}
    (hy : slot.get final = some y) :
    ∃ before own after, objectText lead ms = before ++ (own ++ after) ∧ Takes (item room) own y
      ∧ ∀ own' y', Takes (item room) own' y' →
          Drafted format (room + 1) (before ++ (own' ++ after)) (slot.put final (some y')) := by
  obtain ⟨before, m, after, rfl, hm, hput⟩ := h.exists_member hfield hy
  obtain ⟨front, own, back, hvalue, hown, hreplace⟩ := Around.replace hm
  obtain ⟨outside, behind, hplace⟩ := exists_place_of_piece '\x7b' '\x7d' lead
    (before.map Member.text) (after.map Member.text)
  -- the name and the colon belong to what stands around the value
  have htext : ∀ value, objectText lead (before ++ ⟨m.name, value⟩ :: after)
      = outside ++ (m.name ++ ':' :: (value ++ behind)) := by
    intro value
    rw [objectText, List.map_append, List.map_cons, hplace, Member.text, List.append_assoc,
      List.cons_append]
  refine ⟨outside ++ (m.name ++ ':' :: front), own, back ++ behind, ?_, hown, fun own' y' hown' => ?_⟩
  · have hwhole : objectText lead (before ++ m :: after) = _ := htext m.value
    rw [hvalue] at hwhole
    rw [hwhole]
    simp only [List.append_assoc, List.cons_append]
  · have hwhole := Drafted.object hlead (hput _ y' (hreplace own' y' hown'))
    rw [htext] at hwhole
    simpa only [List.append_assoc, List.cons_append] using hwhole

/-- In an array the piece of the field can be replaced. -/
theorem Listed.exists_place (hlead : Blank lead) {pieces : List (List Char)}
    (h : Listed room format.fields format.blank pieces final)
    (hfield : format.HasField slot key item) {y : β} (hy : slot.get final = some y) :
    ∃ before own after, arrayText lead pieces = before ++ (own ++ after) ∧ Takes (item room) own y
      ∧ ∀ own' y', Takes (item room) own' y' →
          Drafted format (room + 1) (before ++ (own' ++ after)) (slot.put final (some y')) := by
  obtain ⟨isOptional, before, after, hfields, happart⟩ := hfield.fields
  rw [hfields] at h
  -- the field stands at its own place of the list, apart from those before and behind it
  obtain ⟨front, piece, back, rfl, hpiece, hput⟩ := h.exists_piece hfield.cuts
    (fun field hmem => (happart field (List.mem_append_left after hmem)).2)
    (fun field hmem => (happart field (List.mem_append_right before hmem)).2) hfield.blank hy
  obtain ⟨opening, own, closing, rfl, hown, hreplace⟩ := hpiece.replace
  obtain ⟨outside, behind, hplace⟩ := exists_place_of_piece '[' ']' lead front back
  refine ⟨outside ++ opening, own, closing ++ behind, ?_, hown, fun own' y' hown' => ?_⟩
  · rw [arrayText, hplace]
    simp only [List.append_assoc]
  · have hlisted := hput _ y' (hreplace own' y' hown')
    rw [← hfields] at hlisted
    -- the list with the other text in that place gives the other draft
    have hwhole := Drafted.array hlead hlisted
    rw [arrayText, hplace] at hwhole
    simpa only [List.append_assoc] using hwhole

/-- The text of the field can be replaced in the text of the draft. -/
theorem Drafted.exists_place (h : Drafted format (room + 1) text final)
    (hfield : format.HasField slot key item) {y : β} (hy : slot.get final = some y) :
    ∃ before own after, text = before ++ (own ++ after) ∧ Takes (item room) own y
      ∧ ∀ own' y', Takes (item room) own' y' →
          Drafted format (room + 1) (before ++ (own' ++ after)) (slot.put final (some y')) := by
  cases h with
  | object hlead h => exact h.exists_place hlead hfield hy
  | array hlead h => exact h.exists_place hlead hfield hy

/-- **A field** of a record has its place in the text. -/
theorem hasPlace_field (h : Drafted format (room + 1) text final)
    (hfield : format.HasField slot key item) {y : β} (hy : slot.get final = some y) {put : β → α}
    (hput : ∀ y', format.build (slot.put final (some y')) = .ok (put y')) :
    HasPlace (format.read (room + 1)) (item room) text y put := by
  obtain ⟨before, own, after, rfl, hown, hdrafted⟩ := h.exists_place hfield hy
  exact ⟨before, own, after, rfl, hown, fun own' y' hown' =>
    (hdrafted own' y' hown').takes (hput y')⟩

end Fields

end FormulaSheet.Json
