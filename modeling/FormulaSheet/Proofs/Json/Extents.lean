import FormulaSheet.Proofs.Json.Restoring

/-!
# FormulaSheet — the text that a reader takes

A reader that succeeds has taken a text off the front of what it was given, and it takes this text
wherever one may stand (`Cuts`): what it found does not depend on what stands behind, but for a
number that goes on.

* `Severs` — numbers: what is read of them can be read by itself.
* `Closes` — strings: what is read ends where it does whatever follows.
* `CutsAt` — readers from the first character on, by which `Cuts` is shown of the readers of scalars,
  texts, words of 32 bits and of what may be `null`.
-/

namespace FormulaSheet.Json

open Decimal (AllDigits isDigit)

variable {α β : Type} {cs rest : List Char} {atEnd : Error}

/-! ## Numbers -/

/-- What is read can be read by itself. -/
def Severs (read : List Char → Except Error (α × List Char)) : Prop :=
  ∀ ⦃cs rest : List Char⦄ ⦃x : α⦄, read cs = .ok (x, rest) →
    ∃ text, cs = text ++ rest ∧ read text = .ok (x, [])

/-- The digits that are read are the front of the text, and there is at least one of them. -/
theorem readDigits_eq_ok {ds : List Char} (h : readDigits atEnd cs = .ok (ds, rest)) :
    cs = ds ++ rest ∧ AllDigits ds := by
  cases cs with
  | nil => cases h
  | cons c more =>
    rw [readDigits] at h
    split at h
    · next hc =>
      obtain ⟨rfl, rfl⟩ := Prod.mk.inj (Except.ok.inj h)
      -- the first digit was tested by itself, the others by the run
      refine ⟨by rw [List.cons_append, List.takeWhile_append_dropWhile], List.cons_ne_nil _ _, ?_⟩
      intro d hd
      rcases List.mem_cons.mp hd with rfl | hd
      · exact hc
      · exact List.mem_takeWhile_imp hd
    · cases h

/-- The fraction that is read is the front of the text: nothing, or a point and digits. -/
theorem readFraction_eq_ok {fraction : Option (List Char)}
    (h : readFraction atEnd cs = .ok (fraction, rest)) :
    cs = fractionText fraction ++ rest ∧ ∀ ds ∈ fraction, AllDigits ds := by
  by_cases hpoint : cs.head? = some '.'
  · obtain ⟨more, rfl⟩ := List.head?_eq_some_iff.mp hpoint
    obtain ⟨⟨ds, after⟩, hdigits, heq⟩ := exists_of_map_eq_ok h
    obtain ⟨rfl, rfl⟩ := Prod.mk.inj heq
    obtain ⟨rfl, hall⟩ := readDigits_eq_ok hdigits
    exact ⟨rfl, fun _ hds => Option.some.inj hds ▸ hall⟩
  · rw [readFraction_of_ne_point hpoint] at h
    obtain ⟨rfl, rfl⟩ := Prod.mk.inj (Except.ok.inj h)
    exact ⟨rfl, nofun⟩

/-- What is split off as a sign stood in front. -/
theorem exists_sign (cs : List Char) : ∃ sign, cs = sign ++ (Decimal.splitSign cs).2 := by
  rw [Decimal.splitSign.eq_def]
  split
  · exact ⟨['-'], rfl⟩
  · exact ⟨['+'], rfl⟩
  · exact ⟨[], rfl⟩

/-- The exponent that is read is the front of the text, and reads the same by itself. Nothing is
read where no exponent starts. -/
theorem readExponent_eq_ok {exponent : Option (Bool × List Char)}
    (h : readExponent atEnd cs = .ok (exponent, rest)) :
    ∃ text, cs = text ++ rest ∧ StartsExponent text
      ∧ readExponent atEnd text = .ok (exponent, []) := by
  cases cs with
  | nil =>
    obtain ⟨rfl, rfl⟩ := Prod.mk.inj (Except.ok.inj h)
    exact ⟨[], rfl, nofun, rfl⟩
  | cons c more =>
    rw [readExponent] at h
    split at h
    · next hc =>
      obtain ⟨⟨ds, after⟩, hdigits, heq⟩ := exists_of_map_eq_ok h
      obtain ⟨rfl, rfl⟩ := Prod.mk.inj heq
      obtain ⟨hsplit, hall⟩ : (Decimal.splitSign more).2 = ds ++ after ∧ AllDigits ds :=
        readDigits_eq_ok hdigits
      obtain ⟨sign, hmore⟩ := exists_sign more
      rw [hsplit, ← List.append_assoc] at hmore
      -- the sign and the digits are split without the rest as they are with it
      have hne : sign ++ ds ≠ [] := List.append_ne_nil_of_right_ne_nil _ hall.1
      have happend : Decimal.splitSign (sign ++ ds ++ after) = _ := splitSign_append hne
      rw [← hmore] at happend
      have hds : (Decimal.splitSign (sign ++ ds)).2 = ds :=
        List.append_cancel_right ((congrArg Prod.snd happend).symm.trans hsplit)
      have hread : readDigits atEnd (ds ++ []) = .ok (ds, []) := readDigits_append hall nofun
      rw [List.append_nil] at hread
      refine ⟨c :: (sign ++ ds), by rw [hmore]; rfl, ?_, ?_⟩
      · rintro d ⟨⟩
        exact hc
      · show readExponent atEnd (c :: (sign ++ ds)) = .ok (some ((Decimal.splitSign more).1, ds), [])
        rw [readExponent, if_pos hc, congrArg Prod.fst happend]
        show (readDigits atEnd (Decimal.splitSign (sign ++ ds)).2).map _ = _
        rw [hds, hread]
        rfl
    · obtain ⟨rfl, rfl⟩ := Prod.mk.inj (Except.ok.inj h)
      exact ⟨[], rfl, nofun, rfl⟩

/-- A number without its sign can be read by itself: each of its parts can, and none of the parts
behind begins with a digit. -/
theorem severs_readUnsigned (atEnd : Error) (negative : Bool) :
    Severs (Numeral.readUnsigned atEnd negative) := by
  intro cs rest n h
  obtain ⟨⟨whole, afterWhole⟩, hwhole, h⟩ := exists_of_bind_eq_ok h
  obtain ⟨⟨fraction, afterFraction⟩, hfraction, h⟩ := exists_of_bind_eq_ok h
  obtain ⟨⟨exponent, afterExponent⟩, hexponent, h⟩ := exists_of_bind_eq_ok h
  obtain ⟨rfl, rfl⟩ := Prod.mk.inj (Except.ok.inj h)
  obtain ⟨hdigits, hlone⟩ := readWhole_eq_ok_iff.mp hwhole
  obtain ⟨rfl, hall⟩ := readDigits_eq_ok hdigits
  obtain ⟨rfl, hfractionDigits⟩ := readFraction_eq_ok hfraction
  obtain ⟨text, rfl, hstarts, htext⟩ := readExponent_eq_ok hexponent
  refine ⟨whole ++ (fractionText fraction ++ text), by simp only [List.append_assoc], ?_⟩
  -- what follows the whole part is a point or an exponent, not another digit
  have hends : ∀ c ∈ (fractionText fraction ++ text).head?, isDigit c = false := by
    intro c hc
    rcases head?_fractionText hstarts hc with rfl | rfl | rfl <;> rfl
  rw [Numeral.readUnsigned,
    bind_eq_of_ok (readWhole_eq_ok_iff.mpr ⟨readDigits_append hall hends, hlone⟩)]
  dsimp only
  rw [bind_eq_of_ok (readFraction_fractionText hfractionDigits hstarts)]
  dsimp only
  rw [bind_eq_of_ok htext]
  rfl

/-- A number can be read by itself: its first character, a minus or a digit, goes with it. -/
theorem severs_read (atEnd : Error) : Severs (Numeral.read atEnd) := by
  intro cs rest n h
  cases cs with
  | nil => cases h
  | cons c more =>
    by_cases hc : c = '-'
    · subst hc
      obtain ⟨text, rfl, htext⟩ := severs_readUnsigned atEnd true h
      exact ⟨'-' :: text, rfl, htext⟩
    · have hhead : ∀ text, (c :: text).head? ≠ some '-' := fun _ heq => hc (Option.some.inj heq)
      rw [read_of_ne_minus (hhead _)] at h
      obtain ⟨text, htext, hread⟩ := severs_readUnsigned atEnd false h
      refine ⟨text, htext, ?_⟩
      -- a digit starts the text, so the text starts with the first character of all
      cases text with
      | nil => cases hread
      | cons d tail =>
        obtain ⟨rfl, -⟩ := List.cons.inj htext
        rw [read_of_ne_minus (hhead _)]
        exact hread

/-- The value of a number is that of its own text. -/
theorem severs_readNumber : Severs readNumber := by
  intro cs rest number h
  obtain ⟨⟨n, afterNumeral⟩, hread, h⟩ := exists_of_bind_eq_ok h
  obtain ⟨value, hvalue, h⟩ := exists_of_bind_eq_ok h
  obtain ⟨rfl, rfl⟩ := Prod.mk.inj (Except.ok.inj h)
  obtain ⟨text, htext, hread⟩ := severs_read _ hread
  refine ⟨text, htext, ?_⟩
  rw [readNumber, bind_eq_of_ok hread]
  dsimp only
  rw [bind_eq_of_ok hvalue]
  rfl

/-! ## Strings -/

/-- What is read ends where it does whatever follows. -/
def Closes (read : List Char → Except Error (α × List Char)) : Prop :=
  ∀ ⦃cs rest : List Char⦄ ⦃x : α⦄, read cs = .ok (x, rest) →
    ∃ text, cs = text ++ rest ∧ ∀ after, read (text ++ after) = .ok (x, after)

theorem closes_readHex : Closes readHex := by
  intro cs rest n h
  unfold readHex at h
  split at h
  · next a b c d rest' =>
    split at h
    · next ha hb hc hd =>
      obtain ⟨rfl, rfl⟩ := Prod.mk.inj (Except.ok.inj h)
      refine ⟨[a, b, c, d], rfl, fun after => ?_⟩
      show readHex (a :: b :: c :: d :: after) = _
      simp only [readHex, ha, hb, hc, hd]
    · cases h
  · split at h <;> cases h

/-- The second half of a pair ends with its own four digits. -/
theorem closes_readTrailing (leading : Nat) : Closes (readTrailing leading) := by
  intro cs rest c h
  unfold readTrailing at h
  split at h
  · cases h
  · cases h
  · next digits =>
    split at h
    · cases h
    · next n rest' hhex =>
      obtain ⟨text, rfl, hread⟩ := closes_readHex hhex
      split at h
      · next htrailing =>
        obtain ⟨rfl, rfl⟩ := Prod.mk.inj (Except.ok.inj h)
        -- what decides is the number that the four digits give, not what follows them
        refine ⟨'\\' :: 'u' :: text, rfl, fun after => ?_⟩
        show readTrailing leading ('\\' :: 'u' :: (text ++ after)) = _
        simp only [readTrailing, hread, htrailing, reduceIte]
      · cases h
  · cases h

/-- An escape by number ends with its digits, or with those of its second half. -/
theorem closes_readUnicode : Closes readUnicode := by
  intro cs rest c h
  unfold readUnicode at h
  split at h
  · cases h
  · next n rest' hhex =>
    obtain ⟨text, rfl, hread⟩ := closes_readHex hhex
    split at h
    · cases h
    · next htrailing =>
      split at h
      · -- the first half of a pair, read with the second
        next hleading =>
        obtain ⟨more, rfl, hmore⟩ := closes_readTrailing n h
        refine ⟨text ++ more, (List.append_assoc ..).symm, fun after => ?_⟩
        rw [List.append_assoc, readUnicode, hread]
        dsimp only
        rw [if_neg htrailing, if_pos hleading, hmore]
      · next hleading =>
        obtain ⟨rfl, rfl⟩ := Prod.mk.inj (Except.ok.inj h)
        refine ⟨text, rfl, fun after => ?_⟩
        rw [readUnicode, hread]
        dsimp only
        rw [if_neg htrailing, if_neg hleading]

/-- An escape ends with its letter or with its digits. -/
theorem closes_readEscape : Closes readEscape := by
  intro cs rest d h
  unfold readEscape at h
  split at h
  · cases h
  · next c more =>
    split at h
    · next hc =>
      -- an escape by number
      obtain ⟨text, rfl, hread⟩ := closes_readUnicode h
      refine ⟨c :: text, rfl, fun after => ?_⟩
      rw [List.cons_append, readEscape, if_pos hc, hread]
    · next hc =>
      split at h
      · next hsimple =>
        obtain ⟨rfl, rfl⟩ := Prod.mk.inj (Except.ok.inj h)
        -- an escape of one letter
        refine ⟨[c], rfl, fun after => ?_⟩
        show readEscape (c :: after) = _
        rw [readEscape, if_neg hc, hsimple]
      · cases h

/-- The inside of a string ends with the mark that closes it. Induction on the reading. -/
theorem closes_readBody (before : List Char) : Closes (readBody before) := by
  intro cs rest s h
  fun_induction readBody before cs with
  | case1 => cases h
  | case2 before more =>
    obtain ⟨rfl, rfl⟩ := Prod.mk.inj (Except.ok.inj h)
    refine ⟨['"'], rfl, fun after => ?_⟩
    show readBody before ('"' :: after) = _
    rw [readBody, if_pos rfl]
  | case3 => cases h
  | case4 before more d after hescape hquote ih =>
    obtain ⟨text, hmore, hread⟩ := closes_readEscape hescape
    obtain ⟨tail, htail, hbody⟩ := ih h
    -- the text of the escape, and the text of the rest of the string behind it
    refine ⟨'\\' :: (text ++ tail), by rw [hmore, htail]; simp, fun after => ?_⟩
    rw [List.cons_append, List.append_assoc, readBody_escape (hread _)]
    exact hbody after
  | case5 => cases h
  | case6 before c more hquote hescape hcontrol ih =>
    obtain ⟨text, rfl, hread⟩ := ih h
    refine ⟨c :: text, rfl, fun after => ?_⟩
    rw [List.cons_append, readBody_plain hquote hescape hcontrol, hread]

/-! ## Readers -/

theorem Takes.eq_ok {reader : Reader α} {text : List Char} {x : α} (h : Takes reader text x) :
    reader text = .ok (x, []) := by
  have hread := h.reads [] [] Reader.blank_nil delimits_nil
  rwa [List.nil_append, List.append_nil] at hread

namespace Reader

/-- What the reader takes is, behind blanks, a text that was written for the value. -/
def CutsTo (reader : Reader α) (written : List Char → α → Prop) : Prop :=
  ∀ ⦃cs rest : List Char⦄ ⦃x : α⦄, reader cs = .ok (x, rest) →
    ∃ blanks text, cs = blanks ++ (text ++ rest) ∧ Blank blanks ∧ written text x

/-- What the reader takes is, behind blanks, a text that it takes wherever one may stand. -/
def Cuts (reader : Reader α) : Prop := CutsTo reader (Takes reader)

/-- What the reader takes it takes in front of every text that delimits numbers. -/
def Local (reader : Reader α) : Prop :=
  ∀ ⦃cs rest : List Char⦄ ⦃x : α⦄, reader cs = .ok (x, rest) →
    ∃ text, cs = text ++ rest ∧ ∀ after, Delimits after → reader (text ++ after) = .ok (x, after)

/-- So does the reader where the first character is given. -/
def LocalAt (c : Char) (reader : Reader α) : Prop :=
  ∀ ⦃more rest : List Char⦄ ⦃x : α⦄, reader (c :: more) = .ok (x, rest) →
    ∃ text, more = text ++ rest
      ∧ ∀ after, Delimits after → reader (c :: (text ++ after)) = .ok (x, after)

/-- So does the reader where a text is given, of which both others are cases. -/
def LocalBehind (front : List Char) (reader : Reader α) : Prop :=
  ∀ ⦃more rest : List Char⦄ ⦃x : α⦄, reader (front ++ more) = .ok (x, rest) →
    ∃ text, more = text ++ rest
      ∧ ∀ after, Delimits after → reader (front ++ (text ++ after)) = .ok (x, after)

theorem localBehind_nil {reader : Reader α} : LocalBehind [] reader ↔ Local reader := Iff.rfl

theorem localBehind_singleton {c : Char} {reader : Reader α} :
    LocalBehind [c] reader ↔ LocalAt c reader := Iff.rfl

theorem exists_of_bind {first : Reader α} {second : α → Reader β} {y : β}
    (h : (first >>= second) cs = .ok (y, rest)) :
    ∃ x between, first cs = .ok (x, between) ∧ second x between = .ok (y, rest) := by
  obtain ⟨⟨x, between⟩, hfirst, hsecond⟩ := exists_of_bind_eq_ok h
  exact ⟨x, between, hfirst, hsecond⟩

theorem exists_of_map {reader : Reader α} {f : α → β} {y : β}
    (h : (f <$> reader) cs = .ok (y, rest)) : ∃ x, reader cs = .ok (x, rest) ∧ f x = y := by
  obtain ⟨⟨x, between⟩, hx, hy⟩ := exists_of_bind_eq_ok h
  obtain ⟨rfl, rfl⟩ := Prod.mk.inj (Except.ok.inj hy)
  exact ⟨x, hx, rfl⟩

/-- A reader that looks at the next character and needs one has skipped blanks to find it. -/
theorem exists_of_peek? {second : Option Char → Reader α} {x : α}
    (hnone : second none = throw .truncated) (h : (peek? >>= second) cs = .ok (x, rest)) :
    ∃ blanks c more, cs = blanks ++ c :: more ∧ Blank blanks ∧ isJsonBlank c = false
      ∧ second (some c) (c :: more) = .ok (x, rest) := by
  replace h : second (cs.dropWhile isJsonBlank).head? (cs.dropWhile isJsonBlank) = .ok (x, rest) := h
  -- the blanks that are skipped are those in front of the first character
  have hsplit := List.takeWhile_append_dropWhile (p := isJsonBlank) (l := cs)
  cases hmore : cs.dropWhile isJsonBlank with
  | nil =>
    rw [hmore, List.head?_nil, hnone] at h
    cases h
  | cons c more =>
    rw [hmore] at h hsplit
    have hc := List.head?_dropWhile_not isJsonBlank cs
    rw [hmore] at hc
    exact ⟨_, c, more, hsplit.symm, fun b hb => List.mem_takeWhile_imp hb, hc, h⟩

/-- No blanks stand in front of another character. -/
theorem Blank.eq_nil {blanks more : List Char} {c : Char} (h : Blank blanks)
    (hc : isJsonBlank c = false) (heq : c :: more = blanks ++ rest) : blanks = [] := by
  cases blanks with
  | nil => rfl
  | cons b blanks =>
    obtain ⟨rfl, -⟩ := List.cons.inj heq
    rw [h c List.mem_cons_self] at hc
    cases hc

/-- A value that is cut out of its text is cut out of it as what a function makes of it. -/
theorem Cuts.map {reader : Reader α} (h : Cuts reader) (f : α → β) : Cuts (f <$> reader) := by
  intro cs rest y hy
  obtain ⟨x, hx, rfl⟩ := exists_of_map hy
  obtain ⟨blanks, text, hcs, hblanks, htakes⟩ := h hx
  exact ⟨blanks, text, hcs, hblanks, htakes.map f⟩

/-! ### From the first character on -/

theorem Cuts.of_localAt {second : Option Char → Reader α} (hnone : second none = throw .truncated)
    (hclose : ∀ more x rest, second (some ']') (']' :: more) ≠ .ok (x, rest))
    (h : ∀ c, isJsonBlank c = false → LocalAt c (second (some c))) : Cuts (peek? >>= second) := by
  intro cs rest x hx
  obtain ⟨blanks, c, more, rfl, hblanks, hc, hx⟩ := exists_of_peek? hnone hx
  -- an item never starts with a closing bracket
  have hne : c ≠ ']' := by
    rintro rfl
    exact hclose more x rest hx
  obtain ⟨text, rfl, hlocal⟩ := h c hc hx
  refine ⟨blanks, c :: text, rfl, hblanks, ⟨c, text, rfl, hc, hne⟩, ?_⟩
  -- other blanks in front are skipped just as those were
  intro blanks' after hblanks' hafter
  rw [List.cons_append, bind_of_ok (peek?_blanks hblanks' hc)]
  exact hlocal after hafter

/-- Where no blanks stand in front, the text that is taken starts with the first character. -/
theorem Cuts.exists_cons {reader : Reader α} (h : Cuts reader) {c : Char} (hc : isJsonBlank c = false)
    {more : List Char} {x : α} (hx : reader (c :: more) = .ok (x, rest)) :
    ∃ text, more = text ++ rest ∧ Takes reader (c :: text) x := by
  obtain ⟨blanks, own, heq, hblanks, htakes⟩ := h hx
  obtain rfl := hblanks.eq_nil hc heq
  obtain ⟨d, text, rfl, -⟩ := htakes.starts
  obtain ⟨rfl, rfl⟩ := List.cons.inj heq
  exact ⟨text, rfl, htakes⟩

/-- A text that a reader can read, and that starts as an item does, is taken wherever one may stand. -/
theorem Cuts.takes {reader : Reader α} (h : Cuts reader) {text : List Char} {x : α}
    (hstarts : StartsItem text) (hread : reader text = .ok (x, [])) : Takes reader text x := by
  obtain ⟨c, more, rfl, hc, -⟩ := hstarts
  obtain ⟨own, hmore, htakes⟩ := h.exists_cons hc hread
  rwa [hmore, List.append_nil]

/-- What is cut out of a text is taken with its first character, as no blanks stand in front of
it. -/
theorem Cuts.localAt {reader : Reader α} (h : Cuts reader) {c : Char} (hc : isJsonBlank c = false) :
    LocalAt c reader := by
  intro more rest x hx
  obtain ⟨text, rfl, htakes⟩ := h.exists_cons hc hx
  exact ⟨text, rfl, fun after hafter => htakes.reads [] after blank_nil hafter⟩

/-- No item is read at a closing bracket. -/
theorem Cuts.ne_close {reader : Reader α} (h : Cuts reader) {more : List Char} (x : α) :
    reader (']' :: more) ≠ .ok (x, rest) := by
  intro hx
  obtain ⟨text, -, htakes⟩ := h.exists_cons rfl hx
  obtain ⟨c, tail, heq, -, hne⟩ := htakes.starts
  exact hne (List.cons.inj heq).1.symm

/-- A reader that is local behind a text stays so when what it finds is put into another value. -/
theorem LocalBehind.bind_pure {front : List Char} {reader : Reader α} (h : LocalBehind front reader)
    (f : α → β) : LocalBehind front (reader >>= fun x => pure (f x)) := by
  intro more rest y hy
  obtain ⟨x, between, hx, hy⟩ := exists_of_bind hy
  obtain ⟨rfl, rfl⟩ := Prod.mk.inj (Except.ok.inj hy)
  obtain ⟨text, hmore, hlocal⟩ := h hx
  refine ⟨text, hmore, fun after hafter => ?_⟩
  rw [bind_of_ok (hlocal after hafter)]
  rfl

theorem Local.bind_pure {reader : Reader α} (h : Local reader) (f : α → β) :
    Local (reader >>= fun x => pure (f x)) :=
  localBehind_nil.mp ((localBehind_nil.mpr h).bind_pure f)

/-- What ends by itself is taken in front of every text. -/
theorem Local.of_closes {reader : Reader α} (h : Closes reader) : Local reader := by
  intro cs rest x hx
  obtain ⟨text, hcs, hread⟩ := h hx
  exact ⟨text, hcs, fun after _ => hread after⟩

theorem local_body : Local body := .of_closes (closes_readBody [])

theorem local_number : Local number := by
  intro cs rest n hn
  obtain ⟨text, hcs, hread⟩ := severs_readNumber hn
  exact ⟨text, hcs, fun after hafter => extends_readNumber hread hafter⟩

/-- A word that is read stood in front of the rest. -/
theorem word_eq_ok {expected : List Char} (h : word expected cs = .ok ((), rest)) :
    cs = expected ++ rest := by
  induction expected generalizing cs with
  | nil => exact (Prod.mk.inj (Except.ok.inj h)).2
  | cons d more ih =>
    cases cs with
    | nil => cases h
    | cons c tail =>
      rw [word, bind_of_ok (x := c :: tail) rfl] at h
      simp only [List.head?_cons] at h
      split at h
      · next hc =>
        -- the character is the expected one, and the induction gives the others
        subst hc
        rw [bind_of_ok drop_cons] at h
        rw [ih h, List.cons_append]
      · cases h

theorem local_word (expected : List Char) : Local (word expected) := by
  rintro cs rest ⟨⟩ h
  exact ⟨expected, word_eq_ok h, fun after _ => word_append expected after⟩

section FirstCharacter

variable {c : Char}

theorem LocalAt.of_ne_ok {reader : Reader α}
    (h : ∀ more x rest, reader (c :: more) ≠ .ok (x, rest)) : LocalAt c reader :=
  fun more rest x hx => absurd hx (h more x rest)

/-- A reader that takes nothing off an empty text takes the first character itself. -/
theorem Local.at {reader : Reader α} (h : Local reader) (hempty : ∀ x, reader [] ≠ .ok (x, [])) :
    LocalAt c reader := by
  intro more rest x hx
  obtain ⟨text, htext, hread⟩ := h hx
  cases text with
  | nil => exact absurd (hread [] delimits_nil) (hempty x)
  | cons d text =>
    obtain ⟨rfl, rfl⟩ := List.cons.inj htext
    exact ⟨text, rfl, hread⟩

theorem LocalAt.bind_pure {reader : Reader α} (h : LocalAt c reader) (f : α → β) :
    LocalAt c (reader >>= fun x => pure (f x)) :=
  localBehind_singleton.mp ((localBehind_singleton.mpr h).bind_pure f)

/-- Where the first character is dropped, the next reader takes the text behind it. -/
theorem LocalAt.drop {next : Unit → Reader α} (h : Local (next ())) :
    LocalAt c (Reader.drop >>= next) := by
  intro more rest x hx
  exact h hx

theorem localAt_word {d : Char} (expected : List Char) : LocalAt c (word (d :: expected)) :=
  (local_word _).at fun _ => nofun

theorem localAt_number : LocalAt c number := local_number.at fun _ => nofun

theorem refuseFound_ne_ok (expected : String) (x : α) :
    refuseFound expected cs ≠ .ok (x, rest) := by
  intro h
  obtain ⟨found, between, -, h⟩ := exists_of_bind h
  cases h

theorem localAt_refuseFound (expected : String) : LocalAt c (refuseFound expected : Reader α) :=
  .of_ne_ok fun _ x _ => refuseFound_ne_ok expected x

end FirstCharacter

/-! ### Values without parts -/

theorem cuts_text : Cuts Reader.text := by
  refine .of_localAt rfl (fun more x rest => ?_) fun c hc => ?_
  · exact refuseFound_ne_ok "a string" x
  · dsimp only
    split
    · exact .drop local_body
    · exact localAt_refuseFound _

/-- A mark that has to come next is read behind blanks. -/
theorem exists_of_mark {mark : Char}
    (h : (do
      match ← peek? with
      | none => throw .truncated
      | some c => if c = mark then drop else throw .malformed : Reader Unit) cs = .ok ((), rest)) :
    ∃ blanks, cs = blanks ++ mark :: rest ∧ Blank blanks := by
  obtain ⟨blanks, c, more, rfl, hblanks, -, h⟩ := exists_of_peek? rfl h
  dsimp only at h
  split at h
  · next hc =>
    obtain ⟨-, rfl⟩ := Prod.mk.inj (Except.ok.inj h)
    exact ⟨blanks, by rw [hc]; rfl, hblanks⟩
  · cases h

/-- The first character of a scalar says which reader takes it, and each of them is local. -/
theorem cuts_scalar : Cuts scalar := by
  refine .of_localAt rfl (fun more x rest => nofun) fun c hc => ?_
  -- one reader for each first character: the three words, a string, a number, and no other
  dsimp only
  split
  · exact (localAt_word _).bind_pure fun _ => Value.null
  split
  · exact (localAt_word _).bind_pure fun _ => Value.boolean true
  split
  · exact (localAt_word _).bind_pure fun _ => Value.boolean false
  split
  · exact .drop (local_body.bind_pure Value.string)
  split
  · exact localAt_number.bind_pure Value.number
  · exact .of_ne_ok fun _ _ _ => nofun

/-- What a scalar is: a word, a string, or a number that the reader of numbers has read. -/
theorem scalar_eq_ok {v : Value} (h : scalar cs = .ok (v, rest)) :
    v = .null ∨ (∃ b, v = .boolean b) ∨ (∃ s, v = .string s)
      ∨ ∃ n more, v = .number n ∧ number more = .ok (n, rest) := by
  obtain ⟨blanks, c, more, rfl, -, -, h⟩ := exists_of_peek? rfl h
  -- one kind for each first character, as in `cuts_scalar`
  dsimp only at h
  split at h
  · obtain ⟨⟨⟩, between, -, ⟨⟩⟩ := exists_of_bind h
    exact .inl rfl
  split at h
  · obtain ⟨⟨⟩, between, -, ⟨⟩⟩ := exists_of_bind h
    exact .inr (.inl ⟨true, rfl⟩)
  split at h
  · obtain ⟨⟨⟩, between, -, ⟨⟩⟩ := exists_of_bind h
    exact .inr (.inl ⟨false, rfl⟩)
  split at h
  · rw [bind_of_ok drop_cons] at h
    obtain ⟨s, between, -, ⟨⟩⟩ := exists_of_bind h
    exact .inr (.inr (.inl ⟨s, rfl⟩))
  split at h
  · obtain ⟨n, between, hn, ⟨⟩⟩ := exists_of_bind h
    exact .inr (.inr (.inr ⟨n, _, rfl, hn⟩))
  · cases h

/-- A value that may be `null` is cut out of its text as the value or as the word. -/
theorem Cuts.optional {item : Reader α} (h : Cuts item) : Cuts (Reader.optional item) := by
  refine .of_localAt rfl (fun more x rest hx => ?_) fun c hc => ?_
  · obtain ⟨y, between, hy, -⟩ := exists_of_bind hx
    exact h.ne_close y hy
  · dsimp only
    split
    · exact (localAt_word _).bind_pure fun _ => none
    · exact (h.localAt hc).bind_pure some

/-- A word of 32 bits is cut out of its text as the number it is. -/
theorem cuts_word32 : Cuts word32 := by
  refine .of_localAt rfl (fun more x rest => refuseFound_ne_ok "u32" x) fun c hc => ?_
  dsimp only
  split
  · intro more rest v hv
    obtain ⟨n, between, hn, hv⟩ := exists_of_bind hv
    -- the number is local, and its range is tested on its value alone
    obtain ⟨text, rfl, hread⟩ := localAt_number hn
    cases n with
    | double x => cases hv
    | integer n =>
      dsimp only at hv
      split at hv
      · next hrange =>
        obtain ⟨rfl, rfl⟩ := Prod.mk.inj (Except.ok.inj hv)
        refine ⟨text, rfl, fun after hafter => ?_⟩
        rw [bind_of_ok (hread after hafter)]
        dsimp only
        rw [if_pos hrange]
        rfl
      · cases hv
  · exact localAt_refuseFound _

end Reader

end FormulaSheet.Json
