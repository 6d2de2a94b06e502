import FormulaSheet.Json.Skip
import FormulaSheet.Proofs.Json.Pieces

/-!
# FormulaSheet — the text that is passed over

A value under an unknown key is passed over by a walk with a stack of open containers. What the walk
takes it takes in front of every text that delimits numbers, and the number of its steps is bounded by
the length of that text alone (`SkipsOver`). So what stands behind the value does not matter
(`cuts_skip`).

* `closes_skipBody`, `closes_skipKey` — strings and keys.
* `SkipsOver` and its lemmas — one for each step that the walk can take.
* `exists_text_of_skipFrom` — the walk.
-/

namespace FormulaSheet.Json

open Reader

variable {cs rest blanks text : List Char} {c : Char}

/-! ## Strings and keys -/

theorem skipEscape_eq_ok (h : skipEscape cs = .ok rest) :
    ∃ text, cs = text ++ rest ∧ ∀ after, skipEscape (text ++ after) = .ok after := by
  unfold skipEscape at h
  split at h
  · cases h
  · next c more =>
    split at h
    · next hc =>
      -- an escape by number
      obtain ⟨⟨n, between⟩, hhex, rfl⟩ := exists_of_map_eq_ok h
      obtain ⟨text, rfl, hread⟩ := closes_readHex hhex
      refine ⟨c :: text, rfl, fun after => ?_⟩
      rw [List.cons_append, skipEscape, if_pos hc, hread]
      rfl
    · next hc =>
      split at h
      · next hsimple =>
        -- an escape of one letter
        obtain rfl := Except.ok.inj h
        refine ⟨[c], rfl, fun after => ?_⟩
        show skipEscape (c :: after) = _
        rw [skipEscape, if_neg hc, if_pos hsimple]
      · cases h

theorem skipBody_escape (h : skipEscape cs = .ok rest) : skipBody ('\\' :: cs) = skipBody rest := by
  rw [skipBody, if_neg (by decide), if_pos rfl]
  split
  · next hfail => cases hfail.symm.trans h
  · next hok => rw [Except.ok.inj (hok.symm.trans h)]

/-- The inside of a string that is skipped ends with its mark, whatever follows. -/
theorem skipBody_eq_ok (h : skipBody cs = .ok rest) :
    ∃ text, cs = text ++ rest ∧ ∀ after, skipBody (text ++ after) = .ok after := by
  fun_induction skipBody cs with
  | case1 => cases h
  | case2 more =>
    obtain rfl := Except.ok.inj h
    refine ⟨['"'], rfl, fun after => ?_⟩
    show skipBody ('"' :: after) = _
    rw [skipBody, if_pos rfl]
  | case3 => cases h
  | case4 more after hescape hquote ih =>
    obtain ⟨text, hmore, hread⟩ := skipEscape_eq_ok hescape
    obtain ⟨tail, htail, hbody⟩ := ih h
    -- the text of the escape, and the text of the rest of the string behind it
    refine ⟨'\\' :: (text ++ tail), by rw [hmore, htail]; simp, fun after => ?_⟩
    rw [List.cons_append, List.append_assoc, skipBody_escape (hread _)]
    exact hbody after
  | case5 => cases h
  | case6 c more hquote hescape hcontrol ih =>
    obtain ⟨text, rfl, hread⟩ := ih h
    refine ⟨c :: text, rfl, fun after => ?_⟩
    rw [List.cons_append, skipBody, if_neg hquote, if_neg hescape, if_neg hcontrol, hread]

theorem closes_skipString : Closes skipString := by
  rintro cs rest ⟨⟩ h
  obtain ⟨between, hbody, heq⟩ := exists_of_map_eq_ok h
  obtain ⟨-, rfl⟩ := Prod.mk.inj heq
  obtain ⟨text, hcs, hread⟩ := skipBody_eq_ok hbody
  refine ⟨text, hcs, fun after => ?_⟩
  show (skipBody (text ++ after)).map ((), ·) = _
  rw [hread]
  rfl

/-- A number that is skipped is skipped in front of every text that ends it. -/
theorem local_skipNumber : Local skipNumber := by
  rintro cs rest ⟨⟩ h
  obtain ⟨⟨n, between⟩, hread, heq⟩ := exists_of_map_eq_ok h
  obtain ⟨-, rfl⟩ := Prod.mk.inj heq
  obtain ⟨text, hcs, htext⟩ := severs_read _ hread
  refine ⟨text, hcs, fun after hafter => ?_⟩
  have hextends : Numeral.read .malformed (text ++ after) = .ok (n, after) :=
    extends_read .malformed htext hafter
  show (Numeral.read .malformed (text ++ after)).map _ = _
  rw [hextends]
  rfl

/-- A key that is skipped ends with its colon, and in a list there is none. -/
theorem closes_skipKey (bracket : Bracket) : Closes (skipKey bracket) := by
  rintro cs rest ⟨⟩ h
  cases bracket with
  -- an item has no key
  | square =>
    obtain ⟨-, rfl⟩ := Prod.mk.inj (Except.ok.inj h)
    exact ⟨[], rfl, fun after => rfl⟩
  | curly =>
    obtain ⟨blanks, c, more, rfl, hblanks, hc, h⟩ := exists_of_peek? rfl h
    dsimp only at h
    split at h
    · next hmark =>
      subst hmark
      rw [bind_of_ok drop_cons] at h
      obtain ⟨⟨⟩, between, hstring, hcolon⟩ := exists_of_bind h
      obtain ⟨text, rfl, hread⟩ := closes_skipString hstring
      obtain ⟨gap, rfl, hgap⟩ := colon_eq_ok hcolon
      refine ⟨blanks ++ '"' :: (text ++ (gap ++ [':'])), by simp, fun after => ?_⟩
      have hassoc : blanks ++ '"' :: (text ++ (gap ++ [':'])) ++ after
          = blanks ++ '"' :: (text ++ (gap ++ ':' :: after)) := by simp
      rw [hassoc, skipKey, bind_of_ok (peek?_blanks hblanks hc)]
      dsimp only
      rw [if_pos rfl, bind_of_ok drop_cons, bind_of_ok (hread _), colon,
        bind_of_ok (peek?_blanks hgap rfl)]
      rfl
    · cases h

/-- The first character of a scalar says how it is skipped. -/
theorem localAt_skipScalar (c : Char) : LocalAt c (skipScalar c) := by
  rw [skipScalar]
  split
  · exact localAt_word _
  split
  · exact localAt_word _
  split
  · exact localAt_word _
  split
  · exact .drop (.of_closes closes_skipString)
  split
  · exact local_skipNumber.at fun _ => nofun
  · exact .of_ne_ok fun _ _ _ => nofun

/-! ## The walk -/

/-- The steps that the walk may take in front of the first character that it needs. -/
def Reader.SkipState.spare : SkipState → Nat
  | value => 0
  | opened | complete => 1

/-- From the state on, with these containers open, the walk takes the text: with two steps for each
character, and in front of every text that delimits numbers. -/
def SkipsOver (stack : List Bracket) (state : SkipState) (text : List Char) : Prop :=
  ∀ bound after, 2 * text.length + state.spare ≤ bound → Delimits after →
    skipFrom bound stack state (text ++ after) = .ok ((), after)

/-- The text can follow a number. -/
def DelimitsBefore (text : List Char) : Prop := ∀ after, Delimits after → Delimits (text ++ after)

/-- The opening character of a container. -/
def Reader.Bracket.opening : Bracket → Char
  | square => '['
  | curly => '\x7b'

section Steps

variable {stack : List Bracket} {state : SkipState} {bracket : Bracket} {more : List Char}

theorem skipsOver_nil (h : state ≠ .value) : SkipsOver [] state [] := by
  intro bound after hbound _
  cases state with
  | value => exact absurd rfl h
  | opened | complete =>
    obtain ⟨bound, rfl⟩ := Nat.exists_eq_add_of_lt (Nat.lt_of_lt_of_le Nat.zero_lt_one hbound)
    rfl

/-- One step of the walk, which takes a character or leaves a state that has a step to spare. -/
theorem SkipsOver.step {stack' : List Bracket} {state' : SkipState} {text' : List Char}
    (h : SkipsOver stack' state' text')
    (hlength : 2 * text'.length + state'.spare < 2 * text.length + state.spare)
    (hstep : ∀ bound after, Delimits after →
      skipFrom (bound + 1) stack state (text ++ after) = skipFrom bound stack' state' (text' ++ after)) :
    SkipsOver stack state text := by
  intro bound after hbound hafter
  obtain ⟨bound, rfl⟩ := Nat.exists_eq_succ_of_ne_zero
    (Nat.ne_zero_of_lt (Nat.lt_of_lt_of_le hlength hbound))
  rw [hstep bound after hafter]
  exact h bound after (Nat.le_of_lt_succ (Nat.lt_of_lt_of_le hlength hbound)) hafter

theorem SkipsOver.ne_nil (h : SkipsOver stack .value text) : text ≠ [] := by
  rintro rfl
  cases h 0 [] (Nat.le_refl 0) delimits_nil

/-- A bracket that opens is skipped with what stands in it. -/
theorem SkipsOver.open (h : SkipsOver (bracket :: stack) .opened text) (hblanks : Blank blanks) :
    SkipsOver stack .value (blanks ++ bracket.opening :: text) := by
  refine h.step ?_ fun bound after _ => ?_
  · simp only [List.length_append, List.length_cons, SkipState.spare]
    omega
  · rw [List.append_assoc, List.cons_append, skipFrom]
    cases bracket <;>
    · rw [bind_of_ok (peek?_blanks hblanks (by decide))]
      rfl

/-- A scalar is skipped in front of what is skipped behind it. -/
theorem SkipsOver.scalar (h : SkipsOver stack .complete text) (hdelimits : DelimitsBefore text)
    (hblanks : Blank blanks) (hc : isJsonBlank c = false) (hsquare : c ≠ '[') (hcurly : c ≠ '\x7b')
    (hscalar : ∀ after, Delimits after → skipScalar c (c :: (more ++ after)) = .ok ((), after)) :
    SkipsOver stack .value (blanks ++ c :: (more ++ text)) := by
  refine h.step ?_ fun bound after hafter => ?_
  · simp only [List.length_append, List.length_cons, SkipState.spare]
    omega
  · rw [List.append_assoc, List.cons_append, List.append_assoc, skipFrom,
      bind_of_ok (peek?_blanks hblanks hc)]
    dsimp only
    rw [if_neg hsquare, if_neg hcurly, bind_of_ok (hscalar _ (hdelimits after hafter))]

/-- A bracket that closes is skipped where no value is due. -/
theorem SkipsOver.close (h : SkipsOver stack .complete text) (hblanks : Blank blanks)
    (hstate : state ≠ .value) :
    SkipsOver (bracket :: stack) state (blanks ++ bracket.closing :: text) := by
  have hblank : isJsonBlank bracket.closing = false := by cases bracket <;> rfl
  refine h.step ?_ fun bound after _ => ?_
  · -- every character is worth two steps, and the bracket takes one
    simp only [List.length_append, List.length_cons, SkipState.spare]
    omega
  · rw [List.append_assoc, List.cons_append]
    cases state with
    | value => exact absurd rfl hstate
    -- a list or record may end empty or behind a value
    | opened | complete =>
      rw [skipFrom, bind_of_ok (peek?_blanks hblanks hblank)]
      · dsimp only
        rw [if_pos rfl]
        rfl
      · exact hstate

/-- The first item of a container, or its first member. -/
theorem SkipsOver.first {key : List Char} (h : SkipsOver (bracket :: stack) .value text)
    (hblanks : Blank blanks) (hcons : key ++ text = c :: more) (hc : isJsonBlank c = false)
    (hclose : c ≠ bracket.closing)
    (hkey : ∀ after, skipKey bracket (key ++ after) = .ok ((), after)) :
    SkipsOver (bracket :: stack) .opened (blanks ++ (key ++ text)) := by
  refine h.step ?_ fun bound after _ => ?_
  · simp only [List.length_append, SkipState.spare]
    omega
  · -- what stands there is not the closing bracket, so a key is due
    have hkey' := hkey (text ++ after)
    rw [← List.append_assoc, hcons, List.cons_append] at hkey'
    rw [List.append_assoc, hcons, List.cons_append, skipFrom, bind_of_ok (peek?_blanks hblanks hc)]
    · dsimp only
      rw [if_neg hclose, if_neg (by decide), bind_of_ok hkey']
    · exact nofun

/-- Another item of a container, or another member. -/
theorem SkipsOver.next {key : List Char} (h : SkipsOver (bracket :: stack) .value text)
    (hblanks : Blank blanks) (hkey : ∀ after, skipKey bracket (key ++ after) = .ok ((), after)) :
    SkipsOver (bracket :: stack) .complete (blanks ++ ',' :: (key ++ text)) := by
  have hclose : ',' ≠ bracket.closing := by cases bracket <;> decide
  refine h.step ?_ fun bound after _ => ?_
  · simp only [List.length_append, List.length_cons, SkipState.spare]
    omega
  · rw [List.append_assoc, List.cons_append, List.append_assoc, skipFrom,
      bind_of_ok (peek?_blanks hblanks rfl)]
    · dsimp only
      rw [if_neg hclose, if_pos rfl, if_pos rfl, bind_of_ok drop_cons, bind_of_ok (hkey _)]
    · exact nofun

/-- Blanks and a character that ends numbers end them in front of any text. -/
theorem delimitsBefore_blanks (hblanks : Blank blanks)
    (hc : Decimal.isDigit c = false ∧ c ≠ '.' ∧ c ≠ 'e' ∧ c ≠ 'E') :
    DelimitsBefore (blanks ++ c :: text) := by
  intro after _
  rw [List.append_assoc]
  exact hblanks.delimits (delimits_cons _ hc)

end Steps

section Inversion

variable {bound : Nat} {stack : List Bracket} {state : SkipState} {bracket : Bracket}

/-- A value starts with the opening character of a container, or it has none. -/
theorem exists_of_skipFrom_value (h : skipFrom (bound + 1) stack .value cs = .ok ((), rest)) :
    ∃ blanks c more, cs = blanks ++ c :: more ∧ Blank blanks ∧ isJsonBlank c = false
      ∧ ((∃ bracket : Bracket, c = bracket.opening
          ∧ skipFrom bound (bracket :: stack) .opened more = .ok ((), rest))
        ∨ (c ≠ '[' ∧ c ≠ '\x7b' ∧ ∃ between, skipScalar c (c :: more) = .ok ((), between)
          ∧ skipFrom bound stack .complete between = .ok ((), rest))) := by
  rw [skipFrom] at h
  obtain ⟨blanks, c, more, hcs, hblanks, hc, hstep⟩ := exists_of_peek? rfl h
  refine ⟨blanks, c, more, hcs, hblanks, hc, ?_⟩
  -- an opening bracket is put on the stack, and any other character starts a scalar
  dsimp only at hstep
  split at hstep
  · next hopen => exact .inl ⟨.square, hopen, hstep⟩
  split at hstep
  · next hopen => exact .inl ⟨.curly, hopen, hstep⟩
  · next hsquare hcurly =>
    obtain ⟨⟨⟩, between, hscalar, hrest⟩ := exists_of_bind hstep
    exact .inr ⟨hsquare, hcurly, between, hscalar, hrest⟩

/-- Inside a container the walk closes it or goes on to a value. -/
theorem exists_of_skipFrom_inside (hstate : state ≠ .value)
    (h : skipFrom (bound + 1) (bracket :: stack) state cs = .ok ((), rest)) :
    ∃ blanks c more, cs = blanks ++ c :: more ∧ Blank blanks ∧ isJsonBlank c = false
      ∧ ((c = bracket.closing ∧ skipFrom bound stack .complete more = .ok ((), rest))
        ∨ ∃ between, skipFrom bound (bracket :: stack) .value between = .ok ((), rest)
          ∧ ((state = .complete ∧ c = ',' ∧ skipKey bracket more = .ok ((), between))
            ∨ (state = .opened ∧ c ≠ bracket.closing
              ∧ skipKey bracket (c :: more) = .ok ((), between)))) := by
  rw [skipFrom] at h
  swap
  · exact hstate
  obtain ⟨blanks, c, more, hcs, hblanks, hc, hstep⟩ := exists_of_peek? rfl h
  refine ⟨blanks, c, more, hcs, hblanks, hc, ?_⟩
  dsimp only at hstep
  split at hstep
  · next hclose => exact .inl ⟨hclose, hstep⟩
  split at hstep
  · next hclose hcomplete =>
    split at hstep
    · next hcomma =>
      rw [bind_of_ok drop_cons] at hstep
      obtain ⟨⟨⟩, between, hkey, hrest⟩ := exists_of_bind hstep
      exact .inr ⟨between, hrest, .inl ⟨hcomplete, hcomma, hkey⟩⟩
    · cases hstep
  · next hclose hcomplete =>
    obtain ⟨⟨⟩, between, hkey, hrest⟩ := exists_of_bind hstep
    -- of the three states this one is left
    have hopened : state = .opened := by
      cases state with
      | value => exact absurd rfl hstate
      | opened => rfl
      | complete => exact absurd rfl hcomplete
    exact .inr ⟨between, hrest, .inr ⟨hopened, hclose, hkey⟩⟩

end Inversion

/-- **What the walk takes** does not depend on what stands behind, nor on the bound. -/
theorem exists_text_of_skipFrom {bound : Nat} {stack : List Bracket} {state : SkipState}
    (h : skipFrom bound stack state cs = .ok ((), rest)) :
    ∃ text, cs = text ++ rest ∧ SkipsOver stack state text
      ∧ (state = .complete → DelimitsBefore text) := by
  -- the bound falls with each step, while the stack and the state change as the walk goes on
  induction bound generalizing cs stack state with
  | zero => cases h
  | succ bound ih =>
    by_cases hstate : state = .value
    · subst hstate
      obtain ⟨blanks, c, more, rfl, hblanks, hc, ⟨bracket, rfl, hmore⟩
        | ⟨hsquare, hcurly, between, hscalar, hmore⟩⟩ := exists_of_skipFrom_value h
      · obtain ⟨text, rfl, htext, -⟩ := ih hmore
        refine ⟨_, ?_, htext.open hblanks, nofun⟩
        rw [List.append_assoc, List.cons_append]
      · obtain ⟨text, rfl, htext, hdelimits⟩ := ih hmore
        obtain ⟨own, rfl, hown⟩ := localAt_skipScalar c hscalar
        refine ⟨_, ?_, htext.scalar (hdelimits rfl) hblanks hc hsquare hcurly hown, nofun⟩
        simp only [List.append_assoc, List.cons_append]
    cases stack with
    | nil =>
      -- nothing is open any more, so the walk ends here
      have hdone : skipFrom (bound + 1) [] state cs = .ok ((), cs) := by
        rw [skipFrom]
        · rfl
        · exact hstate
      obtain ⟨-, rfl⟩ := Prod.mk.inj (Except.ok.inj (hdone.symm.trans h))
      exact ⟨[], rfl, skipsOver_nil hstate, fun _ _ hafter => hafter⟩
    | cons bracket stack =>
      obtain ⟨blanks, c, more, rfl, hblanks, hc, ⟨rfl, hmore⟩ | ⟨between, hmore, hkey⟩⟩ :=
        exists_of_skipFrom_inside hstate h
      · -- the bracket that closes also ends a number in front of it
        obtain ⟨text, rfl, htext, -⟩ := ih hmore
        refine ⟨_, ?_, htext.close hblanks hstate, fun _ => delimitsBefore_blanks hblanks ?_⟩
        · rw [List.append_assoc, List.cons_append]
        · cases bracket <;> decide
      obtain ⟨text, rfl, htext, -⟩ := ih hmore
      obtain ⟨rfl, rfl, hkey⟩ | ⟨rfl, hclose, hkey⟩ := hkey
      · obtain ⟨key, rfl, hread⟩ := closes_skipKey bracket hkey
        refine ⟨_, ?_, htext.next hblanks hread, fun _ => delimitsBefore_blanks hblanks (by decide)⟩
        simp only [List.append_assoc, List.cons_append]
      · obtain ⟨key, hcons, hread⟩ := closes_skipKey bracket hkey
        -- a value takes a character, so the text starts with the one that is seen
        obtain ⟨d, tail, htail⟩ :=
          List.exists_cons_of_ne_nil (List.append_ne_nil_of_right_ne_nil key htext.ne_nil)
        obtain ⟨rfl, -⟩ : d = c ∧ tail ++ rest = more := by
          rw [← List.append_assoc, htail] at hcons
          exact ⟨(List.cons.inj hcons).1.symm, (List.cons.inj hcons).2.symm⟩
        refine ⟨_, ?_, htext.first hblanks htail hc hclose hread, nofun⟩
        simp only [hcons, List.append_assoc]

/-- **A value that is passed over** is one wherever it stands. -/
theorem cuts_skip : Cuts skip := by
  rintro cs rest ⟨⟩ h
  rw [skip, bind_of_ok length_eq] at h
  obtain ⟨blanks, c, more, rfl, hblanks, hc, hstart⟩ := exists_of_skipFrom_value h
  have hclose : c ≠ ']' := by
    rintro rfl
    obtain ⟨bracket, hopen, -⟩ | ⟨-, -, between, hscalar, -⟩ := hstart
    · cases bracket <;> cases hopen
    · cases hscalar
  -- without the blanks in front the walk takes the same steps
  have hskip : ∀ bound, skipFrom (bound + 1) [] .value (blanks ++ c :: more)
      = skipFrom (bound + 1) [] .value (c :: more) := fun bound => by
    rw [skipFrom, bind_peek?_append hblanks]
  rw [hskip] at h
  obtain ⟨text, htext, hover, -⟩ := exists_text_of_skipFrom h
  obtain ⟨d, tail, rfl⟩ := List.exists_cons_of_ne_nil hover.ne_nil
  obtain ⟨rfl, -⟩ := List.cons.inj htext
  refine ⟨blanks, c :: tail, by rw [htext], hblanks, ⟨c, tail, rfl, hc, hclose⟩, ?_⟩
  intro blanks' after hblanks' hafter
  rw [skip, bind_of_ok length_eq]
  have hbound : 2 * (c :: tail).length + SkipState.value.spare
      ≤ 2 * (blanks' ++ (c :: tail ++ after)).length + 2 := by
    simp only [List.length_append, List.length_cons, SkipState.spare]
    omega
  have hover := hover _ after hbound hafter
  rw [skipFrom] at hover ⊢
  rwa [bind_peek?_append hblanks']

end FormulaSheet.Json
