import FormulaSheet.Proofs.Decimal.Rereading
import FormulaSheet.Proofs.Formula.Printing

/-!
# FormulaSheet — words spelled out

The words of a text are spelled out again as messages quote them, with a blank between any two. A blank
ends every word in front of it, so each word is read by itself (`tokenize_spell`). Names and symbols are
spelled as they were. A number is spelled with other digits, but they denote the same double; only an
infinity is spelled with letters.

* `tokenize_write` — a finite number by itself.
* `tokenize_word` — any word by itself.
* `tokenize_respelled` — the headline.
-/

namespace FormulaSheet

open Decimal Double

/-- The words one after the other, with a blank between any two. -/
def spell (tokens : List Token) : String := " ".intercalate (tokens.map Token.text)

/-- The text with other spaces and digits. -/
def respelled (source : String) : String := spell (tokenize source)

/-- A blank only separates the tokens on its two sides. -/
theorem tokenize_blank (before after : String) :
    tokenize (before ++ " " ++ after) = tokenize before ++ tokenize after :=
  tokenize_dropped (show IsDropped ' ' by decide) before after

/-- Words between blanks are read one by one. -/
theorem tokenize_spell (tokens : List Token) :
    tokenize (spell tokens) = tokens.flatMap fun token => tokenize token.text := by
  induction tokens with
  | nil => exact tokenize_empty
  | cons token rest ih =>
    rw [List.flatMap_cons, ← ih, spell, spell, List.map_cons]
    cases rest with
    | nil => rw [List.map_nil, String.intercalate_singleton, String.intercalate_nil, tokenize_empty,
        List.append_nil]
    | cons next more =>
      -- a blank stands in front of the next token
      rw [List.map_cons, String.intercalate_cons_cons, String.append_assoc, ← String.append_assoc,
        tokenize_blank]

/-! ## Single words -/

namespace Token

/-- What a word is read as when it is spelled out: the same, if it is not a number without digits. -/
def reread : Token → Token
  | number value => if value.isFinite then number value else name (number value).text
  | token => token

theorem text_reread (token : Token) : token.reread.text = token.text := by
  cases token with
  | number value =>
    rw [reread]
    split <;> rfl
  | _ => rfl

/-- A token is reread as itself unless it is a number that is not finite. -/
theorem reread_eq_self_iff {token : Token} :
    token.reread = token ↔ ∀ value, token = number value → value.isFinite = true := by
  cases token with
  | number value =>
    rw [reread]
    split
    · next hfinite => exact ⟨fun _ other heq => by cases heq; exact hfinite, fun _ => rfl⟩
    · next hinfinite => exact ⟨nofun, fun h => absurd (h value rfl) hinfinite⟩
  | _ => exact ⟨fun _ => nofun, fun _ => rfl⟩

end Token

theorem tokenize_symbol {c : Char} {token : Token} (hc : c ∈ symbols)
    (htoken : symbolToken? c = some token) : tokenize (String.singleton c) = [token] := by
  have hbound := tokenize_boundary (isBoundary_of_mem_symbols c hc) "" ""
  rwa [String.empty_append, String.append_empty, tokenize_empty, htoken] at hbound

/-- A finite number is spelled with digits, which denote it. -/
theorem tokenize_write {value : Float} (hfinite : value.isFinite = true) (hsign : NoMinus value) :
    tokenize (plainLayout.write value) = [.number value] := by
  obtain ⟨whole, fraction, hwhole, hfraction, htext, hvalue⟩ := exists_lexeme_write hfinite hsign
  rw [htext, tokenize_number hwhole hfraction, hvalue]

/-- Other numbers are spelled with letters. -/
theorem isName_write {value : Float} (hinfinite : value.isFinite = false) (hsign : NoMinus value) :
    IsName (plainLayout.write value).toList := by
  have hplus := hsign.isPlus
  replace hinfinite : value.toModel.unpack.isFinite = false := hinfinite
  rw [Layout.write, withMinus, String.toList_ofList, datum_ofFloat]
  -- the words for what is not finite are names
  generalize value.toModel.unpack = u at hplus hinfinite ⊢
  rw [isName_iff]
  cases hplus with
  | notANumber => exact ⟨'N', ['a', 'N'], rfl, List.all_eq_true.mp rfl, rfl⟩
  | infinity => exact ⟨'i', ['n', 'f'], rfl, List.all_eq_true.mp rfl, rfl⟩
  | zero => exact Bool.noConfusion hinfinite
  | finite m e hm => exact Bool.noConfusion hinfinite

/-- **A word by itself.** -/
theorem tokenize_word {source : String} {token : Token} (h : token ∈ tokenize source) :
    tokenize token.text = [token.reread] := by
  obtain ⟨lexeme, hlexeme⟩ := exists_isTokenOf h
  cases hlexeme with
  | @number _ value hpiece hvalue =>
    have hsign := noMinus_of_mem_tokenize h
    rw [Token.reread]
    -- a number is spelled with its shortest digits, or with a word if it is infinite
    split
    · next hfinite => exact tokenize_write hfinite hsign
    · next hinfinite => exact tokenize_name (isName_write (Bool.eq_false_iff.mpr hinfinite) hsign)
  | name hpiece => exact tokenize_name (isName_of_mem_tokenize h)
  | operator op => exact tokenize_symbol (symbol_mem_symbols op) (symbolToken?_symbol op)
  | caret => exact tokenize_symbol (c := '^') (by decide) rfl
  | openParen => exact tokenize_symbol (c := '(') (by decide) rfl
  | closeParen => exact tokenize_symbol (c := ')') (by decide) rfl

/-! ## Whole texts -/

theorem tokenize_respelled_eq_map (source : String) :
    tokenize (respelled source) = (tokenize source).map Token.reread := by
  rw [respelled, tokenize_spell, List.map_eq_flatMap]
  exact List.flatMap_congr fun token hmem => tokenize_word hmem

/-- A second respelling changes nothing. -/
theorem respelled_respelled (source : String) : respelled (respelled source) = respelled source := by
  have htexts : (tokenize (respelled source)).map Token.text = (tokenize source).map Token.text := by
    rw [tokenize_respelled_eq_map, List.map_map]
    exact List.map_congr_left fun token _ => token.text_reread
  rw [respelled, spell, htexts, respelled, spell]

/-- **Spelled out, a text has the same words**, if its numbers are finite, and only then. Spelling it out
again does not change it in any case. -/
theorem tokenize_respelled (source : String) :
    (tokenize (respelled source) = tokenize source
        ↔ ∀ value, .number value ∈ tokenize source → value.isFinite = true)
      ∧ respelled (respelled source) = respelled source := by
  refine ⟨?_, respelled_respelled source⟩
  -- each token is reread by itself
  have hself : (tokenize source).map Token.reread = tokenize source
      ↔ ∀ token ∈ tokenize source, token.reread = token := by
    rw [← List.map_inj_left, List.map_id']
  rw [tokenize_respelled_eq_map, hself]
  constructor
  · exact fun h value hmem => Token.reread_eq_self_iff.mp (h _ hmem) value rfl
  · exact fun h token hmem => Token.reread_eq_self_iff.mpr fun value heq => h value (heq ▸ hmem)

example : respelled "(price_1+02.50) *10." = "( price_1 + 2.5 ) * 10" := by decide +kernel

end FormulaSheet
