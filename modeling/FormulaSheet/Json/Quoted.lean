import FormulaSheet.Json.Error

/-!
# FormulaSheet — JSON strings

`quote` writes a string between quotation marks, with the escapes that JSON demands and no
others. `readBody` reads what follows the opening mark; beyond the written forms it takes
every escape of JSON, and joins a pair of surrogates to the character it stands for. What
is written reads back (`readBody_flatMap`).
-/

namespace FormulaSheet.Json

/-! ## Writing -/

/-- A hexadecimal digit in lower case. -/
def hexDigit (d : Nat) : Char :=
  if d < 10 then Char.ofNat (48 + d) else Char.ofNat (87 + d)

/-- A character inside a string. -/
def escapeChar (c : Char) : List Char :=
  if c = '"' then ['\\', '"']
  else if c = '\\' then ['\\', '\\']
  else if c = '\x08' then ['\\', 'b']
  else if c = '\x0c' then ['\\', 'f']
  else if c = '\n' then ['\\', 'n']
  else if c = '\r' then ['\\', 'r']
  else if c = '\t' then ['\\', 't']
  else if c.toNat < 32 then
    ['\\', 'u', '0', '0', hexDigit (c.toNat / 16), hexDigit (c.toNat % 16)]
  else [c]

/-- A string between quotation marks. -/
def quote (s : String) : List Char :=
  '"' :: (s.toList.flatMap escapeChar ++ ['"'])

/-! ## Reading -/

/-- The number that a hexadecimal digit stands for. -/
def hexValue? (c : Char) : Option Nat :=
  if '0' ≤ c ∧ c ≤ '9' then some (c.toNat - 48)
  else if 'a' ≤ c ∧ c ≤ 'f' then some (c.toNat - 87)
  else if 'A' ≤ c ∧ c ≤ 'F' then some (c.toNat - 55)
  else none

/-- The bytes that a text takes up. -/
def byteCount (cs : List Char) : Nat :=
  cs.foldr (fun c n => c.utf8Size + n) 0

/-- The four hexadecimal digits of an escape. Fewer than four bytes end the text too early,
whatever they are. -/
def readHex (cs : List Char) : Except Error (Nat × List Char) :=
  match cs with
  | a :: b :: c :: d :: rest =>
    match hexValue? a, hexValue? b, hexValue? c, hexValue? d with
    | some a, some b, some c, some d => .ok (((a * 16 + b) * 16 + c) * 16 + d, rest)
    | _, _, _, _ => .error .malformed
  -- three characters may be four bytes, which are then no digits
  | _ => if byteCount cs < 4 then .error .truncated else .error .malformed

/-- Is this the first half of a surrogate pair? -/
def isLeading (n : Nat) : Bool := 0xD800 ≤ n && n ≤ 0xDBFF

/-- Is this the second half of a surrogate pair? -/
def isTrailing (n : Nat) : Bool := 0xDC00 ≤ n && n ≤ 0xDFFF

/-- The second half of a surrogate pair, which has to be an escape too. -/
def readTrailing (leading : Nat) : List Char → Except Error (Char × List Char)
  | [] => .error .truncated
  | '\\' :: [] => .error .truncated
  | '\\' :: 'u' :: cs =>
    match readHex cs with
    | .error e => .error e
    | .ok (n, rest) =>
      if isTrailing n then
        .ok (Char.ofNat (0x10000 + (leading - 0xD800) * 0x400 + (n - 0xDC00)), rest)
      else .error .malformed
  | _ => .error .malformed

/-- The character of a `\u` escape, from its digits on. -/
def readUnicode (cs : List Char) : Except Error (Char × List Char) :=
  match readHex cs with
  | .error e => .error e
  | .ok (n, rest) =>
    if isTrailing n then .error .malformed
    else if isLeading n then readTrailing n rest
    else .ok (Char.ofNat n, rest)

/-- The character of an escape of one letter. -/
def simpleEscape? : Char → Option Char
  | '"' => some '"'
  | '\\' => some '\\'
  | '/' => some '/'
  | 'b' => some '\x08'
  | 'f' => some '\x0c'
  | 'n' => some '\n'
  | 'r' => some '\r'
  | 't' => some '\t'
  | _ => none

/-- The character of an escape, from behind its backslash on. -/
def readEscape : List Char → Except Error (Char × List Char)
  | [] => .error .truncated
  | c :: rest =>
    if c = 'u' then readUnicode rest
    else match simpleEscape? c with
      | some d => .ok (d, rest)
      | none => .error .malformed

/-- Passes over an escape without a look at what it stands for. -/
def skipEscape : List Char → Except Error (List Char)
  | [] => .error .truncated
  | c :: rest =>
    if c = 'u' then (readHex rest).map Prod.snd
    else if (simpleEscape? c).isSome then .ok rest
    else .error .malformed

theorem readHex_length {cs rest : List Char} {n : Nat} (h : readHex cs = .ok (n, rest)) :
    rest.length ≤ cs.length := by
  unfold readHex at h
  split at h
  · split at h
    · simp only [Except.ok.injEq, Prod.mk.injEq] at h
      rw [← h.2]; simp only [List.length_cons]; omega
    · simp at h
  · split at h <;> simp at h

/-- The second half of a pair is taken off the front of the text. -/
theorem readTrailing_length {leading : Nat} {cs rest : List Char} {c : Char}
    (h : readTrailing leading cs = .ok (c, rest)) : rest.length ≤ cs.length := by
  unfold readTrailing at h
  split at h
  · simp at h
  · simp at h
  · split at h
    · simp at h
    · next heq =>
      have := readHex_length heq
      split at h
      · simp only [Except.ok.injEq, Prod.mk.injEq] at h
        rw [← h.2]; simp only [List.length_cons]; omega
      · simp at h
  · simp at h

/-- So is an escape by number. -/
theorem readUnicode_length {cs rest : List Char} {c : Char}
    (h : readUnicode cs = .ok (c, rest)) : rest.length ≤ cs.length := by
  unfold readUnicode at h
  split at h
  · simp at h
  · next heq =>
    have := readHex_length heq
    split at h
    · simp at h
    · split at h
      · have := readTrailing_length h; omega
      · simp only [Except.ok.injEq, Prod.mk.injEq] at h
        rw [← h.2]; exact this

/-- An escape takes at least one character. -/
theorem readEscape_length {cs rest : List Char} {c : Char}
    (h : readEscape cs = .ok (c, rest)) : rest.length < cs.length := by
  unfold readEscape at h
  split at h
  · simp at h
  · simp only [List.length_cons]
    split at h
    · have := readUnicode_length h; omega
    · split at h
      · simp only [Except.ok.injEq, Prod.mk.injEq] at h
        rw [← h.2]; omega
      · simp at h

/-- An escape that is skipped has a letter at least. -/
theorem skipEscape_length {cs rest : List Char} (h : skipEscape cs = .ok rest) :
    rest.length < cs.length := by
  unfold skipEscape at h
  split at h
  · simp at h
  · simp only [List.length_cons]
    split at h
    · next tail _ =>
      cases hx : readHex tail with
      | error e => simp [hx, Except.map] at h
      | ok p =>
        obtain ⟨n, after⟩ := p
        have := readHex_length hx
        simp only [hx, Except.map, Except.ok.injEq] at h
        rw [← h]; omega
    · split at h
      · simp only [Except.ok.injEq] at h
        rw [← h]; omega
      · simp at h

/-- The rest of a string up to its closing mark, behind the characters read so far. -/
def readBody (before : List Char) (cs : List Char) : Except Error (String × List Char) :=
  match cs with
  | [] => .error .truncated
  | c :: rest =>
    if c = '"' then .ok (String.ofList before.reverse, rest)
    else if c = '\\' then
      match _h : readEscape rest with
      | .error e => .error e
      | .ok (d, after) => readBody (d :: before) after
    else if c.toNat < 32 then .error .malformed
    else readBody (c :: before) rest
termination_by cs.length
decreasing_by
  · have := readEscape_length _h
    simp only [List.length_cons]; omega
  · simp

/-- Passes over the rest of a string up to its closing mark. -/
def skipBody (cs : List Char) : Except Error (List Char) :=
  match cs with
  | [] => .error .truncated
  | c :: rest =>
    if c = '"' then .ok rest
    else if c = '\\' then
      match _h : skipEscape rest with
      | .error e => .error e
      | .ok after => skipBody after
    else if c.toNat < 32 then .error .malformed
    else skipBody rest
termination_by cs.length
decreasing_by
  · have := skipEscape_length _h
    simp only [List.length_cons]; omega
  · simp

/-! ## Reading what is written -/

theorem hexValue?_hexDigit : ∀ d : Fin 16, hexValue? (hexDigit d) = some d.val := by decide

/-- An escape stands for one character. -/
theorem readBody_escape {cs rest : List Char} {c : Char} (h : readEscape cs = .ok (c, rest))
    (before : List Char) : readBody before ('\\' :: cs) = readBody (c :: before) rest := by
  rw [readBody, if_neg (by decide), if_pos rfl]
  split
  · next hfail => cases hfail.symm.trans h
  · next hok =>
    obtain ⟨rfl, rfl⟩ := Prod.mk.inj (Except.ok.inj (hok.symm.trans h))
    rfl

/-- A character that ends no string and starts no escape stands for itself. -/
theorem readBody_plain {c : Char} (hquote : c ≠ '"') (hescape : c ≠ '\\') (hcontrol : ¬ c.toNat < 32)
    (before rest : List Char) : readBody before (c :: rest) = readBody (c :: before) rest := by
  rw [readBody, if_neg hquote, if_neg hescape, if_neg hcontrol]

theorem readEscape_letter {letter c : Char} (hletter : letter ≠ 'u')
    (h : simpleEscape? letter = some c) (rest : List Char) :
    readEscape (letter :: rest) = .ok (c, rest) := by
  rw [readEscape, if_neg hletter, h]

/-- The number of a control character is read from its two last digits. -/
theorem readHex_control {n : Nat} (h : n < 32) (rest : List Char) :
    readHex ('0' :: '0' :: hexDigit (n / 16) :: hexDigit (n % 16) :: rest) = .ok (n, rest) := by
  have hzero : hexValue? '0' = some 0 := by decide
  have hhigh : hexValue? (hexDigit (n / 16)) = some (n / 16) := hexValue?_hexDigit ⟨n / 16, by omega⟩
  have hlow : hexValue? (hexDigit (n % 16)) = some (n % 16) := hexValue?_hexDigit ⟨n % 16, by omega⟩
  have hvalue : ((0 * 16 + 0) * 16 + n / 16) * 16 + n % 16 = n := by omega
  simp only [readHex, hzero, hhigh, hlow, hvalue]

/-- An escaped control character is read again. -/
theorem readEscape_control {c : Char} (h : c.toNat < 32) (rest : List Char) :
    readEscape ('u' :: '0' :: '0' :: hexDigit (c.toNat / 16) :: hexDigit (c.toNat % 16) :: rest)
      = .ok (c, rest) := by
  have htrailing : isTrailing c.toNat = false := by simp [isTrailing]; omega
  have hleading : isLeading c.toNat = false := by simp [isLeading]; omega
  simp [readEscape, readUnicode, readHex_control h, htrailing, hleading, Char.ofNat_toNat]

/-- A written character reads back as itself. -/
theorem readBody_escapeChar (before : List Char) (c : Char) (rest : List Char) :
    readBody before (escapeChar c ++ rest) = readBody (c :: before) rest := by
  have hletter : ∀ letter : Char, letter ≠ 'u' → simpleEscape? letter = some c →
      readBody before ('\\' :: letter :: rest) = readBody (c :: before) rest :=
    fun letter hu h => readBody_escape (readEscape_letter hu h rest) before
  rw [escapeChar]
  -- the escapes of one letter
  split
  · next hc => subst hc; exact hletter '"' (by decide) rfl
  split
  · next hc => subst hc; exact hletter '\\' (by decide) rfl
  split
  · next hc => subst hc; exact hletter 'b' (by decide) rfl
  split
  · next hc => subst hc; exact hletter 'f' (by decide) rfl
  split
  · next hc => subst hc; exact hletter 'n' (by decide) rfl
  split
  · next hc => subst hc; exact hletter 'r' (by decide) rfl
  split
  · next hc => subst hc; exact hletter 't' (by decide) rfl
  -- the other controls, by their code points
  split
  · next hcontrol => exact readBody_escape (readEscape_control hcontrol rest) before
  · next hquote hescape _ _ _ _ _ hcontrol => exact readBody_plain hquote hescape hcontrol before rest

/-- A written string reads back as itself. -/
theorem readBody_flatMap (before : List Char) (cs rest : List Char) :
    readBody before (cs.flatMap escapeChar ++ '"' :: rest)
      = .ok (String.ofList (before.reverse ++ cs), rest) := by
  induction cs generalizing before with
  | nil => simp [readBody]
  | cons c cs ih =>
    rw [List.flatMap_cons, List.append_assoc, readBody_escapeChar, ih]
    simp

end FormulaSheet.Json
