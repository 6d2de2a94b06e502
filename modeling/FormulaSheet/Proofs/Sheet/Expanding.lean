import Mathlib
import FormulaSheet.Sheet.Rendering

/-!
# FormulaSheet — each name is expanded once, at its first place

The entries of a context may refer to each other, to themselves and to names that have no entry, so
expanding a reference leaves the tree, and what it leads to need not be smaller. It comes to an end all
the same, and which references it expands can be told from the text alone: the first one of each defined
name, among those inside of fewer than 32 braces (`expansionDepth_eq`).

* `Expands` — the rule, with the depth counted from the outside and the names expanded so far.
* `followsRule_body` — what is computed follows it, at every depth.
* `Stretch`, `Marked` — the text cut at its names and braces, and the rule as it is met from left to right.
* `Marked.drop`, `Marked.of_name` — a place of the text against what stands in front of it.
* `Expands.size_text` — the room a text takes with its braces, and without.
* `Formula.render_expanded` — the headline.
-/

namespace FormulaSheet

variable {context : Context} {marker : BuffMarker} {depth : Nat} {seen seen' : List String}
  {tree : Formula} {expansion : Expansion}

/-! ## The rule

The names in `seen` have been expanded before. A reference inside of 32 braces stays bare and is not
among them afterwards, so its name can be expanded at a later place that is less deep. -/

/-- At that depth, a tree expands to that, and `seen'` are the names expanded in the end. -/
inductive Expands (context : Context) :
    Nat → List String → Formula → Expansion → List String → Prop where
  | literal (depth : Nat) (seen : List String) (value : Float) (origin : Origin) :
      Expands context depth seen (.literal value origin) (.literal value origin) seen
  | binary {depth : Nat} {seen between seen' : List String} {left right : Formula}
      {left' right' : Expansion} (op : Operator) (origin : Origin)
      (hleft : Expands context depth seen left left' between)
      (hright : Expands context depth between right right' seen') :
      Expands context depth seen (.binary op left right origin) (.binary op left' right' origin) seen'
  | group {depth : Nat} {seen seen' : List String} {inner : Formula} {inner' : Expansion}
      (hinner : Expands context depth seen inner inner' seen') :
      Expands context depth seen (.group inner) (.group inner') seen'
  | bare {depth : Nat} {seen : List String} {name : String}
      (hstays : context.defines name = true → depth < 32 → name ∈ seen) :
      Expands context depth seen (.reference name) (.bare name) seen
  | expanded {depth : Nat} {seen seen' : List String} {name : String} {entry : Entry}
      {body : Expansion} (hentry : context.get? name = some entry) (hroom : depth < 32)
      (hfirst : name ∉ seen)
      (hbody : Expands context (depth + 1) (name :: seen) entry.display body seen') :
      Expands context depth seen (.reference name) (.expanded name body) seen'

/-- A name without an entry stays as it is. -/
theorem Expands.bare_of_get? {name : String} (h : context.get? name = none) :
    Expands context depth seen (.reference name) (.bare name) seen := by
  apply Expands.bare
  intro hdefines
  rw [Context.defines, h] at hdefines
  cases hdefines

/-- With braces filled in that way, a tree is expanded by the rule. -/
def FollowsRule (context : Context) (body : String → Expanding (Option Expansion)) (depth : Nat)
    (tree : Formula) : Prop :=
  ∀ seen, ∃ expansion seen', (tree.expandWith body).run seen = pure (expansion, seen')
    ∧ Expands context depth seen tree expansion seen'

/-- References decide over all trees. -/
theorem followsRule_of_references {body : String → Expanding (Option Expansion)}
    (hbody : ∀ name, FollowsRule context body depth (.reference name)) (tree : Formula) :
    FollowsRule context body depth tree := by
  induction tree with
  | literal value origin => exact fun seen => ⟨_, _, rfl, .literal depth seen value origin⟩
  | binary op left right origin ihleft ihright =>
    intro seen
    -- the names that the left operand opens are seen by the right one
    obtain ⟨left', between, hleft, hexpands⟩ := ihleft seen
    obtain ⟨right', seen', hright, hexpands'⟩ := ihright between
    refine ⟨.binary op left' right' origin, seen', ?_, .binary op origin hexpands hexpands'⟩
    simp [Formula.expandWith, hleft, hright]
  | group inner ih =>
    intro seen
    obtain ⟨inner', seen', hinner, hexpands⟩ := ih seen
    refine ⟨.group inner', seen', ?_, .group hexpands⟩
    simp [Formula.expandWith, hinner]
  | reference name => exact hbody name

/-- What is computed follows the rule. The induction is on the room for braces that is left: the tree of
an entry may be larger than the one that refers to it, but it stands one brace deeper. -/
theorem followsRule_body (room : Nat) (hroom : depth + room = 32) (tree : Formula) :
    FollowsRule context (Formula.body context room) depth tree := by
  induction room generalizing depth tree with
  | zero =>
    apply followsRule_of_references
    intro name seen
    exact ⟨.bare name, seen, rfl, .bare fun _ hdepth => by omega⟩
  | succ room ih =>
    apply followsRule_of_references
    intro name seen
    cases hentry : context.get? name with
    | none =>
      refine ⟨.bare name, seen, ?_, .bare_of_get? hentry⟩
      simp [Formula.expandWith, Formula.body, hentry]
    | some entry =>
      -- a name that has had its braces stays bare
      by_cases hseen : name ∈ seen
      · refine ⟨.bare name, seen, ?_, .bare fun _ _ => hseen⟩
        simp [Formula.expandWith, Formula.body, hentry, hseen]
      · have hdeeper : depth + 1 + room = 32 := by omega
        obtain ⟨body, seen', hbody, hexpands⟩ := ih hdeeper entry.display (name :: seen)
        refine ⟨.expanded name body, seen', ?_, .expanded hentry (by omega) hseen hexpands⟩
        simp [Formula.expandWith, Formula.body, hentry, hseen, hbody]

/-- The bound that the rule names is the one that the program expands to. -/
theorem expansionDepth_eq : expansionDepth = 32 := rfl

/-- What the program expands follows the rule. Induction on the nesting and on the formula. -/
theorem Formula.expands_expand (context : Context) (tree : Formula) :
    ∃ seen, Expands context 0 [] tree (tree.expand context) seen := by
  obtain ⟨expansion, seen, hrun, hexpands⟩ := followsRule_body 32 (Nat.zero_add _) tree []
  rw [Formula.expand, expansionDepth_eq, hrun]
  exact ⟨seen, hexpands⟩

/-! ## The text, cut at its names and braces

The name of a row may hold any characters, so the braces of an expansion are told from those in names by
their stretch. -/

/-- A stretch of a rendered text. -/
inductive Stretch where
  /-- A value, an operator or a parenthesis, with the blanks around it. -/
  | words (text : String)
  /-- A name on its own. -/
  | bare (name : String)
  /-- A name and the opening brace behind it. -/
  | opening (name : String)
  | closing
deriving DecidableEq

def Stretch.text : Stretch → String
  | words text => text
  | bare name => name
  | opening name => name ++ "\x7b"
  | closing => "\x7d"

/-- The name that occurs in a stretch. -/
def Stretch.name? : Stretch → Option String
  | bare name | opening name => some name
  | words _ | closing => none

def Stretch.opened? : Stretch → Option String
  | opening name => some name
  | words _ | bare _ | closing => none

/-- The braces that are open behind a stretch, from those in front of it. -/
def Stretch.depthBehind : Nat → Stretch → Nat
  | depth, opening _ => depth + 1
  | depth, closing => depth - 1
  | depth, words _ | depth, bare _ => depth

/-- The braces that are open behind the beginning of a text. -/
def nesting (before : List Stretch) : Nat := before.foldl Stretch.depthBehind 0

/-- The names with braces, in the order of the text. -/
def opened (stretches : List Stretch) : List String := stretches.filterMap Stretch.opened?

@[simp] theorem opened_nil : opened [] = [] := rfl

@[simp] theorem opened_words (text : String) (rest : List Stretch) :
    opened (.words text :: rest) = opened rest := rfl

@[simp] theorem opened_bare (name : String) (rest : List Stretch) :
    opened (.bare name :: rest) = opened rest := rfl

@[simp] theorem opened_opening (name : String) (rest : List Stretch) :
    opened (.opening name :: rest) = name :: opened rest := rfl

@[simp] theorem opened_closing (rest : List Stretch) : opened (.closing :: rest) = opened rest := rfl

@[simp] theorem opened_append (before rest : List Stretch) :
    opened (before ++ rest) = opened before ++ opened rest := List.filterMap_append

def Expansion.stretches (marker : BuffMarker) : Expansion → List Stretch
  | literal value origin => [.words (marker.mark origin (Decimal.formatNumber value))]
  | binary op left right origin =>
    left.stretches marker ++ .words (" " ++ marker.mark origin op.text ++ " ") :: right.stretches marker
  | bare name => [.bare name]
  | expanded name body => .opening name :: (body.stretches marker ++ [.closing])
  | group inner => .words "(" :: (inner.stretches marker ++ [.words ")"])

/-- The stretches of an expansion make up its text. -/
theorem Expansion.join_stretches (marker : BuffMarker) (expansion : Expansion) :
    String.join ((expansion.stretches marker).map Stretch.text) = expansion.text marker := by
  induction expansion with
  | literal value origin => simp [stretches, text, Stretch.text]
  | binary op left right origin ihleft ihright =>
    simp [stretches, text, Stretch.text, ihleft, ihright, String.append_assoc]
  | bare name => simp [stretches, text, Stretch.text]
  | expanded name body ih => simp [stretches, text, Stretch.text, ih, String.append_assoc]
  | group inner ih => simp [stretches, text, Stretch.text, ih, String.append_assoc]

/-- The rule as it is met from the left to the right, inside of `depth` braces and with the names in
`seen` expanded before. Every brace is closed in the end. -/
inductive Marked (context : Context) (marker : BuffMarker) : Nat → List String → List Stretch → Prop where
  | nil (seen : List String) : Marked context marker 0 seen []
  | words {depth : Nat} {seen : List String} {rest : List Stretch} (text : String)
      (hrest : Marked context marker depth seen rest) : Marked context marker depth seen (.words text :: rest)
  | bare {depth : Nat} {seen : List String} {rest : List Stretch} {name : String}
      (hstays : context.defines name = true → depth < 32 → name ∈ seen)
      (hrest : Marked context marker depth seen rest) : Marked context marker depth seen (.bare name :: rest)
  | opening {depth : Nat} {seen seen' : List String} {rest behind : List Stretch} {name : String}
      {entry : Entry} {body : Expansion} (hentry : context.get? name = some entry)
      (hroom : depth < 32) (hfirst : name ∉ seen)
      (hbody : Expands context (depth + 1) (name :: seen) entry.display body seen')
      (hbraces : rest = body.stretches marker ++ .closing :: behind)
      (hrest : Marked context marker (depth + 1) (name :: seen) rest) :
      Marked context marker depth seen (.opening name :: rest)
  | closing {depth : Nat} {seen : List String} {rest : List Stretch}
      (hrest : Marked context marker depth seen rest) :
      Marked context marker (depth + 1) seen (.closing :: rest)

/-- By induction on the rule, for every text to come: the braces of a body are closed in front of it. -/
theorem Expands.marked (h : Expands context depth seen tree expansion seen') {rest : List Stretch}
    (hrest : Marked context marker depth seen' rest) :
    Marked context marker depth seen (expansion.stretches marker ++ rest) := by
  induction h generalizing rest with
  | literal depth seen value origin => exact .words _ hrest
  | binary op origin _ _ ihleft ihright =>
    unfold Expansion.stretches
    rw [List.append_assoc, List.cons_append]
    -- what follows the left operand is the operator and the right one
    exact ihleft (.words _ (ihright hrest))
  | group _ ih =>
    unfold Expansion.stretches
    rw [List.cons_append, List.append_assoc]
    exact .words _ (ih (.words _ hrest))
  | bare hstays => exact .bare hstays hrest
  | expanded hentry hroom hfirst hbody ih =>
    unfold Expansion.stretches
    rw [List.cons_append, List.append_assoc]
    exact .opening hentry hroom hfirst hbody rfl (ih (.closing hrest))

/-! ## Places of the text -/

section Places

variable {before rest after : List Stretch} {stretch : Stretch} {name : String}

/-- The state of the scan at a place: the open braces, and the names with braces in front of it. -/
theorem Marked.drop (h : Marked context marker depth seen (before ++ rest)) :
    Marked context marker (before.foldl Stretch.depthBehind depth) ((opened before).reverse ++ seen)
      rest := by
  induction before generalizing depth seen with
  | nil => exact h
  | cons stretch before ih =>
    cases h with
    | words text hrest => exact ih hrest
    | bare hstays hrest => exact ih hrest
    | opening hentry hroom hfirst hbody hbraces hrest =>
      -- a name that is opened is the latest of those seen
      have hdrop := ih hrest
      rwa [List.append_cons, ← List.reverse_cons] at hdrop
    | closing hrest => exact ih hrest

/-- Braces are never nested deeper than 32 levels. -/
theorem Marked.depth_le (h : Marked context marker depth seen (before ++ rest))
    (hdepth : depth ≤ 32) : before.foldl Stretch.depthBehind depth ≤ 32 := by
  induction before generalizing depth seen with
  | nil => exact hdepth
  | cons stretch before ih =>
    cases h with
    | words text hrest => exact ih hrest hdepth
    | bare hstays hrest => exact ih hrest hdepth
    | opening hentry hroom hfirst hbody hbraces hrest => exact ih hrest hroom
    | closing hrest => exact ih hrest (Nat.le_of_succ_le hdepth)

/-- No name has braces twice, and none that had them before. -/
theorem Marked.nodup_opened (h : Marked context marker depth seen rest) :
    (opened rest).Nodup ∧ ∀ name ∈ opened rest, name ∉ seen := by
  induction h with
  | nil seen => exact ⟨.nil, nofun⟩
  | words text _ ih => exact ih
  | bare hstays _ ih => exact ih
  | opening hentry hroom hfirst hbody hbraces _ ih =>
    obtain ⟨hnodup, hseen⟩ := ih
    rw [opened_opening, List.nodup_cons, List.forall_mem_cons]
    -- the name itself is seen by all that follows
    refine ⟨⟨fun hmem => hseen _ hmem List.mem_cons_self, hnodup⟩, hfirst, ?_⟩
    intro other hmem hother
    exact hseen other hmem (List.mem_cons_of_mem _ hother)
  | closing _ ih => exact ih

/-- A defined name that is left as it is, with room for its braces, has been opened before. -/
theorem Marked.stays (h : Marked context marker depth seen (.bare name :: rest))
    (hdefines : context.defines name = true) (hroom : depth < 32) : name ∈ seen := by
  cases h with
  | bare hstays => exact hstays hdefines hroom

/-- A name that is opened has room, has not been opened before and holds the display form of its
entry up to its closing brace. -/
theorem Marked.opens (h : Marked context marker depth seen (.opening name :: rest)) :
    depth < 32 ∧ name ∉ seen ∧ ∃ entry body behind seen', context.get? name = some entry
      ∧ rest = body.stretches marker ++ .closing :: behind
      ∧ Expands context (depth + 1) (name :: seen) entry.display body seen' := by
  cases h with
  | opening hentry hroom hfirst hbody hbraces =>
    exact ⟨hroom, hfirst, _, _, _, _, hentry, hbraces, hbody⟩

/-- A brace closes only one that is open. -/
theorem Marked.closes (h : Marked context marker depth seen (.closing :: rest)) : 0 < depth := by
  cases h with
  | closing _ => exact Nat.succ_pos _

/-- The names that have had braces in front of a place are those that could have: a name is not given
braces only if it had them before, or if there is no room. -/
theorem Marked.mem_opened_iff (h : Marked context marker 0 [] (before ++ rest))
    (hdefines : context.defines name = true) :
    name ∈ opened before
      ↔ ∃ front earlier back, before = front ++ earlier :: back ∧ earlier.name? = some name
        ∧ nesting front < 32 := by
  constructor
  · intro hmem
    obtain ⟨earlier, hmem, hopened⟩ := List.mem_filterMap.mp hmem
    obtain ⟨front, back, rfl⟩ := List.append_of_mem hmem
    rw [List.append_assoc, List.cons_append] at h
    cases earlier with
    | opening other => exact ⟨front, _, back, rfl, hopened, h.drop.opens.1⟩
    | _ => cases hopened
  · rintro ⟨front, earlier, back, rfl, hname, hroom⟩
    rw [List.append_assoc, List.cons_append] at h
    rw [opened_append, List.mem_append]
    cases earlier with
    | opening other =>
      cases hname
      exact .inr List.mem_cons_self
    -- it stands bare although there is room, so it has had its braces already
    | bare other =>
      cases hname
      have hmem := h.drop.stays hdefines hroom
      rw [List.append_nil, List.mem_reverse] at hmem
      exact .inl hmem
    | words text => cases hname
    | closing => cases hname

/-- Does a name get braces behind that beginning of a text? It is defined, there is room, and wherever it
stood before, there was none. -/
def OpensBehind (context : Context) (before : List Stretch) (name : String) : Prop :=
  context.defines name = true ∧ nesting before < 32
    ∧ ∀ front earlier back, before = front ++ earlier :: back → earlier.name? = some name →
        32 ≤ nesting front

/-- Along the text of an expansion a name opens exactly when it is defined, there is room and it has
not been opened before. -/
theorem Marked.opensBehind_iff (h : Marked context marker 0 [] (before ++ rest)) :
    OpensBehind context before name
      ↔ context.defines name = true ∧ nesting before < 32 ∧ name ∉ opened before := by
  refine and_congr_right fun hdefines => and_congr_right fun _ => ?_
  rw [h.mem_opened_iff hdefines]
  constructor
  · rintro hnone ⟨front, earlier, back, hbefore, hearlier, hfront⟩
    -- an earlier place where it had room opened it
    have := hnone front earlier back hbefore hearlier
    omega
  · intro hnot front earlier back hbefore hearlier
    by_contra hfront
    exact hnot ⟨front, earlier, back, hbefore, hearlier, by omega⟩

/-- Every occurrence of a name is opened or left as the rule says, and an opened one holds the
expansion of its entry. -/
theorem Marked.of_name (h : Marked context marker 0 [] (before ++ stretch :: after))
    (hname : stretch.name? = some name) :
    (OpensBehind context before name →
        stretch = .opening name ∧ ∃ entry body behind seen, context.get? name = some entry
          ∧ after = body.stretches marker ++ .closing :: behind
          ∧ Expands context (nesting before + 1) (name :: (opened before).reverse) entry.display body
              seen)
      ∧ (¬ OpensBehind context before name → stretch = .bare name) := by
  have hplace := h.drop
  rw [List.append_nil] at hplace
  rw [h.opensBehind_iff]
  cases stretch with
  | bare other =>
    cases hname
    refine ⟨fun hopens => ?_, fun _ => rfl⟩
    -- it would have been opened here
    obtain ⟨hdefines, hroom, hfirst⟩ := hopens
    exact absurd (List.mem_reverse.mp (hplace.stays hdefines hroom)) hfirst
  | opening other =>
    cases hname
    obtain ⟨hroom, hfirst, entry, body, behind, seen, hentry, hbraces⟩ := hplace.opens
    -- what is opened has an entry
    have hdefines : context.defines name = true := by
      rw [Context.defines, hentry]
      rfl
    refine ⟨fun _ => ⟨rfl, entry, body, behind, seen, hentry, hbraces⟩, fun hnot => ?_⟩
    exact absurd ⟨hdefines, hroom, fun hmem => hfirst (List.mem_reverse.mpr hmem)⟩ hnot
  | words text => cases hname
  | closing => cases hname

end Places

/-! ## The room that braces take -/

section Room

/-- What the braces of those names add to a text, if each holds the tree on display of its name. -/
def Context.surplus (context : Context) (size : String → Nat) : List String → Nat
  | [] => 0
  | name :: names =>
    ((context.get? name).map fun entry => 2 + size entry.display.text).getD 0
      + context.surplus size names

/-- What is added for the names of two lists is the sum of both. -/
theorem Context.surplus_append (context : Context) (size : String → Nat) (names names' : List String) :
    context.surplus size (names ++ names') = context.surplus size names + context.surplus size names' := by
  induction names with
  | nil => exact (Nat.zero_add _).symm
  | cons name names ih =>
    rw [List.cons_append, surplus, surplus, ih, Nat.add_assoc]

/-- Holds for the number of characters of a text, and for that of its bytes. -/
theorem Expands.size_text {size : String → Nat}
    (happend : ∀ text text', size (text ++ text') = size text + size text')
    (hopening : size "\x7b" = 1) (hclosing : size "\x7d" = 1)
    (h : Expands context depth seen tree expansion seen') :
    size (expansion.text .plain)
      = size tree.text + context.surplus size (opened (expansion.stretches marker)) := by
  induction h with
  | literal depth seen value origin => rfl
  | binary op origin _ _ ihleft ihright =>
    have hmark : BuffMarker.plain.mark origin op.text = op.text := rfl
    simp only [Expansion.text, Formula.text, Expansion.stretches, opened_append, opened_words,
      context.surplus_append, happend, hmark, ihleft, ihright]
    omega
  | group _ ih =>
    simp only [Expansion.text, Formula.text, Expansion.stretches, opened_append, opened_words,
      opened_nil, List.append_nil, happend, ih]
    omega
  | bare hstays => rfl
  | @expanded _ _ _ name entry body hentry _ _ _ ih =>
    -- the two braces, and behind the opening one the tree on display
    have hsurplus : context.surplus size (name :: opened (body.stretches marker))
        = 2 + size entry.display.text + context.surplus size (opened (body.stretches marker)) := by
      rw [Context.surplus, hentry]
      rfl
    simp only [Expansion.text, Formula.text, Expansion.stretches, opened_append, opened_opening,
      opened_closing, opened_nil, List.append_nil, hsurplus, happend, hopening, hclosing, ih]
    omega

end Room

/-- **A name is expanded once, at its first place with room for braces**, for every context, and every
other place of a name is bare. The expansion comes to an end. Braces hold the expansion of the tree on
display, and are never nested deeper than 32. Without marks, the text is longer than that
of the tree by exactly the braces and what the entries display. -/
theorem Formula.render_expanded (context : Context) (marker : BuffMarker) (tree : Formula) :
    let stretches := (tree.expand context).stretches marker
    String.join (stretches.map Stretch.text) = tree.render context marker
      ∧ (∃ seen, Expands context 0 [] tree (tree.expand context) seen)
      ∧ (∀ before stretch after name, stretches = before ++ stretch :: after →
          stretch.name? = some name →
          (OpensBehind context before name →
            stretch = .opening name ∧ ∃ entry body behind seen, context.get? name = some entry
              ∧ after = body.stretches marker ++ .closing :: behind
              ∧ Expands context (nesting before + 1) (name :: (opened before).reverse) entry.display
                  body seen)
          ∧ (¬ OpensBehind context before name → stretch = .bare name))
      ∧ (opened stretches).Nodup
      ∧ (∀ before after, stretches = before ++ after → nesting before ≤ 32)
      ∧ (∀ before after, stretches = before ++ .closing :: after → 0 < nesting before)
      ∧ ∀ size ∈ [String.length, String.utf8ByteSize],
          size (tree.render context .plain)
            = size tree.text + context.surplus size (opened stretches) := by
  intro stretches
  obtain ⟨seen, hexpands⟩ := tree.expands_expand context
  have hmarked : Marked context marker 0 [] stretches := by
    rw [← List.append_nil stretches]
    exact hexpands.marked (.nil seen)
  refine ⟨Expansion.join_stretches marker _, ⟨seen, hexpands⟩, ?_, hmarked.nodup_opened.1, ?_, ?_, ?_⟩
  · intro before stretch after name hplace hname
    rw [hplace] at hmarked
    exact hmarked.of_name hname
  · intro before after hplace
    rw [hplace] at hmarked
    exact hmarked.depth_le (Nat.zero_le _)
  · intro before after hplace
    rw [hplace] at hmarked
    exact hmarked.drop.closes
  · intro size hsize
    -- both sizes add up over the pieces of a text, and count a brace as one
    obtain rfl | rfl : size = String.length ∨ size = String.utf8ByteSize := by simpa using hsize
    · exact hexpands.size_text String.length_append (by decide) (by decide)
    · exact hexpands.size_text (fun _ _ => String.utf8ByteSize_append) (by decide) (by decide)

/-- Entries that refer to each other, and one of them to a name without an entry. -/
def tangle : Context where
  entries := [
    ("A", ⟨.reference "B", .binary .mul (.reference "B") (.reference "C") .buff, 0, true⟩),
    ("B", ⟨.reference "A", .reference "A", 0, false⟩)]

/-- The tree on display for `A` leads back to `B`, which stays bare there. -/
theorem tangle_expanded :
    let tree : Formula := .binary .mul (.reference "B") (.reference "C") .buff
    let behind : List Stretch :=
      [.words " [*] ", .bare "C", .closing, .closing, .words " [*] ", .bare "C"]
    let stretches : List Stretch := .opening "B" :: .opening "A" :: .bare "B" :: behind
    String.join (stretches.map Stretch.text) = tree.render tangle .brackets
      ∧ OpensBehind tangle [.opening "B"] "A"
      ∧ (∃ entry body rest seen, tangle.get? "A" = some entry
          ∧ .bare "B" :: behind = body.stretches .brackets ++ .closing :: rest
          ∧ Expands tangle 2 ["A", "B"] entry.display body seen)
      ∧ ¬ OpensBehind tangle [.opening "B", .opening "A"] "B"
      ∧ stretches[2]? = some (.bare "B")
      ∧ nesting (stretches.take 2) ≤ 32 := by
  intro tree behind stretches
  have hstretches : (tree.expand tangle).stretches .brackets = stretches := by decide
  obtain ⟨htext, -, hplaces, -, hnesting, -⟩ := tree.render_expanded tangle .brackets
  rw [hstretches] at htext hplaces hnesting
  have hopens : OpensBehind tangle [.opening "B"] "A" := by
    refine ⟨by decide, by decide, fun front earlier back hbefore hname => ?_⟩
    have hmem : earlier ∈ [Stretch.opening "B"] := by simp [hbefore]
    rw [List.mem_singleton.mp hmem] at hname
    simp [Stretch.name?] at hname
  have hstays : ¬ OpensBehind tangle [.opening "B", .opening "A"] "B" := by
    rintro ⟨-, -, hnone⟩
    exact absurd (hnone [] (.opening "B") [.opening "A"] rfl rfl) (by decide)
  obtain ⟨-, hbraces⟩ := (hplaces [.opening "B"] (.opening "A") _ "A" rfl rfl).1 hopens
  have hbare := (hplaces [.opening "B", .opening "A"] (.bare "B") behind "B" rfl rfl).2 hstays
  exact ⟨htext, hopens, hbraces, hstays, congrArg some hbare,
    hnesting [.opening "B", .opening "A"] (.bare "B" :: behind) rfl⟩

/-- A name first met where there is no room has its braces at a later place. -/
example :
    let name (k : Nat) : String := "R" ++ toString k
    let chain : Context := ⟨(List.range 34).map fun k =>
      (name k, ⟨.reference (name (k - 1)), .reference (name (k - 1)), 0, false⟩)⟩
    let tree : Formula := .binary .add (.reference (name 33)) (.reference (name 1)) .parsed
    opened ((tree.expand chain).stretches .plain)
      = ((List.range 32).map fun k => name (33 - k)) ++ [name 1, name 0] := by
  decide +kernel

end FormulaSheet
