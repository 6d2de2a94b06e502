/-!
# FormulaSheet — command-line options

The command takes one document and a few options, in any order. A short option stands
behind one dash, where flags may be joined; a long one behind two. The value of an option
is attached to it or is the next argument, and `--` ends the options.
-/

namespace FormulaSheet

/-- What the command is asked to do. -/
structure Options where
  /-- The path of the document. -/
  document : String
  /-- The row to look at, instead of the document's. -/
  target : Option String
  /-- The scenario whose buffs are on, instead of the document's. -/
  scenario : Option String
  /-- Compare the target across all scenarios? -/
  compare : Bool
  /-- Preview every buff that is off? -/
  whatIf : Bool
  /-- Show the tree of the target? -/
  tree : Bool
deriving DecidableEq, Repr

namespace Options

/-- The switches, which are on if they are given. -/
inductive Switch where
  | compare
  | whatIf
  | tree
deriving DecidableEq, Repr

/-- The options that take a value. -/
inductive Setting where
  | target
  | scenario
deriving DecidableEq, Repr

/-- What an option is called. -/
inductive Name where
  | switch (s : Switch)
  | setting (s : Setting)
deriving DecidableEq, Repr

/-- The option of a letter behind one dash. -/
def ofLetter? : Char → Option Name
  | 't' => some (.setting .target)
  | 's' => some (.setting .scenario)
  | 'c' => some (.switch .compare)
  | 'w' => some (.switch .whatIf)
  | _ => none

/-- The option of a word behind two dashes. -/
def ofWord? (word : List Char) : Option Name :=
  if word = "target".toList then some (.setting .target)
  else if word = "scenario".toList then some (.setting .scenario)
  else if word = "compare".toList then some (.switch .compare)
  else if word = "what-if".toList then some (.switch .whatIf)
  else if word = "tree".toList then some (.switch .tree)
  else none

/-- The arguments read so far. -/
structure Draft where
  document : Option String := none
  settings : List (Setting × String) := []
  switches : List Switch := []
  /-- A setting whose value has to be the next argument. -/
  pending : Option Setting := none
  /-- Are the arguments behind `--` reached? -/
  ended : Bool := false
deriving DecidableEq, Repr

namespace Draft

/-- Turns a switch on, which may be done once. -/
def turnOn (draft : Draft) (s : Switch) : Option Draft :=
  if draft.switches.contains s then none
  else some { draft with switches := s :: draft.switches }

/-- Gives a setting its value, which may be done once. -/
def give (draft : Draft) (s : Setting) (value : List Char) : Option Draft :=
  if (draft.settings.lookup s).isSome then none
  else some { draft with settings := (s, String.ofList value) :: draft.settings, pending := none }

/-- Takes the path of the document. There is one, and it is not empty. -/
def take (draft : Draft) (path : List Char) : Option Draft :=
  if path.isEmpty ∨ draft.document.isSome then none
  else some { draft with document := some (String.ofList path) }

/-- Reads the letters behind one dash. What follows a setting is its value, with or without
an equals sign in front. -/
def readLetters (draft : Draft) : List Char → Option Draft
  | [] => some draft
  | letter :: rest =>
    match ofLetter? letter, rest with
    | none, _ => none
    | some (.switch s), rest => (draft.turnOn s).bind (readLetters · rest)
    | some (.setting s), [] => some { draft with pending := some s }
    | some (.setting s), '=' :: value => draft.give s value
    | some (.setting s), value => draft.give s value

/-- Reads what stands behind two dashes. -/
def readWord (draft : Draft) (text : List Char) : Option Draft :=
  let word := text.takeWhile (· != '=')
  -- what is left is empty or starts with the equals sign
  match ofWord? word, text.drop word.length with
  | some (.switch s), [] => draft.turnOn s
  | some (.setting s), [] => some { draft with pending := some s }
  | some (.setting s), _ :: value => draft.give s value
  | _, _ => none

def read (draft : Draft) (argument : String) : Option Draft :=
  match draft.pending, argument.toList with
  | some s, ['-'] => draft.give s ['-']
  | some _, '-' :: _ => none
  | some s, value => draft.give s value
  | none, text =>
    if draft.ended then draft.take text
    else match text with
      | ['-', '-'] => some { draft with ended := true }
      | '-' :: '-' :: word => draft.readWord word
      | ['-'] => draft.take text
      | '-' :: letters => draft.readLetters letters
      | _ => draft.take text

def finish (draft : Draft) : Option Options :=
  match draft.pending, draft.document with
  | none, some document => some {
      document
      target := draft.settings.lookup .target
      scenario := draft.settings.lookup .scenario
      compare := draft.switches.contains .compare
      whatIf := draft.switches.contains .whatIf
      tree := draft.switches.contains .tree }
  | _, _ => none

end Draft

/-- Reads the arguments of the command; `none` if they are not its usage. -/
def parse? (arguments : List String) : Option Options := do
  (← arguments.foldlM Draft.read {}).finish

end Options

end FormulaSheet
