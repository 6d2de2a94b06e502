/-!
# FormulaSheet — columns

Texts filled with spaces to the width of a table column. A width counts characters, and a
text that is wider than its column is kept whole.
-/

namespace FormulaSheet.Text

/-- The spaces that a text of this many characters lacks. -/
def filler (width : Nat) (s : String) : String :=
  String.ofList (List.replicate (width - s.length) ' ')

/-- The text at the left edge of its column. -/
def alignLeft (width : Nat) (s : String) : String := s ++ filler width s

/-- The text at the right edge of its column. -/
def alignRight (width : Nat) (s : String) : String := filler width s ++ s

theorem length_filler (width : Nat) (s : String) : (filler width s).length = width - s.length := by
  simp [filler]

/-- A column is as wide as its width or its text, whichever is more. -/
theorem length_alignLeft (width : Nat) (s : String) :
    (alignLeft width s).length = max width s.length := by
  rw [alignLeft, String.length_append, length_filler]; omega

theorem length_alignRight (width : Nat) (s : String) :
    (alignRight width s).length = max width s.length := by
  rw [alignRight, String.length_append, length_filler]; omega

end FormulaSheet.Text
