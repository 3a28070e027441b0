/-!
# Sets of line numbers

The lines of a method are kept in ascending order without repetition.
-/

namespace LineAtlas

/-- The number of a line in a source file. -/
abbrev LineNumber := UInt32

/-- Line numbers in ascending order without repetition. -/
structure LineSet where
  /-- The lines. -/
  toList : List LineNumber
  /-- The lines ascend strictly. -/
  ascending : toList.Pairwise (· < ·)
  deriving DecidableEq

namespace LineSet

/-- An ascending list with a line put in its place, unless it is already there. -/
def insertSorted (line : LineNumber) : List LineNumber → List LineNumber
  | [] => [line]
  | first :: rest =>
    if line < first then line :: first :: rest
    else if line = first then first :: rest
    else first :: insertSorted line rest

/-- Inserting a line adds just that line. -/
theorem mem_insertSorted {line other : LineNumber} {lines : List LineNumber} :
    other ∈ insertSorted line lines ↔ other = line ∨ other ∈ lines := by
  induction lines with
  | nil => simp [insertSorted]
  | cons first rest ih =>
    unfold insertSorted
    split
    · simp
    · split
      · simp_all
      · simp only [List.mem_cons, ih]
        grind

/-- Inserting a line keeps the lines ascending and without repeats. -/
theorem insertSorted_ascending {line : LineNumber} {lines : List LineNumber}
    (hlines : lines.Pairwise (· < ·)) : (insertSorted line lines).Pairwise (· < ·) := by
  induction lines with
  | nil => simp [insertSorted]
  | cons first rest ih =>
    rw [List.pairwise_cons] at hlines
    unfold insertSorted
    split
    · rw [List.pairwise_cons]
      exact ⟨by grind, List.pairwise_cons.mpr hlines⟩
    · split
      · exact List.pairwise_cons.mpr hlines
      · rw [List.pairwise_cons]
        refine ⟨fun other hother => ?_, ih hlines.2⟩
        rw [mem_insertSorted] at hother
        grind

/-- No lines. -/
def empty : LineSet := ⟨[], List.Pairwise.nil⟩

/-- The empty set is the one without lines. -/
instance : EmptyCollection LineSet := ⟨empty⟩

/-- Where any set will do, the empty one is taken. -/
instance : Inhabited LineSet := ⟨empty⟩

/-- The set with one more line. -/
def insert (line : LineNumber) (s : LineSet) : LineSet :=
  ⟨insertSorted line s.toList, insertSorted_ascending s.ascending⟩

/-- The set of the lines of a list. -/
def ofList (lines : List LineNumber) : LineSet := lines.foldr insert empty

/-- The number of lines. -/
def size (s : LineSet) : Nat := s.toList.length

/-- Whether there are no lines. -/
def isEmpty (s : LineSet) : Bool := s.toList.isEmpty

/-- The least line. -/
def first? (s : LineSet) : Option LineNumber := s.toList.head?

/-- The greatest line. -/
def last? (s : LineSet) : Option LineNumber := s.toList.getLast?

/-- Whether the range from first to last line lies within that of another set. Sets without
lines neither enclose nor are enclosed. -/
def within (inner outer : LineSet) : Bool :=
  match inner.first?, inner.last?, outer.first?, outer.last? with
  | some low, some high, some outerLow, some outerHigh => outerLow ≤ low && high ≤ outerHigh
  | _, _, _, _ => false

/-- A set made of a list has the lines of the list. -/
theorem mem_ofList {line : LineNumber} {lines : List LineNumber} :
    line ∈ (ofList lines).toList ↔ line ∈ lines := by
  induction lines with
  | nil => simp [ofList, empty]
  | cons first rest ih =>
    change line ∈ insertSorted first (ofList rest).toList ↔ _
    rw [mem_insertSorted, ih, List.mem_cons]

end LineSet

end LineAtlas
