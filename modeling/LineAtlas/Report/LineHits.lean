import LineAtlas.ClassFile.LineSet

/-!
# Hits of lines

A line has a number of hits, or one for each of its branches. The lines of a function and
the branches of a line are kept in ascending order.
-/

namespace LineAtlas

/-- Values by number, in ascending order of the numbers. -/
structure NumberMap (α : Type) where
  /-- Numbers with their values. -/
  entries : List (UInt32 × α)
  /-- The numbers ascend strictly. -/
  ascending : entries.Pairwise (·.1 < ·.1)

namespace NumberMap

variable {α : Type}

/-- Ascending entries with a value put in its place; it replaces one of the same number. -/
def insertEntry (key : UInt32) (value : α) : List (UInt32 × α) → List (UInt32 × α)
  | [] => [(key, value)]
  | first :: rest =>
    if key < first.1 then (key, value) :: first :: rest
    else if key = first.1 then (key, value) :: rest
    else first :: insertEntry key value rest

/-- An inserted entry brings no key but its own. -/
theorem key_mem_insertEntry {key : UInt32} {value : α} {entries : List (UInt32 × α)}
    {entry : UInt32 × α} (hentry : entry ∈ insertEntry key value entries) :
    entry.1 = key ∨ entry ∈ entries := by
  induction entries with
  | nil => simp_all [insertEntry]
  | cons first rest ih =>
    unfold insertEntry at hentry
    split at hentry
    · rcases List.mem_cons.mp hentry with rfl | hentry
      · exact Or.inl rfl
      · exact Or.inr hentry
    · split at hentry
      · rcases List.mem_cons.mp hentry with rfl | hentry
        · exact Or.inl rfl
        · exact Or.inr (List.mem_cons_of_mem _ hentry)
      · rcases List.mem_cons.mp hentry with rfl | hentry
        · exact Or.inr List.mem_cons_self
        · exact (ih hentry).imp_right (List.mem_cons_of_mem _)

/-- Inserting an entry keeps the keys ascending and without repeats. -/
theorem insertEntry_ascending {key : UInt32} {value : α} {entries : List (UInt32 × α)}
    (hentries : entries.Pairwise (·.1 < ·.1)) :
    (insertEntry key value entries).Pairwise (·.1 < ·.1) := by
  induction entries with
  | nil => simp [insertEntry]
  | cons first rest ih =>
    rw [List.pairwise_cons] at hentries
    unfold insertEntry
    split
    · rw [List.pairwise_cons]
      exact ⟨by grind, List.pairwise_cons.mpr hentries⟩
    · split
      · rw [List.pairwise_cons]
        exact ⟨by grind, hentries.2⟩
      · rw [List.pairwise_cons]
        refine ⟨fun entry hentry => ?_, ih hentries.2⟩
        have := key_mem_insertEntry hentry
        grind

/-- No values. -/
def empty : NumberMap α := ⟨[], List.Pairwise.nil⟩

/-- Where any map will do, the empty one is taken. -/
instance : Inhabited (NumberMap α) := ⟨empty⟩

/-- The map with one more value; it replaces one of the same number. -/
def insert (m : NumberMap α) (key : UInt32) (value : α) : NumberMap α :=
  ⟨insertEntry key value m.entries, insertEntry_ascending m.ascending⟩

/-- The map of a list of entries, of which later ones replace earlier ones. -/
def ofList (entries : List (UInt32 × α)) : NumberMap α :=
  entries.foldl (fun m entry => m.insert entry.1 entry.2) empty

/-- The number of values. -/
def size (m : NumberMap α) : Nat := m.entries.length

end NumberMap

/-- How often a line was hit. -/
inductive LineHits where
  /-- Hits of the line. -/
  | simple (hits : UInt64)
  /-- Hits by branch. -/
  | branched (branches : NumberMap UInt64)

namespace LineHits

/-- A line that nothing has hit yet. -/
def zero : LineHits := .simple 0

/-- Where any hits will do, none are taken. -/
instance : Inhabited LineHits := ⟨zero⟩

/-- Hits of the line, over all branches. -/
def total : LineHits → UInt64
  | .simple hits => hits
  | .branched branches => (branches.entries.map Prod.snd).foldr (· + ·) 0

/-- Whether the hits are told by branch. -/
def isBranched : LineHits → Bool
  | .simple _ => false
  | .branched _ => true

end LineHits

/-- The lines of a function with their hits. -/
abbrev LineMap := NumberMap LineHits

/-- Slots without hits for the lines of a method. -/
def LineSet.slots (s : LineSet) : LineMap :=
  ⟨s.toList.map fun line => (line, .zero), by
    rw [List.pairwise_map]
    exact s.ascending⟩

end LineAtlas
