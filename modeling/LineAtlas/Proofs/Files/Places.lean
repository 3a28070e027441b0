import LineAtlas.Proofs.Files.Walk

/-!
# Places of files

A file may be found under several paths: two of them may go round about in different ways. Its
place, the names that lead to it from the top of the tree, is the same under all of them, and the
path says what it is.
-/

namespace LineAtlas

namespace Path

/-- The place to which a piece leads from another one. -/
def stepPlace (place : List String) (piece : String) : List String :=
  if piece = ".." then place.dropLast else place ++ [piece]

/-- The place to which a path leads from the top of a tree. -/
def place (p : Path) : List String := p.way.foldl stepPlace []

/-- Names lead to the place below that they name. -/
theorem foldl_stepPlace {names : List String} (h : ∀ name ∈ names, IsName name)
    (place : List String) : names.foldl stepPlace place = place ++ names := by
  induction names generalizing place with
  | nil => exact (List.append_nil place).symm
  | cons name rest ih =>
    obtain ⟨hname, hrest⟩ := List.forall_mem_cons.mp h
    rw [List.foldl_cons, stepPlace, if_neg hname.not_idle.2, ih hrest, List.append_assoc]
    rfl

/-- Names behind a path are names behind its place. -/
theorem place_eq_append {p q : Path} {names : List String}
    (h : q.parts = p.parts ++ names.map .named) (hnames : ∀ name ∈ names, IsName name) :
    q.place = p.place ++ names := by
  rw [place, way_eq_append h, List.foldl_append, foldl_stepPlace hnames]
  rfl

end Path

namespace FileTree

open LineAtlas.Path (IsName isIdle stepPlace)

variable {t node node' x : FileTree} {ancestors ancestors' : List FileTree}
  {place names pieces : List String} {root : Path}

/-- A node stands at a place of a tree, below the given ancestors. -/
inductive StandsAt (t : FileTree) : List String → FileTree → List FileTree → Prop where
  /-- The tree stands at its own top. -/
  | top : StandsAt t [] t []
  /-- What is in a directory stands below it under its name. -/
  | inside {place : List String} {entries : List (String × FileTree)}
      {ancestors : List FileTree} {name : String} {node : FileTree}
      (h : StandsAt t place (.directory entries) ancestors) (hmem : (name, node) ∈ entries) :
      StandsAt t (place ++ [name]) node (.directory entries :: ancestors)

/-- A file below a node lies below its place. -/
theorem StandsAt.holds (h : StandsAt t place node ancestors) (hholds : node.Holds names) :
    t.Holds (place ++ names) := by
  induction h generalizing names with
  | top => exact hholds
  | inside _ hmem ih =>
    rw [List.append_assoc]
    exact ih (.inside hmem hholds)

/-- A step leads from place to place, or out of the tree. -/
theorem StandsAt.stepped {piece : String} (h : StandsAt t place node ancestors)
    (hactive : isIdle piece = false) (hstep : Stepped piece node ancestors node' ancestors') :
    StandsAt t (stepPlace place piece) node' ancestors' ∨ node' = outside ∧ ancestors' = [] := by
  cases hstep with
  | stay hidle => exact absurd hidle (by simp [hactive])
  | leave => exact Or.inr ⟨rfl, rfl⟩
  | up hup =>
    cases h with
    | inside h _ =>
      rw [stepPlace, if_pos hup, List.dropLast_concat]
      exact Or.inl h
  | into _ hdown hmem =>
    rw [stepPlace, if_neg hdown]
    exact Or.inl (.inside h hmem)

/-- There is no way back into the tree. -/
theorem follow_outside (h : follow pieces outside [] = .ok x) : x = outside := by
  induction pieces with
  | nil => exact (Except.ok.inj h).symm
  | cons piece rest ih =>
    obtain ⟨_, _, hstep, hrest⟩ := follow_cons_eq_ok_iff.mp h
    cases stepped_of_step hstep with
    | stay | leave => exact ih hrest
    | into _ _ hmem => exact absurd hmem List.not_mem_nil

/-- Pieces that can be followed lead to the node at their place, or out of the tree. -/
theorem StandsAt.follow (h : StandsAt t place node ancestors)
    (hactive : ∀ piece ∈ pieces, isIdle piece = false)
    (hfollow : follow pieces node ancestors = .ok x) :
    (∃ above, StandsAt t (pieces.foldl stepPlace place) x above) ∨ x = outside := by
  induction pieces generalizing place node ancestors with
  | nil => exact Or.inl ⟨ancestors, Except.ok.inj hfollow ▸ h⟩
  | cons piece rest ih =>
    obtain ⟨_, _, hstep, hrest⟩ := follow_cons_eq_ok_iff.mp hfollow
    obtain ⟨hpiece, hothers⟩ := List.forall_mem_cons.mp hactive
    rcases h.stepped hpiece (stepped_of_step hstep) with hnext | ⟨rfl, rfl⟩
    · exact ih hnext hothers hrest
    · exact Or.inr (follow_outside hrest)

/-- What lies below a path lies below its place. -/
theorem holds_of_find (hfind : t.find root = .ok x) (hholds : x.Holds names) :
    t.Holds (root.place ++ names) := by
  have hnone : x ≠ outside := by
    rintro rfl
    cases hholds with
    | inside hmem _ => exact List.not_mem_nil hmem
  have hfollow := follow_way_of_find hfind
  rw [startOf] at hfollow
  split at hfollow
  · exact absurd (follow_outside hfollow) hnone
  · have hactive : ∀ piece ∈ root.way, isIdle piece = false := fun piece hpiece => by
      simpa using (List.mem_filter.mp hpiece).2
    rcases StandsAt.top.follow hactive hfollow with ⟨above, hstands⟩ | hout
    · exact hstands.holds hholds
    · exact absurd hout hnone

/-- The last piece on the way to a file is a name. -/
theorem exists_last_of_follow {bytes : List UInt8}
    (h : follow pieces node ancestors = .ok (.file bytes)) (hne : pieces ≠ [])
    (hancestors : ∀ above ∈ ancestors, above.isDirectory = true) :
    ∃ front last, pieces = front ++ [last] ∧ isIdle last = false ∧ last ≠ ".." := by
  induction pieces generalizing node ancestors with
  | nil => exact absurd rfl hne
  | cons piece rest ih =>
    obtain ⟨node', ancestors', hstep, hrest⟩ := follow_cons_eq_ok_iff.mp h
    have hstepped := stepped_of_step hstep
    cases rest with
    | nil =>
      obtain rfl := Except.ok.inj hrest
      cases hstepped with
      | up => exact absurd (hancestors _ List.mem_cons_self) (by simp [isDirectory])
      | into hactive hdown _ => exact ⟨[], piece, rfl, hactive, hdown⟩
    | cons second rest =>
      have hancestors' : ∀ above ∈ ancestors', above.isDirectory = true := by
        cases hstepped with
        | stay | leave => exact hancestors
        | up => exact (List.forall_mem_cons.mp hancestors).2
        | into => exact List.forall_mem_cons.mpr ⟨rfl, hancestors⟩
      obtain ⟨front, last, hfront, hlast⟩ := ih hrest (List.cons_ne_nil _ _) hancestors'
      exact ⟨piece :: front, last, by rw [hfront]; rfl, hlast⟩

/-- A path that leads to a file ends in its name. -/
theorem fileName?_of_find {bytes : List UInt8} (hfind : t.find root = .ok (.file bytes)) :
    root.fileName? = root.place.getLast? := by
  have hfollow : follow root.pieces (t.startOf root) [] = .ok (.file bytes) := by
    rw [FileTree.find] at hfind
    split at hfind
    · cases hfind
    · exact hfind
  obtain ⟨front, last, hpieces, hactive, hdown⟩ := exists_last_of_follow hfollow
    root.pieces_ne_nil fun _ habove => absurd habove List.not_mem_nil
  have hlast : PathPart.ofPiece? last = some (.named last) := by
    rw [isIdle] at hactive
    simp [PathPart.ofPiece?, hactive, hdown]
  have hway : root.way = front.filter (fun piece => !isIdle piece) ++ [last] := by
    rw [Path.way, hpieces, List.filter_append]
    simp [hactive]
  rw [Path.fileName?_of_pieces hpieces hlast, Path.place, hway, List.foldl_concat, stepPlace,
    if_neg hdown, List.getLast?_concat]

/-- A walk finds a file under a path that says at which place it is, and what its name is. -/
theorem below_of_find (hfind : t.find root = .ok node) (hholds : node.Holds names)
    (hnames : ∀ name ∈ names, IsName name) :
    (root.below names).place = root.place ++ names ∧
      (root.below names).fileName? = (root.below names).place.getLast? := by
  have hparts := Path.parts_below hnames root
  have hplace := Path.place_eq_append hparts hnames
  refine ⟨hplace, ?_⟩
  rcases List.eq_nil_or_concat names with rfl | ⟨front, last, rfl⟩
  · cases hholds
    exact fileName?_of_find hfind
  · rw [List.concat_eq_append] at hparts hplace ⊢
    have hlast : (root.below (front ++ [last])).parts.getLast? = some (.named last) := by
      rw [hparts, List.map_append, ← List.append_assoc]
      exact List.getLast?_concat
    rw [hplace, ← List.append_assoc, List.getLast?_concat, Path.fileName?, hlast]

end FileTree

end LineAtlas
