import LineAtlas.Files.FileTree
import LineAtlas.Proofs.Except
import LineAtlas.Proofs.Files.Parts
import Mathlib.Data.List.Nodup

/-!
# Walks through trees of files

A walk finds every file at and below a node, each once and under its names. A path that goes on
from another one by names leads to what lies under these names where the other one leads.
-/

namespace LineAtlas.FileTree

open LineAtlas.Path (IsName isIdle)

/-- The entries of every directory have different names, and nothing else stands there. -/
inductive WellNamed : FileTree → Prop where
  /-- A file has no names in it. -/
  | file (bytes : List UInt8) : WellNamed (.file bytes)
  /-- A directory has different names for its entries, and each of them is well named. -/
  | directory {entries : List (String × FileTree)} (hnodup : (entries.map Prod.fst).Nodup)
      (hnames : ∀ entry ∈ entries, IsName entry.1) (hnodes : ∀ entry ∈ entries, WellNamed entry.2) :
      WellNamed (.directory entries)

/-- A file lies at or below a node under some names. -/
inductive Holds : FileTree → List String → Prop where
  /-- A file is held under no further name. -/
  | here (bytes : List UInt8) : Holds (.file bytes) []
  /-- A directory holds what its entries do, behind their names. -/
  | inside {entries : List (String × FileTree)} {name : String} {node : FileTree}
      {names : List String} (hmem : (name, node) ∈ entries) (h : Holds node names) :
      Holds (.directory entries) (name :: names)

mutual

/-- The names under which files lie at and below a node. -/
def fileNames : FileTree → List (List String)
  | .file _ => [[]]
  | .directory entries => fileNamesAmong entries

/-- The names under which files lie at and below the entries of a directory. -/
def fileNamesAmong : List (String × FileTree) → List (List String)
  | [] => []
  | (name, node) :: rest => (fileNames node).map (name :: ·) ++ fileNamesAmong rest

end

/-- The files among some entries are those of each entry, behind its name. -/
theorem fileNamesAmong_eq_flatMap (entries : List (String × FileTree)) :
    fileNamesAmong entries = entries.flatMap fun entry => entry.2.fileNames.map (entry.1 :: ·) := by
  induction entries with
  | nil => rfl
  | cons entry rest ih => rw [fileNamesAmong, ih, List.flatMap_cons]

/-- A file lies in a directory when it lies at or below one of the entries. -/
theorem mem_fileNames_directory {entries : List (String × FileTree)} {names : List String} :
    names ∈ fileNames (.directory entries) ↔
      ∃ entry ∈ entries, ∃ rest ∈ entry.2.fileNames, entry.1 :: rest = names := by
  rw [fileNames, fileNamesAmong_eq_flatMap]
  simp only [List.mem_flatMap, List.mem_map]

/-- A file that lies under some names is listed under them. -/
theorem Holds.mem_fileNames {t : FileTree} {names : List String} (h : t.Holds names) :
    names ∈ t.fileNames := by
  induction h with
  | here => simp [fileNames]
  | inside hmem _ ih => exact mem_fileNames_directory.mpr ⟨_, hmem, _, ih, rfl⟩

/-- The names are those under which a file lies. -/
theorem mem_fileNames_iff {t : FileTree} {names : List String} :
    names ∈ t.fileNames ↔ t.Holds names := by
  refine ⟨fun h => ?_, Holds.mem_fileNames⟩
  induction names generalizing t with
  | nil =>
    cases t with
    | file bytes => exact .here bytes
    | directory entries =>
      obtain ⟨_, _, _, _, hcons⟩ := mem_fileNames_directory.mp h
      cases hcons
  | cons name names ih =>
    cases t with
    | file => simp [fileNames] at h
    | directory entries =>
      obtain ⟨⟨_, node⟩, hentry, rest, hrest, hcons⟩ := mem_fileNames_directory.mp h
      obtain ⟨rfl, rfl⟩ := List.cons.inj hcons
      exact .inside hentry (ih hrest)

section WellNamed

variable {t : FileTree}

/-- The place outside of the tree has no entries, and so no wrong names. -/
theorem wellNamed_outside : outside.WellNamed :=
  .directory List.nodup_nil (fun _ h => absurd h List.not_mem_nil)
    fun _ h => absurd h List.not_mem_nil

/-- A file lies under names only. -/
theorem WellNamed.isName {names : List String} (ht : t.WellNamed) (h : t.Holds names) :
    ∀ name ∈ names, IsName name := by
  induction h with
  | here => exact fun _ hname => absurd hname List.not_mem_nil
  | inside hmem _ ih =>
    cases ht with
    | directory _ hnames hnodes =>
      exact List.forall_mem_cons.mpr ⟨hnames _ hmem, ih (hnodes _ hmem)⟩

/-- No two files lie under the same names. -/
theorem WellNamed.nodup_fileNames (ht : t.WellNamed) : t.fileNames.Nodup := by
  induction ht with
  | file => simp [fileNames]
  | @directory entries hnodup _ _ ih =>
    rw [fileNames, fileNamesAmong_eq_flatMap, List.nodup_flatMap]
    refine ⟨fun entry hentry => (ih entry hentry).map fun _ _ h => (List.cons.inj h).2, ?_⟩
    refine (List.pairwise_map.mp hnodup).imp fun {one other} hne => ?_
    rintro names hone hother
    obtain ⟨_, _, rfl⟩ := List.mem_map.mp hone
    obtain ⟨_, _, hcons⟩ := List.mem_map.mp hother
    exact hne (List.cons.inj hcons).1.symm

end WellNamed

section Findings

mutual

/-- A walk finds files at and below a node only, in their order. -/
theorem files_findingsAt_sublist (path : Path) (t : FileTree) :
    ((findingsAt path t).filterMap Finding.file?).Sublist (t.fileNames.map path.below) := by
  match t with
  | .file bytes => exact List.Sublist.refl _
  | .directory entries =>
    rw [findingsAt, fileNames]
    split
    · exact List.nil_sublist _
    · exact files_findingsAmong_sublist path entries

/-- A walk comes by no other files than those of the entries, in their order and each at most
once. -/
theorem files_findingsAmong_sublist (path : Path) (entries : List (String × FileTree)) :
    ((findingsAmong path entries).filterMap Finding.file?).Sublist
      ((fileNamesAmong entries).map path.below) := by
  match entries with
  | [] => exact List.Sublist.refl _
  | (name, node) :: rest =>
    rw [findingsAmong, fileNamesAmong, List.filterMap_append, List.map_append, List.map_map]
    exact (files_findingsAt_sublist (path.join ⟨name⟩) node).append
      (files_findingsAmong_sublist path rest)

end

mutual

/-- A walk that can enter every directory finds all of them. -/
theorem findingsAt_eq {path : Path} {t : FileTree}
    (h : ∀ q cause, .fault q cause ∉ findingsAt path t) :
    findingsAt path t = t.fileNames.map fun names => .file (path.below names) := by
  match t with
  | .file bytes => rfl
  | .directory entries =>
    rw [findingsAt] at h ⊢
    split
    · next hlong =>
      rw [if_pos hlong] at h
      exact absurd List.mem_cons_self (h _ _)
    · next hshort =>
      rw [if_neg hshort] at h
      rw [fileNames]
      exact findingsAmong_eq h

/-- A walk without a fault comes by all files of the entries. -/
theorem findingsAmong_eq {path : Path} {entries : List (String × FileTree)}
    (h : ∀ q cause, .fault q cause ∉ findingsAmong path entries) :
    findingsAmong path entries
      = (fileNamesAmong entries).map fun names => .file (path.below names) := by
  match entries with
  | [] => rfl
  | (name, node) :: rest =>
    rw [findingsAmong] at h
    have hnode := findingsAt_eq fun q cause hmem => h q cause (List.mem_append_left _ hmem)
    have hrest := findingsAmong_eq fun q cause hmem => h q cause (List.mem_append_right _ hmem)
    rw [findingsAmong, fileNamesAmong, hnode, hrest, List.map_append, List.map_map]
    rfl

end

end Findings

section Following

variable {pieces names : List String} {node node' x : FileTree}
  {ancestors ancestors' : List FileTree}

/-- Pieces are followed one step at a time. -/
theorem follow_cons_eq_ok_iff {piece : String} :
    follow (piece :: pieces) node ancestors = .ok x ↔
      ∃ node' ancestors', step piece node ancestors = .ok (node', ancestors') ∧
        follow pieces node' ancestors' = .ok x := by
  rw [follow]
  constructor
  · intro h
    obtain ⟨⟨node', ancestors'⟩, hstep, hrest⟩ := Except.bind_eq_ok h
    exact ⟨node', ancestors', hstep, hrest⟩
  · rintro ⟨_, _, hstep, hrest⟩
    exact Except.bind_ok hstep hrest

/-- What is found under a name is an entry of the directory. -/
theorem mem_of_child? {name : String} {entries : List (String × FileTree)} {child : FileTree}
    (h : child? name (.directory entries) = .ok child) : (name, child) ∈ entries := by
  rw [child?] at h
  split at h
  · cases h
  · split at h
    · next hfind =>
      obtain rfl := Except.ok.inj h
      have hfound := List.find?_some hfind
      rw [beq_iff_eq] at hfound
      exact hfound ▸ List.mem_of_find?_eq_some hfind
    · cases h

/-- What a step along a piece does, from a node below some ancestors to another one below others. -/
inductive Stepped (piece : String) :
    FileTree → List FileTree → FileTree → List FileTree → Prop where
  /-- A piece that leads nowhere stays where it is. -/
  | stay {entries : List (String × FileTree)} {ancestors : List FileTree}
      (hidle : isIdle piece = true) :
      Stepped piece (.directory entries) ancestors (.directory entries) ancestors
  /-- Two dots at the top lead out of the tree. -/
  | leave {entries : List (String × FileTree)} (hup : piece = "..") :
      Stepped piece (.directory entries) [] outside []
  /-- Two dots elsewhere lead to the directory around. -/
  | up {entries : List (String × FileTree)} {above : FileTree} {ancestors : List FileTree}
      (hup : piece = "..") :
      Stepped piece (.directory entries) (above :: ancestors) above ancestors
  /-- A name leads to the entry under it. -/
  | into {entries : List (String × FileTree)} {ancestors : List FileTree} {child : FileTree}
      (hactive : isIdle piece = false) (hdown : piece ≠ "..") (hmem : (piece, child) ∈ entries) :
      Stepped piece (.directory entries) ancestors child (.directory entries :: ancestors)

/-- Each step goes up, stays outside, or goes down to an entry. -/
theorem stepped_of_step {piece : String} (h : step piece node ancestors = .ok (node', ancestors')) :
    Stepped piece node ancestors node' ancestors' := by
  cases node with
  | file => simp [step.eq_def, isDirectory] at h
  | directory entries =>
    rw [step.eq_def] at h
    simp only [isDirectory, Bool.not_true, Bool.false_eq_true, if_false] at h
    split at h
    · next hidle =>
      obtain ⟨rfl, rfl⟩ := Prod.mk.inj (Except.ok.inj h)
      exact .stay hidle
    · next hactive =>
      split at h
      · next hup =>
        cases ancestors with
        | nil =>
          obtain ⟨rfl, rfl⟩ := Prod.mk.inj (Except.ok.inj h)
          exact .leave (beq_iff_eq.mp hup)
        | cons above rest =>
          obtain ⟨rfl, rfl⟩ := Prod.mk.inj (Except.ok.inj h)
          exact .up (beq_iff_eq.mp hup)
      · next hdown =>
        obtain ⟨child, hchild, hnext⟩ := Except.map_eq_ok h
        obtain ⟨rfl, rfl⟩ := Prod.mk.inj hnext
        exact .into (Bool.eq_false_iff.mpr hactive) (fun hup => hdown (beq_iff_eq.mpr hup))
          (mem_of_child? hchild)

/-- Only a directory is left by a step. -/
theorem isDirectory_of_step {piece : String}
    (h : step piece node ancestors = .ok (node', ancestors')) : node.isDirectory = true := by
  cases stepped_of_step h <;> rfl

/-- A step along an idle piece stays where it is, which has to be a directory. -/
theorem step_idle {piece : String} (hidle : isIdle piece = true) (hnode : node.isDirectory = true) :
    step piece node ancestors = .ok (node, ancestors) := by
  rw [isIdle] at hidle
  rw [step.eq_def, hidle, hnode]
  rfl

/-- Only a directory leads on to a directory. -/
theorem isDirectory_of_follow (h : follow pieces node ancestors = .ok x)
    (hx : x.isDirectory = true) : node.isDirectory = true := by
  cases pieces with
  | nil => exact Except.ok.inj h ▸ hx
  | cons piece rest =>
    obtain ⟨_, _, hstep, -⟩ := follow_cons_eq_ok_iff.mp h
    exact isDirectory_of_step hstep

/-- Idle pieces may be left out. -/
theorem follow_filter (h : follow pieces node ancestors = .ok x) :
    follow (pieces.filter fun piece => !isIdle piece) node ancestors = .ok x := by
  induction pieces generalizing node ancestors with
  | nil => exact h
  | cons piece rest ih =>
    obtain ⟨_, _, hstep, hrest⟩ := follow_cons_eq_ok_iff.mp h
    cases hidle : isIdle piece with
    | true =>
      rw [step_idle hidle (isDirectory_of_step hstep)] at hstep
      rw [List.filter_cons_of_neg (by simp [hidle])]
      obtain ⟨rfl, rfl⟩ := Prod.mk.inj (Except.ok.inj hstep)
      exact ih hrest
    | false =>
      rw [List.filter_cons_of_pos (by simp [hidle])]
      exact follow_cons_eq_ok_iff.mpr ⟨_, _, hstep, ih hrest⟩

/-- They may be put in on the way to a directory. -/
theorem follow_of_filter
    (h : follow (pieces.filter fun piece => !isIdle piece) node ancestors = .ok x)
    (hx : x.isDirectory = true) : follow pieces node ancestors = .ok x := by
  induction pieces generalizing node ancestors with
  | nil => exact h
  | cons piece rest ih =>
    cases hidle : isIdle piece with
    | true =>
      rw [List.filter_cons_of_neg (by simp [hidle])] at h
      exact follow_cons_eq_ok_iff.mpr
        ⟨node, ancestors, step_idle hidle (isDirectory_of_follow h hx), ih h⟩
    | false =>
      rw [List.filter_cons_of_pos (by simp [hidle])] at h
      obtain ⟨_, _, hstep, hrest⟩ := follow_cons_eq_ok_iff.mp h
      exact follow_cons_eq_ok_iff.mpr ⟨_, _, hstep, ih hrest⟩

/-- What pieces lead to one after the other. -/
theorem follow_append {more : List String} (h : follow (pieces ++ more) node ancestors = .ok x) :
    ∃ between above, follow pieces node ancestors = .ok between ∧
      follow more between above = .ok x := by
  induction pieces generalizing node ancestors with
  | nil => exact ⟨node, ancestors, rfl, h⟩
  | cons piece rest ih =>
    obtain ⟨_, _, hstep, hrest⟩ := follow_cons_eq_ok_iff.mp h
    obtain ⟨between, above, hbetween, hmore⟩ := ih hrest
    exact ⟨between, above, follow_cons_eq_ok_iff.mpr ⟨_, _, hstep, hbetween⟩, hmore⟩

/-- A step leads to a directory above, to an entry or outside, or nowhere. -/
theorem Stepped.wellNamed {piece : String}
    (h : Stepped piece node ancestors node' ancestors') (hnode : node.WellNamed)
    (hancestors : ∀ above ∈ ancestors, above.WellNamed) :
    node'.WellNamed ∧ ∀ above ∈ ancestors', above.WellNamed := by
  cases h with
  | stay => exact ⟨hnode, hancestors⟩
  | leave => exact ⟨wellNamed_outside, hancestors⟩
  | up => exact List.forall_mem_cons.mp hancestors
  | into _ _ hmem =>
    refine ⟨?_, List.forall_mem_cons.mpr ⟨hnode, hancestors⟩⟩
    cases hnode with
    | directory _ _ hnodes => exact hnodes _ hmem

/-- The names below where pieces lead are those of the tree. -/
theorem WellNamed.follow (hnode : node.WellNamed)
    (hancestors : ∀ above ∈ ancestors, above.WellNamed)
    (h : follow pieces node ancestors = .ok x) : x.WellNamed := by
  induction pieces generalizing node ancestors with
  | nil => exact Except.ok.inj h ▸ hnode
  | cons piece rest ih =>
    obtain ⟨_, _, hstep, hrest⟩ := follow_cons_eq_ok_iff.mp h
    obtain ⟨hnext, habove⟩ := (stepped_of_step hstep).wellNamed hnode hancestors
    exact ih hnext habove hrest

/-- What lies below the place to which names lead lies below the start under more names. -/
theorem Holds.of_follow {rest : List String} (hnames : ∀ name ∈ names, IsName name)
    (h : follow names node ancestors = .ok x) (hx : x.Holds rest) : node.Holds (names ++ rest) := by
  induction names generalizing node ancestors with
  | nil => exact Except.ok.inj h ▸ hx
  | cons name names ih =>
    obtain ⟨hname, hnames⟩ := List.forall_mem_cons.mp hnames
    obtain ⟨_, _, hstep, hrest⟩ := follow_cons_eq_ok_iff.mp h
    cases stepped_of_step hstep with
    | stay hidle => exact absurd hidle (by simp [hname.not_idle.1])
    | leave hup | up hup => exact absurd hup hname.not_idle.2
    | into _ _ hmem => exact .inside hmem (ih hnames hrest)

end Following

section Finding

variable {t x : FileTree} {root p q : Path}

/-- Where a path that is no fault in itself leads to. -/
theorem find_eq_follow {t : FileTree} {p : Path} {pieces : List String}
    (hnull : p.text.contains '\x00' = false)
    (hplain : p.text.isEmpty = false ∧ p.isTooLong = false ∧ p.isAbsolute = false)
    (hpieces : p.pieces = pieces) : t.find p = follow pieces t [] := by
  obtain ⟨hsome, hshort, hrelative⟩ := hplain
  simp only [find, faultOf?, hnull, hsome, hshort, startOf, hrelative, hpieces, if_false,
    Bool.false_eq_true]

/-- What a path leads to has names like the tree. -/
theorem WellNamed.find (ht : t.WellNamed) (h : t.find p = .ok x) : x.WellNamed := by
  rw [FileTree.find] at h
  split at h
  · cases h
  · refine WellNamed.follow ?_ (fun _ habove => absurd habove List.not_mem_nil) h
    rw [startOf]
    split
    · exact wellNamed_outside
    · exact ht

/-- A path leads where the pieces lead that are not idle. -/
theorem follow_way_of_find (h : t.find p = .ok x) : follow p.way (t.startOf p) [] = .ok x := by
  rw [FileTree.find] at h
  split at h
  · cases h
  · exact follow_filter h

/-- A directory is found by the pieces that lead on, whatever else stands in its path. -/
theorem find_of_follow_way (hfault : faultOf? p = none) (h : follow p.way (t.startOf p) [] = .ok x)
    (hx : x.isDirectory = true) : t.find p = .ok x := by
  rw [FileTree.find, hfault]
  exact follow_of_filter h hx

/-- A walk from a path is one from the node to which it leads. -/
theorem findingsBelow_of_find (h : t.find root = .ok x) :
    t.findingsBelow root = findingsAt root x := by
  rw [findingsBelow, h]

/-- A walk from a path that leads nowhere comes by its fault only. -/
theorem findingsBelow_of_fault {fault : PathFault} (h : t.find root = .error fault) :
    t.findingsBelow root = [.fault root fault] := by
  rw [findingsBelow, h]

/-- The path that a finding is about is that of a file. -/
theorem Finding.file?_eq_some_iff {finding : Finding} :
    finding.file? = some p ↔ finding = .file p := by
  cases finding <;> simp [Finding.file?]

/-- A path is that of a file at or below the place to which another path leads. -/
def HasBelow (t : FileTree) (root q : Path) : Prop :=
  ∃ node names, t.find root = .ok node ∧ node.Holds names ∧
    q.parts = root.parts ++ names.map .named

/-- A walk from a path comes by no directory that cannot be entered. -/
def CanWalk (t : FileTree) (root : Path) : Prop :=
  ∀ node, t.find root = .ok node → ∀ q cause, .fault q cause ∉ findingsAt root node

/-- A path is another one, or goes on from it by names. The other one leads somewhere, or would if
something were there. -/
def Covers (t : FileTree) (root p : Path) : Prop :=
  p = root ∨ ∃ names : List String, p.parts = root.parts ++ names.map .named ∧
    (faultOf? root = none ∧ names ≠ [] ∨ ∃ node, t.find root = .ok node)

/-- A walk finds files at or below its start only, each under its names. -/
theorem exists_of_mem_findingsBelow (h : .file q ∈ t.findingsBelow root) :
    ∃ node names, t.find root = .ok node ∧ node.Holds names ∧ q = root.below names := by
  cases hfind : t.find root with
  | error fault => simp [findingsBelow_of_fault hfind] at h
  | ok node =>
    rw [findingsBelow_of_find hfind] at h
    have hmem : q ∈ (findingsAt root node).filterMap Finding.file? :=
      List.mem_filterMap.mpr ⟨_, h, rfl⟩
    obtain ⟨names, hnames, rfl⟩ :=
      List.mem_map.mp ((files_findingsAt_sublist root node).subset hmem)
    exact ⟨node, names, rfl, mem_fileNames_iff.mp hnames, rfl⟩

/-- It finds all of them if it can enter every directory. -/
theorem CanWalk.mem_findingsBelow {names : List String} (hwalk : t.CanWalk root)
    (hfind : t.find root = .ok x) (hholds : x.Holds names) :
    .file (root.below names) ∈ t.findingsBelow root := by
  rw [findingsBelow_of_find hfind, findingsAt_eq (hwalk x hfind)]
  exact List.mem_map.mpr ⟨names, hholds.mem_fileNames, rfl⟩

/-- What a walk comes by is a file at or below where it starts. -/
theorem WellNamed.hasBelow_of_mem (ht : t.WellNamed) (h : .file q ∈ t.findingsBelow root) :
    t.HasBelow root q := by
  obtain ⟨node, names, hfind, hholds, rfl⟩ := exists_of_mem_findingsBelow h
  exact ⟨node, names, hfind, hholds, Path.parts_below ((ht.find hfind).isName hholds) root⟩

/-- A walk that can enter every directory comes by every file, up to the spelling of paths. -/
theorem CanWalk.exists_mem (hwalk : t.CanWalk root) (ht : t.WellNamed) (h : t.HasBelow root q) :
    ∃ p, .file p ∈ t.findingsBelow root ∧ p.parts = q.parts := by
  obtain ⟨node, names, hfind, hholds, hparts⟩ := h
  refine ⟨root.below names, hwalk.mem_findingsBelow hfind hholds, ?_⟩
  rw [Path.parts_below ((ht.find hfind).isName hholds), hparts]

/-- What lies below a path lies below those that cover it. -/
theorem Covers.hasBelow (hcovers : t.Covers root p) (h : t.HasBelow p q) : t.HasBelow root q := by
  obtain rfl | ⟨names, hparts, hroot⟩ := hcovers
  · exact h
  obtain ⟨x, rest, hfind, hholds, hq⟩ := h
  have hnames : ∀ name ∈ names, IsName name := fun name hname =>
    Path.isName_of_mem_parts (p := p) (hparts ▸
      List.mem_append_right _ (List.mem_map.mpr ⟨name, hname, rfl⟩))
  have hstart : t.startOf p = t.startOf root := by
    have habsolute : p.isAbsolute = root.isAbsolute := by
      rw [Bool.eq_iff_iff, Path.isAbsolute_iff_root_mem, Path.isAbsolute_iff_root_mem, hparts]
      simp
    rw [startOf, startOf, habsolute]
  have hfollow := follow_way_of_find hfind
  rw [Path.way_eq_append hparts, hstart] at hfollow
  obtain ⟨node, above, hnode, hrest⟩ := follow_append hfollow
  have hfound : t.find root = .ok node := by
    rcases hroot with ⟨hfault, hne⟩ | ⟨node', hnode'⟩
    · obtain ⟨name, _, rfl⟩ := List.exists_cons_of_ne_nil hne
      obtain ⟨_, _, hstep, -⟩ := follow_cons_eq_ok_iff.mp hrest
      exact find_of_follow_way hfault hnode (isDirectory_of_step hstep)
    · rw [hnode', ← hnode, follow_way_of_find hnode']
  refine ⟨node, names ++ rest, hfound, .of_follow hnames hrest hholds, ?_⟩
  rw [hq, hparts, List.map_append, List.append_assoc]

end Finding

end LineAtlas.FileTree
