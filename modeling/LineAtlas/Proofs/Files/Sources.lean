import LineAtlas.Files.SourceIndex
import LineAtlas.Proofs.Files.Places

/-!
# Where source files are found

A class has its source file in the directory of its package, or the only file of its name is taken
for it. The files are listed root by root, so one that is below two roots of the list is no longer
the only one of its name, and is overlooked.
-/

namespace LineAtlas

namespace Lists

variable {α β : Type} {l : List α}

/-- Two values of a list that is made up of short ones come from two items. -/
theorem exists_sublist_of_flatMap {g : α → List β} {x y : β}
    (hshort : ∀ a ∈ l, (g a).length ≤ 1) (h : [x, y].Sublist (l.flatMap g)) :
    ∃ a b, [a, b].Sublist l ∧ x ∈ g a ∧ y ∈ g b := by
  induction l with
  | nil => simp at h
  | cons first rest ih =>
    obtain ⟨hfirst, hrest⟩ := List.forall_mem_cons.mp hshort
    rw [List.flatMap_cons] at h
    obtain ⟨front, back, hxy, hfront, hback⟩ := List.sublist_append_iff.mp h
    have hlength := Nat.le_trans hfront.length_le hfirst
    match front, hxy with
    | [], hxy =>
      obtain rfl : [x, y] = back := hxy
      obtain ⟨a, b, hab, hx, hy⟩ := ih hrest hback
      exact ⟨a, b, hab.cons first, hx, hy⟩
    | [_], hxy =>
      obtain ⟨rfl, rfl⟩ := List.cons.inj hxy
      obtain ⟨b, hb, hy⟩ := List.mem_flatMap.mp (hback.subset List.mem_cons_self)
      exact ⟨first, b, (List.singleton_sublist.mpr hb).cons_cons first,
        hfront.subset List.mem_cons_self, hy⟩
    | _ :: _ :: _, _ => simp at hlength

/-- Values of two items are two values. -/
theorem two_le_length_flatMap {g : α → List β} {a b : α} {x y : β} (h : [a, b].Sublist l)
    (hx : x ∈ g a) (hy : y ∈ g b) : 2 ≤ (l.flatMap g).length := by
  induction l with
  | nil => simp at h
  | cons first rest ih =>
    rw [List.flatMap_cons, List.length_append]
    cases h with
    | cons _ hrest => exact Nat.le_trans (ih hrest) (Nat.le_add_left _ _)
    | cons_cons _ hrest =>
      have hone : 0 < (g a).length := List.length_pos_of_mem hx
      have hother : 0 < (rest.flatMap g).length := List.length_pos_of_mem
        (List.mem_flatMap.mpr ⟨b, List.singleton_sublist.mp hrest, hy⟩)
      omega

/-- Values that all stand for the same are at most one if no two of them do. -/
theorem length_le_one_of_nodup_map {f : α → β} {b : β} (hnodup : (l.map f).Nodup)
    (h : ∀ a ∈ l, f a = b) : l.length ≤ 1 := by
  have hall : l.map f = List.replicate l.length b := by
    rw [List.map_eq_replicate_iff]
    exact h
  rw [hall] at hnodup
  exact List.nodup_replicate.mp hnodup

/-- An item that is there already is not the first one when it comes again. -/
theorem find?_repeat {p : α → Bool} {a : α} {before : List α} (h : a ∈ before) (after : List α) :
    (before ++ a :: after).find? p = (before ++ after).find? p := by
  rw [List.find?_append, List.find?_append]
  cases hfound : before.find? p with
  | some b => rfl
  | none =>
    rw [List.find?_cons_of_neg (List.find?_eq_none.mp hfound a h)]

end Lists

namespace FileTree

variable {t : FileTree} {roots : List Path} {root p : Path} {file : String} {place : List String}

/-- A file lies at a place that is at or below the one to which a path leads. -/
def LiesBelow (t : FileTree) (root : Path) (place : List String) : Prop :=
  ∃ node names, t.find root = .ok node ∧ node.Holds names ∧ place = root.place ++ names

/-- A file of a name lies at a place at or below one of some roots. -/
def HasNamed (t : FileTree) (roots : List Path) (file : String) (place : List String) : Prop :=
  t.Holds place ∧ place.getLast? = some file ∧ ∃ root ∈ roots, t.LiesBelow root place

/-- The paths of files of a name that a walk comes by. -/
def named (t : FileTree) (file : String) (root : Path) : List Path :=
  ((t.findingsBelow root).filterMap (·.file?)).filter (·.fileName? == some file)

/-- A path that a walk comes by is that of a file of the name, below where the walk starts. -/
theorem mem_named (ht : t.WellNamed) (h : p ∈ t.named file root) :
    ∃ node names, t.find root = .ok node ∧ node.Holds names ∧ p = root.below names ∧
      p.place = root.place ++ names ∧ p.place.getLast? = some file := by
  obtain ⟨hmem, hfile⟩ := List.mem_filter.mp h
  obtain ⟨finding, hfinding, hpath⟩ := List.mem_filterMap.mp hmem
  obtain rfl := Finding.file?_eq_some_iff.mp hpath
  obtain ⟨node, names, hfind, hholds, rfl⟩ := exists_of_mem_findingsBelow hfinding
  obtain ⟨hplace, hname⟩ := below_of_find hfind hholds ((ht.find hfind).isName hholds)
  exact ⟨node, names, hfind, hholds, rfl, hplace, hname ▸ beq_iff_eq.mp hfile⟩

/-- What a walk comes by lies below its start. -/
theorem hasNamed_of_mem_named (ht : t.WellNamed) (hroot : root ∈ roots)
    (h : p ∈ t.named file root) : t.HasNamed roots file p.place := by
  obtain ⟨node, names, hfind, hholds, -, hplace, hfile⟩ := mem_named ht h
  exact ⟨hplace ▸ holds_of_find hfind hholds, hfile, root, hroot, node, names, hfind, hholds,
    hplace⟩

/-- A walk that can enter every directory comes by every file below its start. -/
theorem exists_mem_named (ht : t.WellNamed) (hwalk : t.CanWalk root) (h : t.LiesBelow root place)
    (hfile : place.getLast? = some file) : ∃ p ∈ t.named file root, p.place = place := by
  obtain ⟨node, names, hfind, hholds, rfl⟩ := h
  obtain ⟨hplace, hname⟩ := below_of_find hfind hholds ((ht.find hfind).isName hholds)
  have hmem : root.below names ∈ (t.findingsBelow root).filterMap (·.file?) :=
    List.mem_filterMap.mpr ⟨_, hwalk.mem_findingsBelow hfind hholds, rfl⟩
  refine ⟨root.below names, List.mem_filter.mpr ⟨hmem, ?_⟩, hplace⟩
  rw [hname, hplace, hfile]
  exact beq_self_eq_true _

/-- It comes by no file twice. -/
theorem nodup_places_named (ht : t.WellNamed) (file : String) (root : Path) :
    ((t.named file root).map Path.place).Nodup := by
  cases hfind : t.find root with
  | error fault => simp [named, findingsBelow_of_fault hfind, Finding.file?]
  | ok node =>
    have hplaces : (node.fileNames.map root.below).map Path.place
        = node.fileNames.map (root.place ++ ·) := by
      rw [List.map_map]
      refine List.map_congr_left fun names hnames => ?_
      have hholds := mem_fileNames_iff.mp hnames
      exact (below_of_find hfind hholds ((ht.find hfind).isName hholds)).1
    have hnodup : ((node.fileNames.map root.below).map Path.place).Nodup := by
      rw [hplaces]
      exact (ht.find hfind).nodup_fileNames.map (List.append_right_injective _)
    refine hnodup.sublist (List.Sublist.map _ (List.filter_sublist.trans ?_))
    rw [findingsBelow_of_find hfind]
    exact files_findingsAt_sublist root node

end FileTree

namespace SourceIndex

open FileTree (named)

variable {t : FileTree} {roots : List Path} {projectRoot : Option Path} {package file : String}

/-- Whether a root has a file in the directory of a package. -/
def HasInPackage (t : FileTree) (package file : String) (root : Path) : Prop :=
  t.hasFile ((root.join ⟨package⟩).join ⟨file⟩) = true

/-- How the source file of a class should be shown: in the first root that has it in the directory
of the package, or else as the only file of its name below the roots, or else as if it were in the
package. -/
inductive Expected (t : FileTree) (roots : List Path) (projectRoot : Option Path)
    (package file : String) : String → Prop where
  /-- The first root that has the file in the directory of the package shows it there. -/
  | inPackage {before after : List Path} {root : Path} (hroots : roots = before ++ root :: after)
      (hfirst : ∀ other ∈ before, ¬HasInPackage t package file other)
      (h : HasInPackage t package file root) :
      Expected t roots projectRoot package file
        (((root.join ⟨package⟩).join ⟨file⟩).shownBelow projectRoot)
  /-- The only file of the name below the roots is shown at its place. -/
  | only {root : Path} {node : FileTree} {names : List String}
      (hnone : ∀ root ∈ roots, ¬HasInPackage t package file root) (hroot : root ∈ roots)
      (hfind : t.find root = .ok node) (hholds : node.Holds names)
      (hunique : ∀ place, t.HasNamed roots file place ↔ place = root.place ++ names) :
      Expected t roots projectRoot package file ((root.below names).shownBelow projectRoot)
  /-- In any other case the file is shown as if it were in the package. -/
  | assumed (hnone : ∀ root ∈ roots, ¬HasInPackage t package file root)
      (hnotUnique : ¬∃ place, ∀ other, t.HasNamed roots file other ↔ other = place) :
      Expected t roots projectRoot package file (assumedPath package file)

/-- The only file of a name is listed more than once. -/
structure Overlooked (t : FileTree) (roots : List Path) (package file : String)
    (place : List String) : Prop where
  /-- No root has it in the directory of the package. -/
  none : ∀ root ∈ roots, ¬HasInPackage t package file root
  /-- It is the only file of its name. -/
  unique : ∀ other, t.HasNamed roots file other ↔ other = place
  /-- It is below two roots of the list, which may be one root that is there twice. -/
  twice : ∃ one other, [one, other].Sublist roots ∧ t.LiesBelow one place ∧ t.LiesBelow other place

/-- The files of a name are listed root by root. -/
theorem onlyNamed?_ofRoots (t : FileTree) (roots : List Path) (projectRoot : Option Path)
    (file : String) : (ofRoots t roots projectRoot).onlyNamed? file
      = match roots.flatMap (t.named file) with
        | [only] => some only
        | _ => none := by
  rw [onlyNamed?, ofRoots, List.filterMap_flatMap, List.filter_flatMap]
  rfl

/-- A file name that is listed twice is not the only one, even if both are one file. -/
theorem onlyNamed?_of_two_le (projectRoot : Option Path)
    (h : 2 ≤ (roots.flatMap (t.named file)).length) :
    (ofRoots t roots projectRoot).onlyNamed? file = none := by
  rw [onlyNamed?_ofRoots]
  split
  · next honly => simp [honly] at h
  · rfl

/-- No file is found in the package exactly if no root has one there. -/
theorem inPackage?_eq_none_iff : (ofRoots t roots projectRoot).inPackage? package file = none ↔
    ∀ root ∈ roots, ¬HasInPackage t package file root := by
  rw [inPackage?, List.find?_map, Option.map_eq_none_iff, List.find?_eq_none]
  rfl

/-- The first root counts that has a file in the directory of the package. -/
theorem inPackage?_eq_some {path : Path}
    (h : (ofRoots t roots projectRoot).inPackage? package file = some path) :
    ∃ before root after, roots = before ++ root :: after ∧
      (∀ other ∈ before, ¬HasInPackage t package file other) ∧ HasInPackage t package file root ∧
      path = (root.join ⟨package⟩).join ⟨file⟩ := by
  rw [inPackage?, List.find?_map, Option.map_eq_some_iff] at h
  obtain ⟨root, hroot, rfl⟩ := h
  obtain ⟨hhas, before, after, hroots, hbefore⟩ := List.find?_eq_some_iff_append.mp hroot
  refine ⟨before, root, after, hroots, fun other hother hfile => ?_, hhas, rfl⟩
  have hnot := hbefore other hother
  rw [Bool.not_eq_true', Function.comp_apply] at hnot
  exact absurd hfile (Bool.eq_false_iff.mp hnot)

section Unique

variable {place : List String}

/-- The files of a name are listed one by one if every directory can be entered. -/
theorem mem_flatMap_named (ht : t.WellNamed) (hwalk : ∀ root ∈ roots, t.CanWalk root)
    (h : t.HasNamed roots file place) : ∃ p ∈ roots.flatMap (t.named file), p.place = place := by
  obtain ⟨-, hfile, root, hroot, hbelow⟩ := h
  obtain ⟨p, hp, hplace⟩ := FileTree.exists_mem_named ht (hwalk root hroot) hbelow hfile
  exact ⟨p, List.mem_flatMap.mpr ⟨root, hroot, hp⟩, hplace⟩

/-- A file that is listed alone is the only one of its name. -/
theorem hasNamed_iff_of_flatMap_named {only : Path} (ht : t.WellNamed)
    (hwalk : ∀ root ∈ roots, t.CanWalk root) (h : roots.flatMap (t.named file) = [only]) :
    t.HasNamed roots file place ↔ place = only.place := by
  constructor
  · intro hnamed
    obtain ⟨p, hp, rfl⟩ := mem_flatMap_named ht hwalk hnamed
    rw [h, List.mem_singleton] at hp
    rw [hp]
  · rintro rfl
    have hmem : only ∈ roots.flatMap (t.named file) := h ▸ List.mem_singleton_self only
    obtain ⟨root, hroot, honly⟩ := List.mem_flatMap.mp hmem
    exact FileTree.hasNamed_of_mem_named ht hroot honly

/-- Where only one file has a name, every listing of it is for another root. -/
theorem exists_sublist_of_named {one other : Path} {rest : List Path} (ht : t.WellNamed)
    (hunique : ∀ q, t.HasNamed roots file q ↔ q = place)
    (h : roots.flatMap (t.named file) = one :: other :: rest) :
    ∃ a b, [a, b].Sublist roots ∧ t.LiesBelow a place ∧ t.LiesBelow b place := by
  have hplace : ∀ root ∈ roots, ∀ p ∈ t.named file root, p.place = place := fun root hroot p hp =>
    (hunique _).mp (FileTree.hasNamed_of_mem_named ht hroot hp)
  have hbelow : ∀ root ∈ roots, ∀ p ∈ t.named file root, t.LiesBelow root place := by
    intro root hroot p hp
    obtain ⟨node, names, hfind, hholds, -, hat, -⟩ := FileTree.mem_named ht hp
    exact ⟨node, names, hfind, hholds, (hplace root hroot p hp).symm.trans hat⟩
  have hshort : ∀ root ∈ roots, (t.named file root).length ≤ 1 := fun root hroot =>
    Lists.length_le_one_of_nodup_map (FileTree.nodup_places_named ht file root)
      (hplace root hroot)
  have htwo : [one, other].Sublist (roots.flatMap (t.named file)) := by
    rw [h]
    exact ((List.nil_sublist rest).cons_cons other).cons_cons one
  obtain ⟨a, b, hab, hone, hother⟩ := Lists.exists_sublist_of_flatMap hshort htwo
  exact ⟨a, b, hab, hbelow a (hab.subset (by simp)) one hone,
    hbelow b (hab.subset (by simp)) other hother⟩

/-- A file that is listed for two roots is listed twice. -/
theorem Overlooked.two_le (h : Overlooked t roots package file place) (ht : t.WellNamed)
    (hwalk : ∀ root ∈ roots, t.CanWalk root) : 2 ≤ (roots.flatMap (t.named file)).length := by
  obtain ⟨one, other, hsublist, hone, hother⟩ := h.twice
  have hfile := ((h.unique place).mpr rfl).2.1
  obtain ⟨x, hx, -⟩ :=
    FileTree.exists_mem_named ht (hwalk one (hsublist.subset (by simp))) hone hfile
  obtain ⟨y, hy, -⟩ :=
    FileTree.exists_mem_named ht (hwalk other (hsublist.subset (by simp))) hother hfile
  exact Lists.two_le_length_flatMap hsublist hx hy

end Unique

/-- What is shown for a class whose source file is in no directory of its package. -/
theorem sourceOf_of_none {className : String}
    (h : ∀ root ∈ roots, ¬HasInPackage t (ClassFile.packageOf className) file root) :
    (ofRoots t roots projectRoot).sourceOf className (some file)
      = match (ofRoots t roots projectRoot).onlyNamed? file with
        | some path => path.shownBelow projectRoot
        | none => assumedPath (ClassFile.packageOf className) file := by
  rw [sourceOf]
  simp only [inPackage?_eq_none_iff.mpr h, Option.none_or]
  rfl

/-- The source file of a class is found unless it is overlooked. -/
theorem expected_sourceOf (ht : t.WellNamed) (hwalk : ∀ root ∈ roots, t.CanWalk root)
    {className : String}
    (h : ¬∃ place, Overlooked t roots (ClassFile.packageOf className) file place) :
    Expected t roots projectRoot (ClassFile.packageOf className) file
      ((ofRoots t roots projectRoot).sourceOf className (some file)) := by
  cases hpackage :
    (ofRoots t roots projectRoot).inPackage? (ClassFile.packageOf className) file with
  | some path =>
    obtain ⟨before, root, after, hroots, hfirst, hroot, rfl⟩ := inPackage?_eq_some hpackage
    rw [sourceOf]
    simp only [hpackage, Option.some_or]
    exact .inPackage hroots hfirst hroot
  | none =>
    have hnone := inPackage?_eq_none_iff.mp hpackage
    rw [sourceOf_of_none hnone, onlyNamed?_ofRoots]
    cases hlisted : roots.flatMap (t.named file) with
    | nil =>
      refine .assumed hnone fun ⟨place, hunique⟩ => ?_
      obtain ⟨p, hp, -⟩ := mem_flatMap_named ht hwalk ((hunique place).mpr rfl)
      simp [hlisted] at hp
    | cons first rest =>
      cases rest with
      | nil =>
        have hmem : first ∈ roots.flatMap (t.named file) := hlisted ▸ List.mem_singleton_self first
        obtain ⟨root, hroot, hfirst⟩ := List.mem_flatMap.mp hmem
        obtain ⟨node, names, hfind, hholds, rfl, hplace, -⟩ := FileTree.mem_named ht hfirst
        exact .only hnone hroot hfind hholds fun place =>
          hplace ▸ hasNamed_iff_of_flatMap_named ht hwalk hlisted
      | cons second rest =>
        exact .assumed hnone fun ⟨place, hunique⟩ =>
          h ⟨place, hnone, hunique, exists_sublist_of_named ht hunique hlisted⟩

/-- A file that is overlooked is assumed to be in the package. -/
theorem sourceOf_overlooked (ht : t.WellNamed) (hwalk : ∀ root ∈ roots, t.CanWalk root)
    {className : String} {place : List String}
    (h : Overlooked t roots (ClassFile.packageOf className) file place) :
    (ofRoots t roots projectRoot).sourceOf className (some file)
      = assumedPath (ClassFile.packageOf className) file := by
  rw [sourceOf_of_none h.none, onlyNamed?_of_two_le _ (h.two_le ht hwalk)]

section Repeated

variable {before after : List Path} {root : Path} {className : String}

/-- A root that is given again changes nothing for the directory of a package. -/
theorem inPackage?_repeat (hroot : root ∈ before) :
    (ofRoots t (before ++ root :: after) projectRoot).inPackage? package file
      = (ofRoots t (before ++ after) projectRoot).inPackage? package file := by
  simp only [inPackage?, List.find?_map, ofRoots, Lists.find?_repeat hroot]

/-- A root that comes again does not matter if a directory of the package has the file, or if no
file below the root has its name. -/
theorem sourceOf_repeat_eq (ht : t.WellNamed) (hroot : root ∈ before)
    (h : (∃ other ∈ before ++ after, HasInPackage t (ClassFile.packageOf className) file other) ∨
      ∀ place, ¬t.HasNamed [root] file place) :
    (ofRoots t (before ++ root :: after) projectRoot).sourceOf className (some file)
      = (ofRoots t (before ++ after) projectRoot).sourceOf className (some file) := by
  rw [sourceOf, sourceOf]
  simp only [inPackage?_repeat hroot]
  rcases h with ⟨other, hother, hhas⟩ | hnone
  · cases hpackage :
      (ofRoots t (before ++ after) projectRoot).inPackage? (ClassFile.packageOf className) file with
    | some path => rfl
    | none => exact absurd hhas (inPackage?_eq_none_iff.mp hpackage other hother)
  · have hnamed : t.named file root = [] := List.eq_nil_iff_forall_not_mem.mpr fun p hp =>
      hnone p.place (FileTree.hasNamed_of_mem_named ht (List.mem_singleton_self root) hp)
    have honly : (ofRoots t (before ++ root :: after) projectRoot).onlyNamed? file
        = (ofRoots t (before ++ after) projectRoot).onlyNamed? file := by
      rw [onlyNamed?_ofRoots, onlyNamed?_ofRoots, List.flatMap_append, List.flatMap_append,
        List.flatMap_cons, hnamed, List.nil_append]
    rw [honly]
    rfl

/-- It hides every file below it that is in no directory of the package. -/
theorem sourceOf_repeat_eq_assumedPath (ht : t.WellNamed) (hwalk : t.CanWalk root)
    (hroot : root ∈ before)
    (hnone : ∀ other ∈ before ++ after,
      ¬HasInPackage t (ClassFile.packageOf className) file other)
    {place : List String} (h : t.HasNamed [root] file place) :
    (ofRoots t (before ++ root :: after) projectRoot).sourceOf className (some file)
      = assumedPath (ClassFile.packageOf className) file := by
  have hagain : ∀ other ∈ before ++ root :: after,
      ¬HasInPackage t (ClassFile.packageOf className) file other := fun other hother => by
    rcases List.mem_append.mp hother with hbefore | hlater
    · exact hnone other (List.mem_append_left _ hbefore)
    · rcases List.mem_cons.mp hlater with rfl | hafter
      · exact hnone other (List.mem_append_left _ hroot)
      · exact hnone other (List.mem_append_right _ hafter)
  obtain ⟨-, hfile, only, honly, hbelow⟩ := h
  obtain rfl := List.mem_singleton.mp honly
  obtain ⟨p, hp, -⟩ := FileTree.exists_mem_named ht hwalk hbelow hfile
  have htwice : [only, only].Sublist (before ++ only :: after) :=
    (List.singleton_sublist.mpr hroot).append ((List.nil_sublist after).cons_cons only)
  rw [sourceOf_of_none hagain, onlyNamed?_of_two_le _ (Lists.two_le_length_flatMap htwice hp hp)]

end Repeated

/-- The source file of a class is the one it is expected to be, unless the only file of its name is
below two roots of the list; then it is assumed to be in the package. So a root that comes again in
the list hides the files below it that are in no directory of a package, and changes nothing
else. -/
theorem sourceOf_expected_or_overlooked (ht : t.WellNamed) (roots : List Path)
    (hwalk : ∀ root ∈ roots, t.CanWalk root) (projectRoot : Option Path) (className file : String) :
    ((¬∃ place, Overlooked t roots (ClassFile.packageOf className) file place) →
      Expected t roots projectRoot (ClassFile.packageOf className) file
        ((ofRoots t roots projectRoot).sourceOf className (some file))) ∧
    ((∃ place, Overlooked t roots (ClassFile.packageOf className) file place) →
      (ofRoots t roots projectRoot).sourceOf className (some file)
        = assumedPath (ClassFile.packageOf className) file) ∧
    ∀ before root after, roots = before ++ after → root ∈ before →
      ((∃ other ∈ roots, HasInPackage t (ClassFile.packageOf className) file other) ∨
          (∀ place, ¬t.HasNamed [root] file place) →
        (ofRoots t (before ++ root :: after) projectRoot).sourceOf className (some file)
          = (ofRoots t roots projectRoot).sourceOf className (some file)) ∧
      ((∀ other ∈ roots, ¬HasInPackage t (ClassFile.packageOf className) file other) →
        (∃ place, t.HasNamed [root] file place) →
        (ofRoots t (before ++ root :: after) projectRoot).sourceOf className (some file)
          = assumedPath (ClassFile.packageOf className) file) := by
  refine ⟨expected_sourceOf ht hwalk, fun ⟨_, h⟩ => sourceOf_overlooked ht hwalk h,
    fun before root after hroots hroot => ?_⟩
  subst hroots
  exact ⟨sourceOf_repeat_eq ht hroot, fun hnone ⟨_, h⟩ => sourceOf_repeat_eq_assumedPath ht
    (hwalk root (List.mem_append_left _ hroot)) hroot hnone h⟩

section Flat

/-- A source file that is not in a directory of its package. -/
def flatSource : FileTree := .directory [("flat", .directory [("Main.kt", .file [])])]

/-- The names in the tree `flatSource` are those of files and directories. -/
theorem wellNamed_flatSource : flatSource.WellNamed := by
  have hnames : ∀ name ∈ ["flat", "Main.kt"], Path.IsName name := by decide +kernel
  have hflat : (FileTree.directory [("Main.kt", .file [])]).WellNamed :=
    .directory (by simp) (by simp [hnames]) (by simp [FileTree.WellNamed.file])
  exact .directory (by simp) (by simp [hnames]) (by simp [hflat])

/-- The path `flat` leads to the directory with the file. -/
theorem find_flat : flatSource.find ⟨"flat"⟩ = .ok (.directory [("Main.kt", .file [])]) :=
  FileTree.find_eq_follow (by simp) (by decide +kernel) (by decide +kernel : _ = ["flat"])

/-- A walk from `flat` comes by the one file. -/
theorem findingsBelow_flat : flatSource.findingsBelow ⟨"flat"⟩ = [.file ⟨"flat/Main.kt"⟩] := by
  have hshort : (Path.mk "flat").isTooLong = false := by decide +kernel
  rw [FileTree.findingsBelow_of_find find_flat]
  simp only [FileTree.findingsAt, hshort, FileTree.findingsAmong]
  decide +kernel

/-- A walk from `flat` can enter every directory. -/
theorem canWalk_flat : flatSource.CanWalk ⟨"flat"⟩ := by
  intro node hnode q cause hmem
  rw [← FileTree.findingsBelow_of_find hnode, findingsBelow_flat] at hmem
  simp at hmem

/-- The file is listed once for each walk from `flat`. -/
theorem named_flat : flatSource.named "Main.kt" ⟨"flat"⟩ = [⟨"flat/Main.kt"⟩] := by
  rw [named, findingsBelow_flat]
  decide +kernel

/-- The file is in no directory of the package. -/
theorem not_hasInPackage_flat :
    ¬HasInPackage flatSource (ClassFile.packageOf "com/example/MainKt") "Main.kt" ⟨"flat"⟩ := by
  have hpath : ((Path.mk "flat").join ⟨ClassFile.packageOf "com/example/MainKt"⟩).join ⟨"Main.kt"⟩
      = ⟨"flat/com/example/Main.kt"⟩ := by decide +kernel
  have hfind : flatSource.find ⟨"flat/com/example/Main.kt"⟩ = .error .missing :=
    FileTree.find_eq_follow (by simp) (by decide +kernel)
      (by decide +kernel : _ = ["flat", "com", "example", "Main.kt"])
  rw [HasInPackage, hpath, FileTree.hasFile, hfind]
  simp

/-- The directory holds its one file and nothing else. -/
theorem holds_flat_iff {names : List String} :
    (FileTree.directory [("Main.kt", .file [])]).Holds names ↔ names = ["Main.kt"] := by
  constructor
  · intro h
    cases h with
    | inside hmem h =>
      obtain ⟨rfl, rfl⟩ := Prod.mk.inj (List.mem_singleton.mp hmem)
      cases h
      rfl
  · rintro rfl
    exact .inside (List.mem_singleton_self _) (.here [])

/-- There is one file of the name, however often its root is in the list. -/
theorem hasNamed_flat_iff {roots : List Path} (hroots : ∀ root, root ∈ roots ↔ root = ⟨"flat"⟩)
    {place : List String} :
    flatSource.HasNamed roots "Main.kt" place ↔ place = (Path.mk "flat").place ++ ["Main.kt"] := by
  constructor
  · rintro ⟨-, -, root, hroot, node, names, hfind, hholds, rfl⟩
    obtain rfl := (hroots root).mp hroot
    obtain rfl := Except.ok.inj (hfind.symm.trans find_flat)
    rw [holds_flat_iff.mp hholds]
  · rintro rfl
    have hholds := holds_flat_iff.mpr rfl
    exact ⟨FileTree.holds_of_find find_flat hholds, List.getLast?_concat, ⟨"flat"⟩,
      (hroots _).mpr rfl, _, _, find_flat, hholds, rfl⟩

/-- With its root repeated the file is overlooked, and without it is not. -/
theorem sourceOf_expected_or_overlooked_flat : flatSource.WellNamed ∧ flatSource.CanWalk ⟨"flat"⟩ ∧
    (ofRoots flatSource [⟨"flat"⟩, ⟨"flat"⟩] none).sourceOf "com/example/MainKt" (some "Main.kt")
      = "com/example/Main.kt" ∧
    Expected flatSource [⟨"flat"⟩] none (ClassFile.packageOf "com/example/MainKt") "Main.kt"
      ((ofRoots flatSource [⟨"flat"⟩] none).sourceOf "com/example/MainKt" (some "Main.kt")) := by
  obtain ⟨hexpected, -, hrepeat⟩ := sourceOf_expected_or_overlooked wellNamed_flatSource
    [⟨"flat"⟩] (List.forall_mem_singleton.mpr canWalk_flat) none "com/example/MainKt" "Main.kt"
  refine ⟨wellNamed_flatSource, canWalk_flat, ?_, hexpected ?_⟩
  · refine ((hrepeat [⟨"flat"⟩] ⟨"flat"⟩ [] rfl (List.mem_singleton_self _)).2
      (List.forall_mem_singleton.mpr not_hasInPackage_flat)
      ⟨_, (hasNamed_flat_iff fun root => List.mem_singleton).mpr rfl⟩).trans ?_
    decide +kernel
  · rintro ⟨place, -, -, one, other, htwice, -⟩
    exact absurd htwice.length_le (by simp)

/-- A repeated root makes a file be overlooked that is the only one of its name. -/
theorem sourceOf_changes_repeatedRoot :
    (ofRoots flatSource [⟨"flat"⟩] none).sourceOf "com/example/MainKt" (some "Main.kt")
      = "flat/Main.kt" ∧
    (ofRoots flatSource [⟨"flat"⟩, ⟨"flat"⟩] none).sourceOf "com/example/MainKt" (some "Main.kt")
      = "com/example/Main.kt" ∧
    ¬Expected flatSource [⟨"flat"⟩, ⟨"flat"⟩] none (ClassFile.packageOf "com/example/MainKt")
      "Main.kt" "com/example/Main.kt" := by
  have honce : ∀ root ∈ [Path.mk "flat"],
      ¬HasInPackage flatSource (ClassFile.packageOf "com/example/MainKt") "Main.kt" root :=
    List.forall_mem_singleton.mpr not_hasInPackage_flat
  have htwice : ∀ root, root ∈ [Path.mk "flat", Path.mk "flat"] ↔ root = ⟨"flat"⟩ := by simp
  refine ⟨?_, ?_, fun h => ?_⟩
  · rw [sourceOf_of_none honce, onlyNamed?_ofRoots, List.flatMap_cons, named_flat]
    decide +kernel
  · rw [sourceOf_of_none fun root hroot => (htwice root).mp hroot ▸ not_hasInPackage_flat,
      onlyNamed?_ofRoots, List.flatMap_cons, List.flatMap_cons, named_flat]
    decide +kernel
  · generalize hshown : "com/example/Main.kt" = shown at h
    cases h with
    | inPackage hroots _ hhas =>
      have hroot := hroots.symm ▸ List.mem_append_right _ List.mem_cons_self
      exact not_hasInPackage_flat ((htwice _).mp hroot ▸ hhas)
    | only _ hroot hfind hholds _ =>
      obtain rfl := (htwice _).mp hroot
      obtain rfl := Except.ok.inj (hfind.symm.trans find_flat)
      rw [holds_flat_iff.mp hholds] at hshown
      exact absurd hshown (by decide +kernel)
    | assumed _ hnotUnique => exact hnotUnique ⟨_, fun _ => hasNamed_flat_iff htwice⟩

end Flat

end SourceIndex

end LineAtlas
