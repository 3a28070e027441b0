import LineAtlas.Files.ClassPath
import LineAtlas.Proofs.Files.Walk
import Mathlib.Data.List.Flatten
import Mathlib.Data.List.Sort

/-!
# Discovery of class files

The class files below some roots come in the order of their paths, and no two of them are the same
path. Which ones they are depends on what is at or below the roots, and not on the order of the
roots or on how often something is below them.
-/

namespace LineAtlas

namespace Path

/-- Paths in strictly ascending order. -/
def Ascending (l : List Path) : Prop := l.Pairwise fun p q => p.order q = .lt

/-- Two ascending lists of the same paths have the same parts, one by one. -/
theorem Ascending.map_parts_eq {l l' : List Path} (hl : Ascending l) (hl' : Ascending l')
    (hsame : ∀ q : Path, (∃ p ∈ l, p.parts = q.parts) ↔ ∃ p ∈ l', p.parts = q.parts) :
    l.map parts = l'.map parts := by
  let before (a b : List PathPart) : Prop := List.compareLex PathPart.order a b = .lt
  have hirrefl : Std.Irrefl before := ⟨fun a h => by
    have hself : List.compareLex PathPart.order a a = .eq := Std.ReflCmp.compare_self
    cases hself.symm.trans h⟩
  have hantisymm : Std.Antisymm before := ⟨fun a b hab hba => by
    change List.compareLex PathPart.order a b = .lt at hab
    cases (Std.OrientedCmp.gt_of_lt hab).symm.trans hba⟩
  have hmem : ∀ a, a ∈ l.map parts → a ∈ l'.map parts := fun a ha => by
    obtain ⟨p, hp, rfl⟩ := List.mem_map.mp ha
    exact List.mem_map.mpr ((hsame p).mp ⟨p, hp, rfl⟩)
  have hmem' : ∀ a, a ∈ l'.map parts → a ∈ l.map parts := fun a ha => by
    obtain ⟨p, hp, rfl⟩ := List.mem_map.mp ha
    exact List.mem_map.mpr ((hsame p).mpr ⟨p, hp, rfl⟩)
  exact (List.pairwise_map.mpr hl : (l.map parts).Pairwise before).eq_of_mem_iff
    (List.pairwise_map.mpr hl') fun a => ⟨hmem a, hmem' a⟩

end Path

namespace Discovery

open LineAtlas.Path (Ascending)

variable {l : List Path}

/-- Leaving out repeats only drops paths. -/
theorem withoutRepeats_sublist (l : List Path) : (withoutRepeats l).Sublist l := by
  fun_induction withoutRepeats l with
  | case1 first second rest hsame ih => exact ih.trans (by simp)
  | case2 first second rest hsame ih => exact ih.cons_cons first
  | case3 paths => exact List.Sublist.refl _

/-- Paths in order ascend strictly once those are left out that only repeat the one before. -/
theorem ascending_withoutRepeats (h : l.Pairwise fun p q => p.notAfter q = true) :
    Ascending (withoutRepeats l) := by
  fun_induction withoutRepeats l with
  | case1 first second rest hsame ih =>
    exact ih (h.sublist (by simp))
  | case2 first second rest hsame ih =>
    obtain ⟨hfirst, hrest⟩ := List.pairwise_cons.mp h
    have hlt : first.order second = .lt := by
      rcases Ordering.isLE_iff_eq_lt_or_eq_eq.mp (hfirst second List.mem_cons_self) with hlt | heq
      · exact hlt
      · exact absurd (Path.same_iff.mpr (Path.order_eq_eq_iff.mp heq)) hsame
    refine List.pairwise_cons.mpr ⟨fun q hq => ?_, ih hrest⟩
    rcases List.mem_cons.mp ((withoutRepeats_sublist _).subset hq) with rfl | hq
    · exact hlt
    · exact Std.TransCmp.lt_of_lt_of_isLE hlt ((List.pairwise_cons.mp hrest).1 q hq)
  | case3 paths hshort =>
    cases paths with
    | nil => exact List.Pairwise.nil
    | cons first rest =>
      cases rest with
      | nil => exact List.pairwise_singleton _ _
      | cons second rest => exact absurd rfl (hshort first second rest)

/-- No path is lost with the repetitions. -/
theorem exists_mem_withoutRepeats {q : Path} (h : q ∈ l) :
    ∃ p ∈ withoutRepeats l, p.parts = q.parts := by
  fun_induction withoutRepeats l generalizing q with
  | case1 first second rest hsame ih =>
    rcases List.mem_cons.mp h with rfl | hq
    · exact ih List.mem_cons_self
    · rcases List.mem_cons.mp hq with rfl | hq
      · obtain ⟨p, hp, hparts⟩ := ih List.mem_cons_self
        exact ⟨p, hp, hparts.trans (Path.same_iff.mp hsame)⟩
      · exact ih (List.mem_cons_of_mem _ hq)
  | case2 first second rest hsame ih =>
    rcases List.mem_cons.mp h with rfl | hq
    · exact ⟨q, List.mem_cons_self, rfl⟩
    · obtain ⟨p, hp, hparts⟩ := ih hq
      exact ⟨p, List.mem_cons_of_mem _ hp, hparts⟩
  | case3 paths => exact ⟨q, h, rfl⟩

section Roots

variable {t : FileTree} {roots : List Path} {p q : Path}

/-- The class files that walks from some roots come by, one root after the other. -/
def comeBy (t : FileTree) (roots : List Path) : List Path :=
  ((roots.flatMap t.findingsBelow).filterMap (·.file?)).filter isClassFile

/-- A walk from one of the roots comes by each of the class files. -/
theorem mem_comeBy : p ∈ comeBy t roots ↔
    isClassFile p = true ∧ ∃ root ∈ roots, .file p ∈ t.findingsBelow root := by
  rw [comeBy, List.mem_filter, and_comm, List.mem_filterMap]
  simp only [FileTree.Finding.file?_eq_some_iff, exists_eq_right, List.mem_flatMap]

/-- A path with the parts of a class file is that of a class file. -/
theorem isClassFile_congr (h : p.parts = q.parts) : isClassFile p = isClassFile q := by
  rw [isClassFile, isClassFile, Path.extension?, Path.extension?, Path.fileName?, Path.fileName?, h]

/-- The class files come in strictly ascending order of their paths. -/
theorem ascending_files (t : FileTree) (roots : List Path) : Ascending (ofRoots t roots).files :=
  ascending_withoutRepeats
    (List.pairwise_mergeSort Path.notAfter_trans Path.notAfter_total (comeBy t roots))

/-- What is listed is what walks come by, in another order and without repetitions. -/
theorem exists_mem_files_iff : (∃ p ∈ (ofRoots t roots).files, p.parts = q.parts) ↔
    ∃ p ∈ comeBy t roots, p.parts = q.parts := by
  have hperm := List.mergeSort_perm (comeBy t roots) Path.notAfter
  constructor
  · rintro ⟨p, hp, hparts⟩
    exact ⟨p, hperm.mem_iff.mp ((withoutRepeats_sublist _).subset hp), hparts⟩
  · rintro ⟨p, hp, hparts⟩
    obtain ⟨p', hp', hparts'⟩ := exists_mem_withoutRepeats (hperm.mem_iff.mpr hp)
    exact ⟨p', hp', hparts'.trans hparts⟩

/-- What a walk comes by is a class file at or below a root, however its path is spelled. -/
theorem hasBelow_of_mem_comeBy (ht : t.WellNamed) (h : p ∈ comeBy t roots)
    (hparts : p.parts = q.parts) : isClassFile q = true ∧ ∃ root ∈ roots, t.HasBelow root q := by
  obtain ⟨hclass, root, hroot, hmem⟩ := mem_comeBy.mp h
  obtain ⟨node, names, hfind, hholds, hnames⟩ := ht.hasBelow_of_mem hmem
  exact ⟨isClassFile_congr hparts ▸ hclass, root, hroot, node, names, hfind, hholds,
    hparts ▸ hnames⟩

/-- A walk that can enter every directory comes by each class file below its root. -/
theorem exists_mem_comeBy (ht : t.WellNamed) (hclass : isClassFile q = true) {root : Path}
    (hroot : root ∈ roots) (hwalk : t.CanWalk root) (h : t.HasBelow root q) :
    ∃ p ∈ comeBy t roots, p.parts = q.parts := by
  obtain ⟨p, hmem, hparts⟩ := hwalk.exists_mem ht h
  exact ⟨p, mem_comeBy.mpr ⟨isClassFile_congr hparts ▸ hclass, root, hroot, hmem⟩, hparts⟩

/-- Roots that are covered by others add nothing but more of the same. -/
theorem map_parts_files_eq {more roots' : List Path} (ht : t.WellNamed)
    (hwalk : ∀ root ∈ roots, t.CanWalk root)
    (hmore : ∀ p ∈ more, ∃ root ∈ roots, t.Covers root p) (hroots : roots'.Perm (roots ++ more)) :
    (ofRoots t roots').files.map Path.parts = (ofRoots t roots).files.map Path.parts := by
  refine (ascending_files t roots').map_parts_eq (ascending_files t roots) fun q => ?_
  rw [exists_mem_files_iff, exists_mem_files_iff]
  constructor
  · rintro ⟨p, hp, hparts⟩
    obtain ⟨hclass, root', hroot', hbelow⟩ := hasBelow_of_mem_comeBy ht hp hparts
    rcases List.mem_append.mp (hroots.mem_iff.mp hroot') with hroot | hadded
    · exact exists_mem_comeBy ht hclass hroot (hwalk root' hroot) hbelow
    · obtain ⟨root, hroot, hcovers⟩ := hmore root' hadded
      exact exists_mem_comeBy ht hclass hroot (hwalk root hroot) (hcovers.hasBelow hbelow)
  · rintro ⟨p, hp, hparts⟩
    obtain ⟨hclass, root, hroot, hmem⟩ := mem_comeBy.mp hp
    have hroot' : root ∈ roots' := hroots.mem_iff.mpr (List.mem_append_left _ hroot)
    exact ⟨p, mem_comeBy.mpr ⟨hclass, root, hroot', hmem⟩, hparts⟩

/-- A root that leads nowhere has one failure, and no class files. -/
theorem ofRoots_missing {before after : List Path} {root : Path} {fault : PathFault}
    (h : t.find root = .error fault) :
    (ofRoots t (before ++ root :: after)).files = (ofRoots t (before ++ after)).files ∧
      (ofRoots t (before ++ root :: after)).failures = (ofRoots t before).failures
        ++ walkFailure root fault :: (ofRoots t after).failures := by
  have hfindings := FileTree.findingsBelow_of_fault h
  constructor
  · simp only [ofRoots, List.flatMap_append, List.flatMap_cons, hfindings, List.filterMap_append]
    rfl
  · simp only [ofRoots, List.flatMap_append, List.flatMap_cons, hfindings, List.filterMap_append,
      List.map_append]
    rfl

/-- Every class file is listed once. The list ascends strictly, and has the class files at and below
the roots if every directory there can be entered; so neither the order of the roots matters, nor
roots that are repeated or go on from others. A root that is missing adds its failure and nothing
else. -/
theorem ofRoots_eachOnce (ht : t.WellNamed) (roots : List Path) :
    Ascending (ofRoots t roots).files ∧
    ((∀ root ∈ roots, t.CanWalk root) →
      (∀ q, (∃ p ∈ (ofRoots t roots).files, p.same q = true) ↔
        isClassFile q = true ∧ ∃ root ∈ roots, t.HasBelow root q) ∧
      ∀ more roots', (∀ p ∈ more, ∃ root ∈ roots, t.Covers root p) → roots'.Perm (roots ++ more) →
        (ofRoots t roots').files.map Path.parts = (ofRoots t roots).files.map Path.parts) ∧
    ∀ before root after fault, roots = before ++ root :: after → t.find root = .error fault →
      (ofRoots t roots).files = (ofRoots t (before ++ after)).files ∧
        (ofRoots t roots).failures = (ofRoots t before).failures
          ++ walkFailure root fault :: (ofRoots t after).failures := by
  refine ⟨ascending_files t roots, fun hwalk => ⟨fun q => ?_, fun more roots' hmore hroots => ?_⟩,
    fun before root after fault hroots hfault => ?_⟩
  · simp only [Path.same_iff]
    rw [exists_mem_files_iff]
    constructor
    · rintro ⟨p, hp, hparts⟩
      exact hasBelow_of_mem_comeBy ht hp hparts
    · rintro ⟨hclass, root, hroot, hbelow⟩
      exact exists_mem_comeBy ht hclass hroot (hwalk root hroot) hbelow
  · exact map_parts_files_eq ht hwalk hmore hroots
  · subst hroots
    exact ofRoots_missing hfault

/-- A class file in a directory, and another one in a directory there. -/
def nestedClasses : FileTree :=
  .directory [("c", .directory [("A.class", .file []), ("d", .directory [("B.class", .file [])])])]

/-- The names in the tree `nestedClasses` are those of files and directories. -/
theorem wellNamed_nestedClasses : nestedClasses.WellNamed := by
  have hnames : ∀ name ∈ ["c", "A.class", "d", "B.class"], Path.IsName name := by decide +kernel
  have hd : (FileTree.directory [("B.class", .file [])]).WellNamed :=
    .directory (by simp) (by simp [hnames]) (by simp [FileTree.WellNamed.file])
  have hc : (FileTree.directory
      [("A.class", .file []), ("d", .directory [("B.class", .file [])])]).WellNamed :=
    .directory (by simp) (by simp [hnames]) (by simp [FileTree.WellNamed.file, hd])
  exact .directory (by simp) (by simp [hnames]) (by simp [hc])

/-- A root that goes on from another one, with a slash too many, and a root that is missing. -/
theorem ofRoots_eachOnce_nestedClasses :
    nestedClasses.WellNamed ∧ (∀ root ∈ [⟨"c"⟩, ⟨"gone"⟩], nestedClasses.CanWalk root) ∧
      nestedClasses.Covers ⟨"c"⟩ ⟨"c//d"⟩ ∧
      (ofRoots nestedClasses [⟨"c//d"⟩, ⟨"gone"⟩, ⟨"c"⟩, ⟨"c"⟩]).files.map Path.parts
        = (ofRoots nestedClasses [⟨"c"⟩, ⟨"gone"⟩]).files.map Path.parts ∧
      (∃ p ∈ (ofRoots nestedClasses [⟨"c"⟩, ⟨"gone"⟩]).files, p.same ⟨"c/d/B.class"⟩ = true) ∧
      (ofRoots nestedClasses [⟨"c"⟩, ⟨"gone"⟩]).failures
        = (ofRoots nestedClasses [⟨"c"⟩]).failures ++ [walkFailure ⟨"gone"⟩ .missing] := by
  have hplain : ∀ p ∈ [Path.mk "c", Path.mk "gone"],
      p.text.isEmpty = false ∧ p.isTooLong = false ∧ p.isAbsolute = false := by decide +kernel
  have hfind : nestedClasses.find ⟨"c"⟩
      = .ok (.directory [("A.class", .file []), ("d", .directory [("B.class", .file [])])]) :=
    FileTree.find_eq_follow (by simp) (hplain _ (by simp)) (by decide +kernel : _ = ["c"])
  have hmissing : nestedClasses.find ⟨"gone"⟩ = .error .missing :=
    FileTree.find_eq_follow (by simp) (hplain _ (by simp)) (by decide +kernel : _ = ["gone"])
  have hjoin : (Path.mk "c").join ⟨"d"⟩ = ⟨"c/d"⟩ := by decide +kernel
  have hshort : (Path.mk "c").isTooLong = false ∧ (Path.mk "c/d").isTooLong = false := by
    decide +kernel
  have hwalk : ∀ root ∈ [⟨"c"⟩, ⟨"gone"⟩], nestedClasses.CanWalk root := by
    refine List.forall_mem_cons.mpr ⟨fun node hnode => ?_,
      List.forall_mem_singleton.mpr fun node hnode => ?_⟩
    · obtain rfl := Except.ok.inj (hfind.symm.trans hnode)
      simp [FileTree.findingsAt, FileTree.findingsAmong, hshort, hjoin]
    · cases hmissing.symm.trans hnode
  have hcovers : nestedClasses.Covers ⟨"c"⟩ ⟨"c//d"⟩ :=
    Or.inr ⟨["d"], by decide +kernel, Or.inr ⟨_, hfind⟩⟩
  have hbelow : nestedClasses.HasBelow ⟨"c"⟩ ⟨"c/d/B.class"⟩ :=
    ⟨_, ["d", "B.class"], hfind, .inside (List.mem_cons_of_mem _ List.mem_cons_self)
      (.inside List.mem_cons_self (.here [])), by decide +kernel⟩
  obtain ⟨-, hexact, hone⟩ := ofRoots_eachOnce wellNamed_nestedClasses [⟨"c"⟩, ⟨"gone"⟩]
  obtain ⟨hlisted, hmore⟩ := hexact hwalk
  refine ⟨wellNamed_nestedClasses, hwalk, hcovers,
    hmore [⟨"c//d"⟩, ⟨"c"⟩] _ ?_ (by decide +kernel), ?_, ?_⟩
  · exact List.forall_mem_cons.mpr ⟨⟨_, List.mem_cons_self, hcovers⟩,
      List.forall_mem_singleton.mpr ⟨_, List.mem_cons_self, Or.inl rfl⟩⟩
  · exact (hlisted ⟨"c/d/B.class"⟩).mpr ⟨by decide +kernel, ⟨"c"⟩, List.mem_cons_self, hbelow⟩
  · exact (hone [⟨"c"⟩] ⟨"gone"⟩ [] .missing rfl hmissing).2

end Roots

end Discovery

end LineAtlas
