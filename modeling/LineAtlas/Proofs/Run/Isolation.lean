import LineAtlas.Proofs.Files.Walk
import LineAtlas.Proofs.Run.Scheduling

/-!
# Isolation of failures

A class file that fails takes up a position among the class files, and all files behind it move
by one. Everything in an outcome is ordered by position, so the order of what comes from the
other files stays. The failure itself comes in somewhere.
-/

namespace LineAtlas

namespace Numbered

variable {α β : Type} {k : Nat}

/-- Where a position is once another one is left free. -/
def moved (k position : Nat) : Nat := if position < k then position else position + 1

/-- Positions before the new one stay. -/
theorem moved_of_lt {position : Nat} (h : position < k) : moved k position = position := if_pos h

/-- Positions from the new one on move up by one. -/
theorem moved_of_le {position : Nat} (h : k ≤ position) : moved k position = position + 1 :=
  if_neg (by omega)

/-- The new position becomes free. -/
theorem moved_ne (k position : Nat) : moved k position ≠ k := by
  rw [moved]
  split <;> omega

/-- Making room keeps the order of positions. -/
theorem moved_le_moved_iff {position other : Nat} :
    moved k position ≤ moved k other ↔ position ≤ other := by
  rw [moved, moved]
  split <;> split <;> omega

/-- Values with one position left free. Those at this position and behind it move by one. -/
def makeRoom (k : Nat) (values : Numbered α) : Numbered α :=
  values.map fun entry => (moved k entry.1, entry.2)

/-- Room is made part by part. -/
theorem makeRoom_append (k : Nat) (values values' : Numbered α) :
    makeRoom k (values ++ values') = makeRoom k values ++ makeRoom k values' :=
  List.map_append

/-- Making room adds no value. -/
@[simp]
theorem length_makeRoom (k : Nat) (values : Numbered α) :
    (makeRoom k values).length = values.length :=
  List.length_map _

/-- Making room leaves the values. -/
@[simp]
theorem map_snd_makeRoom (k : Nat) (values : Numbered α) :
    (makeRoom k values).map Prod.snd = values.map Prod.snd := by
  rw [makeRoom, List.map_map]
  rfl

/-- No value stands at the new position. -/
theorem ne_of_mem_makeRoom {values : Numbered α} {entry : Nat × α}
    (h : entry ∈ makeRoom k values) : entry.1 ≠ k := by
  obtain ⟨old, -, rfl⟩ := List.mem_map.mp h
  exact moved_ne k old.1

/-- Moving values does not change their order. -/
theorem sorted_makeRoom (k : Nat) (values : Numbered α) :
    (makeRoom k values).sorted = makeRoom k values.sorted := by
  rw [sorted, sorted, makeRoom, makeRoom, List.map_mergeSort]
  intro a _ b _
  simp only [moved_le_moved_iff]

/-- Values come in the same order when room is made. -/
theorem inOrder_makeRoom (k : Nat) (values : Numbered α) :
    (makeRoom k values).inOrder = values.inOrder := by
  rw [inOrder, sorted_makeRoom, map_snd_makeRoom, inOrder]

/-- Picking values goes together with moving them, if the position of what is picked moves
along. -/
theorem filterMap_makeRoom {pick : Nat × α → Option (Nat × β)}
    (hpick : ∀ position a, pick (moved k position, a)
      = (pick (position, a)).map fun entry => (moved k entry.1, entry.2))
    (values : Numbered α) :
    (makeRoom k values).filterMap pick = makeRoom k (values.filterMap pick) := by
  rw [makeRoom, makeRoom, List.filterMap_map, List.map_filterMap]
  exact List.filterMap_congr fun entry _ => hpick entry.1 entry.2

/-- Values at the first position come before all values that follow them. -/
theorem sorted_append_of_first {front back : Numbered α} (hfront : ∀ entry ∈ front, entry.1 = 0) :
    sorted (front ++ back) = front ++ sorted back := by
  refine StableSort.eq_of_filter_eq (StableSort.ascending_mergeSort _) ?_ fun position => ?_
  · rw [List.pairwise_append]
    refine ⟨List.pairwise_of_forall_mem_list fun a ha b _ => ?_,
      StableSort.ascending_mergeSort _, fun a ha b _ => ?_⟩
    · exact Nat.le_trans (Nat.le_of_eq (hfront a ha)) (Nat.zero_le _)
    · exact Nat.le_trans (Nat.le_of_eq (hfront a ha)) (Nat.zero_le _)
  · rw [List.filter_append, sorted, sorted, StableSort.filter_mergeSort,
      StableSort.filter_mergeSort, List.filter_append]

/-- A value at a position of its own comes in somewhere among the others. -/
theorem sorted_insert {front back : Numbered α} (a : α)
    (hfree : ∀ entry ∈ front ++ back, entry.1 ≠ k) :
    ∃ before after, sorted (front ++ back) = before ++ after ∧
      sorted (front ++ (k, a) :: back) = before ++ (k, a) :: after := by
  have hmem : (k, a) ∈ sorted (front ++ (k, a) :: back) :=
    (sorted_perm _).mem_iff.mpr (List.mem_append_right _ List.mem_cons_self)
  obtain ⟨before, after, hsplit⟩ := List.append_of_mem hmem
  have hascending : (sorted (front ++ (k, a) :: back)).Pairwise fun a b => a.1 ≤ b.1 :=
    StableSort.ascending_mergeSort _
  refine ⟨before, after, ?_, hsplit⟩
  rw [hsplit] at hascending
  refine StableSort.eq_of_filter_eq (StableSort.ascending_mergeSort _)
    (hascending.sublist ((List.sublist_cons_self _ _).append_left _)) fun position => ?_
  have hfilter : (sorted (front ++ (k, a) :: back)).filter (·.1 == position)
      = (front ++ (k, a) :: back).filter (·.1 == position) :=
    StableSort.filter_mergeSort _ position
  rw [hsplit, List.filter_append, List.filter_append, List.filter_cons, List.filter_cons]
    at hfilter
  rw [sorted, StableSort.filter_mergeSort, List.filter_append, List.filter_append]
  by_cases hposition : k = position
  · -- No other value is at the position of the new one.
    have hnone : (front ++ back).filter (·.1 == position) = [] := by
      rw [List.filter_eq_nil_iff]
      intro entry hentry
      simpa [hposition] using hfree entry hentry
    rw [List.filter_append, List.append_eq_nil_iff] at hnone
    simp only [hnone.1, hnone.2, hposition, beq_self_eq_true, if_true, List.nil_append] at hfilter
    obtain ⟨hbefore, hafter⟩ : before.filter (·.1 == position) = [] ∧
        after.filter (·.1 == position) = [] := by
      cases hfirst : before.filter (·.1 == position) with
      | nil => simpa [hfirst] using hfilter
      | cons _ _ => simp [hfirst] at hfilter
    rw [hnone.1, hnone.2, hbefore, hafter]
  · have hother : ((k, a).1 == position) = false := by simpa using hposition
    simp only [hother, Bool.false_eq_true, if_false] at hfilter
    exact hfilter.symm

end Numbered

namespace FileResult

open Numbered (makeRoom)

/-- The resolved files are the same when room is made. -/
theorem resolvedFiles_makeRoom (k : Nat) (results : Numbered FileResult) :
    resolvedFiles (makeRoom k results) = makeRoom k (resolvedFiles results) :=
  Numbered.filterMap_makeRoom (fun _ outcome => by cases outcome <;> rfl) results

/-- The foreign classes are the same when room is made. -/
theorem foreignClasses_makeRoom (k : Nat) (results : Numbered FileResult) :
    foreignClasses (makeRoom k results) = makeRoom k (foreignClasses results) :=
  Numbered.filterMap_makeRoom (fun _ outcome => by cases outcome <;> rfl) results

/-- The failures are the same when room is made. -/
theorem failures_makeRoom (k : Nat) (results : Numbered FileResult) :
    failures (makeRoom k results) = makeRoom k (failures results) :=
  Numbered.filterMap_makeRoom (fun _ outcome => by cases outcome <;> rfl) results

/-- The results of class files that have one more file among them are those without it, moved to
leave its position free, and its own. -/
theorem ofFiles_insert (result : Path → FileResult) (before after : List Path) (p : Path) :
    ∃ front back,
      makeRoom before.length (ofFiles result ((before ++ after).mapIdx fun position q =>
        (position, q))) = front ++ back ∧
      ofFiles result ((before ++ p :: after).mapIdx fun position q => (position, q))
        = front ++ (before.length, result p) :: back := by
  refine ⟨before.mapIdx fun position q => (position, result q),
    after.mapIdx fun position q => (position + before.length + 1, result q), ?_, ?_⟩
  · rw [Reporter.ofFiles_mapIdx, List.mapIdx_append, Numbered.makeRoom_append]
    congr 1
    · refine List.ext_getElem (by simp) fun i hi _ => ?_
      have hlt : i < before.length := by simpa using hi
      simp [makeRoom, Numbered.moved_of_lt hlt]
    · refine List.ext_getElem (by simp) fun i _ _ => ?_
      simp [makeRoom, Numbered.moved_of_le]
  · rw [Reporter.ofFiles_mapIdx, List.mapIdx_append, List.mapIdx_cons, Nat.zero_add]
    refine congrArg (_ ++ _ :: ·) (List.ext_getElem (by simp) fun i _ _ => ?_)
    simp only [List.getElem_mapIdx]
    congr 1
    omega

end FileResult

namespace SourceGroup

/-- A group whose files move to leave a position free. -/
def makeRoom (k : Nat) (g : SourceGroup) : SourceGroup := { g with files := g.files.makeRoom k }

/-- Every source file has a class file. -/
theorem files_ne_nil {files : Numbered ResolvedFile} {g : SourceGroup} (h : g ∈ ofFiles files) :
    g.files ≠ [] := by
  obtain ⟨source, hsource, rfl⟩ := List.mem_map.mp h
  rw [List.mem_mergeSort, List.mem_eraseDups, List.mem_map] at hsource
  obtain ⟨entry, hentry, rfl⟩ := hsource
  have hmem : entry ∈ Numbered.sorted (files.filter (·.2.source == entry.2.source)) :=
    (Numbered.sorted_perm _).mem_iff.mpr (List.mem_filter.mpr ⟨hentry, beq_self_eq_true _⟩)
  exact List.ne_nil_of_mem hmem

/-- Class files are grouped in the same way when room is made. -/
theorem ofFiles_makeRoom (k : Nat) (files : Numbered ResolvedFile) :
    ofFiles (files.makeRoom k) = (ofFiles files).map (makeRoom k) := by
  have hsources : (files.makeRoom k).map (·.2.source) = files.map (·.2.source) := by
    rw [Numbered.makeRoom, List.map_map]
    rfl
  rw [ofFiles, hsources, ofFiles, List.map_map]
  refine List.map_congr_left fun source _ => ?_
  have hfilter : (files.makeRoom k).filter (·.2.source == source)
      = Numbered.makeRoom k (files.filter (·.2.source == source)) := by
    rw [Numbered.makeRoom, List.filter_map]
    rfl
  rw [hfilter, Numbered.sorted_makeRoom]
  rfl

/-- What a group is composed of does not depend on the positions of its files. -/
theorem compose_makeRoom (policy : AccountingPolicy) (k : Nat) (g : SourceGroup) :
    (g.makeRoom k).compose policy = g.compose policy := by
  rw [compose, compose, makeRoom, Numbered.makeRoom, List.map_map]
  rfl

/-- The failures of a source file are the same when room is made, at positions that are moved. -/
theorem failures_makeRoom (policy : AccountingPolicy) (k : Nat) {g : SourceGroup}
    (hfiles : g.files ≠ []) :
    (g.makeRoom k).failures policy = (g.failures policy).makeRoom k := by
  obtain ⟨first, rest, hcons⟩ := List.exists_cons_of_ne_nil hfiles
  have hposition : (g.makeRoom k).firstPosition
      = Numbered.moved k g.firstPosition := by
    simp [firstPosition, makeRoom, Numbered.makeRoom, hcons]
  rw [failures, failures, compose_makeRoom, hposition, Numbered.makeRoom, List.map_map]
  rfl

end SourceGroup

namespace Outcome

/-- The outcome of a run apart from one more class file, which failed. -/
structure AddsFailure (failure : ClassFailure) (o o' : Outcome) : Prop where
  /-- The report is the same. -/
  report : o'.report = o.report
  /-- The foreign classes are the same. -/
  foreignClasses : o'.foreignClasses = o.foreignClasses
  /-- The accounting is the same. -/
  ledgers : o'.ledgers = o.ledgers
  /-- One more class file is counted, and nothing else changes in the counts. -/
  stats : o'.stats = { o.stats with classFiles := o.stats.classFiles + 1 }
  /-- The run is cancelled in both cases or in neither. -/
  isCancelled : o'.isCancelled = o.isCancelled
  /-- The failure stands somewhere among the others, which keep their order. -/
  failures : ∃ before after, o.failures = before ++ after ∧
    o'.failures = before ++ failure :: after

/-- Failures in order, with those of roots in front, after one more of them came at a position
that the others leave free. -/
theorem inOrder_failures_insert (rootFailures : List ClassFailure) (failure : ClassFailure)
    {k : Nat} {failures front back : Numbered ClassFailure}
    (hroom : failures.makeRoom k = front ++ back) :
    ∃ before after,
      Numbered.inOrder (rootFailures.map (fun failure => (0, failure)) ++ failures)
        = before ++ after ∧
      Numbered.inOrder (rootFailures.map (fun failure => (0, failure))
        ++ (front ++ (k, failure) :: back)) = before ++ failure :: after := by
  have hroots : ∀ entry ∈ rootFailures.map (fun failure => (0, failure)), entry.1 = 0 := by
    simp
  have hfree : ∀ entry ∈ front ++ back, entry.1 ≠ k := by
    rw [← hroom]
    exact fun entry => Numbered.ne_of_mem_makeRoom
  obtain ⟨before, after, hsorted, hinsert⟩ := Numbered.sorted_insert failure hfree
  have hinOrder : Numbered.inOrder failures = (before ++ after).map Prod.snd := by
    rw [← Numbered.inOrder_makeRoom k, hroom, Numbered.inOrder, hsorted]
  refine ⟨rootFailures ++ before.map Prod.snd, after.map Prod.snd, ?_, ?_⟩
  · rw [Numbered.inOrder, Numbered.sorted_append_of_first hroots, List.map_append,
      ← Numbered.inOrder, hinOrder]
    simp [Function.comp_def]
  · rw [Numbered.inOrder, Numbered.sorted_append_of_first hroots, hinsert]
    simp [Function.comp_def]

/-- A failure among results, at a position that the others leave free. -/
theorem addsFailure_assemble (policy : AccountingPolicy) (classFiles : Nat)
    (rootFailures : List ClassFailure) (isCancelled : Bool) (failure : ClassFailure) {k : Nat}
    {results front back : Numbered FileResult} (hroom : results.makeRoom k = front ++ back) :
    AddsFailure failure (assemble policy classFiles rootFailures results isCancelled)
      (assemble policy (classFiles + 1) rootFailures (front ++ (k, .failed failure) :: back)
        isCancelled) := by
  have hfiles : FileResult.resolvedFiles (front ++ (k, .failed failure) :: back)
      = (FileResult.resolvedFiles results).makeRoom k := by
    rw [← FileResult.resolvedFiles_makeRoom, hroom]
    simp [FileResult.resolvedFiles]
  have hforeign : FileResult.foreignClasses (front ++ (k, .failed failure) :: back)
      = (FileResult.foreignClasses results).makeRoom k := by
    rw [← FileResult.foreignClasses_makeRoom, hroom]
    simp [FileResult.foreignClasses]
  have hfailures : (FileResult.failures results).makeRoom k
      = FileResult.failures front ++ FileResult.failures back := by
    rw [← FileResult.failures_makeRoom, hroom, FileResult.failures, List.filterMap_append]
    rfl
  have hnoted : FileResult.failures (front ++ (k, .failed failure) :: back)
      = FileResult.failures front ++ (k, failure) :: FileResult.failures back := by
    rw [FileResult.failures, List.filterMap_append]
    rfl
  have hgroups : SourceGroup.ofFiles ((FileResult.resolvedFiles results).makeRoom k)
      = (SourceGroup.ofFiles (FileResult.resolvedFiles results)).map (SourceGroup.makeRoom k) :=
    SourceGroup.ofFiles_makeRoom k _
  have hunplaced : ((SourceGroup.ofFiles (FileResult.resolvedFiles results)).map
      (SourceGroup.makeRoom k)).flatMap (SourceGroup.failures policy)
        = Numbered.makeRoom k ((SourceGroup.ofFiles (FileResult.resolvedFiles results)).flatMap
          (SourceGroup.failures policy)) := by
    rw [List.flatMap_map, Numbered.makeRoom, List.map_flatMap]
    exact List.flatMap_congr fun g hg =>
      SourceGroup.failures_makeRoom policy k (SourceGroup.files_ne_nil hg)
  refine ⟨?_, ?_, ?_, ?_, rfl, ?_⟩
  · simp [assemble, hfiles, hgroups, Function.comp_def, SourceGroup.compose_makeRoom]
  · simp only [assemble, hforeign, Numbered.inOrder_makeRoom]
  · simp only [assemble, hfiles, Numbered.inOrder_makeRoom]
  · simp only [assemble, hfiles, hforeign, hgroups, Numbered.inOrder_makeRoom,
      Numbered.length_makeRoom, List.length_map]
  · simp only [assemble, hfiles, hgroups, hunplaced, hnoted]
    have hboth := Numbered.makeRoom_append k (FileResult.failures results)
      ((SourceGroup.ofFiles (FileResult.resolvedFiles results)).flatMap
        (SourceGroup.failures policy))
    rw [hfailures, List.append_assoc] at hboth
    obtain ⟨before, after, hwithout, hwith⟩ := inOrder_failures_insert rootFailures failure hboth
    refine ⟨before, after, ?_, ?_⟩
    · rw [List.append_assoc, hwithout]
    · rw [← hwith, List.append_assoc, List.append_assoc, List.cons_append]

end Outcome

namespace SourceIndex

/-- The source file of a class is looked for below the source roots only. -/
theorem sourceOf_congr {index index' : SourceIndex} {className : String}
    {sourceFile : Option String} (hroots : index'.roots = index.roots)
    (hprojectRoot : index'.projectRoot = index.projectRoot) (hfiles : index'.files = index.files)
    (hfound : ∀ file ∈ sourceFile, ∀ root ∈ index.roots,
      index'.tree.hasFile ((root.join ⟨ClassFile.packageOf className⟩).join ⟨file⟩)
        = index.tree.hasFile ((root.join ⟨ClassFile.packageOf className⟩).join ⟨file⟩)) :
    index'.sourceOf className sourceFile = index.sourceOf className sourceFile := by
  cases sourceFile with
  | none => rfl
  | some file =>
    have hpackage : index'.inPackage? (ClassFile.packageOf className) file
        = index.inPackage? (ClassFile.packageOf className) file := by
      rw [inPackage?, inPackage?, hroots, ← List.head?_filter,
        ← List.head?_filter]
      refine congrArg List.head? (List.filter_congr fun path hpath => ?_)
      obtain ⟨root, hroot, rfl⟩ := List.mem_map.mp hpath
      exact hfound file rfl root hroot
    have hnamed : index'.onlyNamed? file = index.onlyNamed? file := by
      rw [onlyNamed?, onlyNamed?, hfiles]
    simp only [sourceOf, hpackage, hnamed, hprojectRoot]

end SourceIndex

namespace Reporter

variable {r : Reporter} {tree tree' : FileTree} {p : Path}

/-- Where a reporter looks for source files. -/
def sources (r : Reporter) (tree : FileTree) : SourceIndex :=
  .ofRoots tree r.config.sourceRoots r.config.projectRoot

/-- A class file that cannot be read or resolved comes to a failure that names it. -/
theorem processFile_eq_failed {policy : AccountingPolicy} (sources : SourceIndex)
    {failure : Failure}
    (hfails : (ClassFile.read tree p >>= fun file => file.resolve policy) = .error failure) :
    ∃ className, processFile policy tree sources p = .failed ⟨p.text, className, failure⟩ := by
  rw [processFile]
  cases hread : ClassFile.read tree p with
  | error fault =>
    rw [hread] at hfails
    obtain rfl : fault = failure := Except.error.inj hfails
    exact ⟨none, rfl⟩
  | ok file =>
    rw [hread] at hfails
    have hresolve : file.resolve policy = .error failure := hfails
    exact ⟨some file.name, by simp [hresolve]⟩

/-- Class files that are read alike, and whose source files are found alike, come to the same
results. -/
theorem ofFiles_resultOf_congr {files : List Path}
    (hreads : ∀ q ∈ files, ClassFile.read tree' q = ClassFile.read tree q)
    (hsources : ∀ q ∈ files, ∀ file, ClassFile.read tree q = .ok file →
      (r.sources tree').sourceOf file.name file.sourceFile
        = (r.sources tree).sourceOf file.name file.sourceFile) :
    FileResult.ofFiles (r.resultOf tree') (files.mapIdx fun position q => (position, q))
      = FileResult.ofFiles (r.resultOf tree) (files.mapIdx fun position q => (position, q)) := by
  rw [ofFiles_mapIdx, ofFiles_mapIdx]
  refine List.ext_getElem (by simp) fun i hi _ => ?_
  have hlt : i < files.length := by simpa using hi
  have hmem : files[i] ∈ files := List.getElem_mem hlt
  simp only [List.getElem_mapIdx, resultOf, processFile, hreads _ hmem]
  cases hread : ClassFile.read tree files[i] with
  | error _ => rfl
  | ok file =>
    have hsource := hsources _ hmem file hread
    simp only [sources] at hsource
    simp only [hsource]

/-- One more class file among those of a tree, which cannot be read or resolved, changes nothing
about the outcome of a run that collects all failures, except that it is counted and that its
failure is among the others. -/
theorem run_addsFailure {before after : List Path} {failure : Failure}
    (hpolicy : r.config.errorPolicy = .collectAll) (hrunning : r.isCancelled = false)
    (hfiles : (Discovery.ofRoots tree r.config.classRoots).files = before ++ after)
    (hfiles' : (Discovery.ofRoots tree' r.config.classRoots).files = before ++ p :: after)
    (hroots : (Discovery.ofRoots tree' r.config.classRoots).failures
      = (Discovery.ofRoots tree r.config.classRoots).failures)
    (hreads : ∀ q ∈ before ++ after, ClassFile.read tree' q = ClassFile.read tree q)
    (hsources : ∀ q ∈ before ++ after, ∀ file, ClassFile.read tree q = .ok file →
      (r.sources tree').sourceOf file.name file.sourceFile
        = (r.sources tree).sourceOf file.name file.sourceFile)
    (hfails : (ClassFile.read tree' p >>= fun file => file.resolve r.config.accounting)
      = .error failure) :
    ∃ className, Outcome.AddsFailure ⟨p.text, className, failure⟩ (r.run tree).1
      (r.run tree').1 := by
  obtain ⟨className, hresult⟩ := processFile_eq_failed (r.sources tree') hfails
  obtain ⟨front, back, hroom, hinsert⟩ :=
    FileResult.ofFiles_insert (r.resultOf tree') before after p
  rw [ofFiles_resultOf_congr hreads hsources] at hroom
  rw [show r.resultOf tree' p = .failed ⟨p.text, className, failure⟩ from hresult] at hinsert
  have hlength : (before ++ p :: after).length = (before ++ after).length + 1 := by
    simp only [List.length_append, List.length_cons]
    omega
  refine ⟨className, ?_⟩
  rw [run_collectAll tree hpolicy hrunning, run_collectAll tree' hpolicy hrunning, hfiles, hfiles',
    hroots, hinsert, hlength]
  exact Outcome.addsFailure_assemble _ _ _ _ _ hroom

/-- A reporter with one root for its class files. -/
def ofOneRoot : Reporter := { config := { classRoots := [⟨"c"⟩] } }

/-- One class file, and not much of it. -/
def oneClass : FileTree := .directory [("c", .directory [("B.class", .file [])])]

/-- The same class file, and another one before it that is no better. -/
def twoClasses : FileTree :=
  .directory [("c", .directory [("A.class", .file [0xCA]), ("B.class", .file [])])]

/-- Both of two class files are malformed. Their run is that of the second one alone, with the
failure of the first one added. -/
theorem run_addsFailure_twoClasses : ∃ className failure,
    Outcome.AddsFailure ⟨"c/A.class", className, failure⟩ (ofOneRoot.run oneClass).1
      (ofOneRoot.run twoClasses).1 := by
  have hplain : ∀ p ∈ [Path.mk "c", Path.mk "c/A.class", Path.mk "c/B.class"],
      p.text.isEmpty = false ∧ p.isTooLong = false ∧ p.isAbsolute = false := by decide +kernel
  have hfindRoot (t : FileTree) : t.find ⟨"c"⟩ = FileTree.follow ["c"] t [] :=
    FileTree.find_eq_follow (by simp) (hplain _ (by simp)) (by decide +kernel)
  have hfindA (t : FileTree) : t.find ⟨"c/A.class"⟩ = FileTree.follow ["c", "A.class"] t [] :=
    FileTree.find_eq_follow (by simp) (hplain _ (by simp)) (by decide +kernel)
  have hfindB (t : FileTree) : t.find ⟨"c/B.class"⟩ = FileTree.follow ["c", "B.class"] t [] :=
    FileTree.find_eq_follow (by simp) (hplain _ (by simp)) (by decide +kernel)
  have hfound : oneClass.findingsBelow ⟨"c"⟩ = [.file ⟨"c/B.class"⟩] ∧
      twoClasses.findingsBelow ⟨"c"⟩ = [.file ⟨"c/A.class"⟩, .file ⟨"c/B.class"⟩] := by
    have hlong : (Path.mk "c").isTooLong = false := (hplain _ List.mem_cons_self).2.1
    constructor
    · rw [FileTree.findingsBelow, hfindRoot, show FileTree.follow ["c"] oneClass []
        = .ok (.directory [("B.class", .file [])]) from rfl]
      simp only [FileTree.findingsAt, hlong, FileTree.findingsAmong]
      decide +kernel
    · rw [FileTree.findingsBelow, hfindRoot, show FileTree.follow ["c"] twoClasses []
        = .ok (.directory [("A.class", .file [0xCA]), ("B.class", .file [])]) from rfl]
      simp only [FileTree.findingsAt, hlong, FileTree.findingsAmong]
      decide +kernel
  have hparts : (Path.mk "c/A.class").parts = [.named "c", .named "A.class"] ∧
      (Path.mk "c/B.class").parts = [.named "c", .named "B.class"] := by decide +kernel
  have hclass : Discovery.isClassFile ⟨"c/A.class"⟩ = true ∧
      Discovery.isClassFile ⟨"c/B.class"⟩ = true := by decide +kernel
  have hsorted : [Path.mk "c/A.class", Path.mk "c/B.class"].mergeSort Path.notAfter
      = [Path.mk "c/A.class", Path.mk "c/B.class"] := by
    apply List.mergeSort_of_pairwise
    rw [List.pairwise_pair, Path.notAfter, Path.order, hparts.1, hparts.2]
    decide +kernel
  have hreadB : ClassFile.read twoClasses ⟨"c/B.class"⟩
      = ClassFile.read oneClass ⟨"c/B.class"⟩ := by
    simp only [ClassFile.read, FileTree.read, hfindB]
    rfl
  obtain ⟨failure, hfailure⟩ :
      ∃ failure, ClassFile.read twoClasses ⟨"c/A.class"⟩ = .error failure := by
    simp only [ClassFile.read, FileTree.read, hfindA]
    exact ⟨_, rfl⟩
  have hfiles : (Discovery.ofRoots oneClass ofOneRoot.config.classRoots).files
      = [] ++ [⟨"c/B.class"⟩] := by
    simp [Discovery.ofRoots, ofOneRoot, hfound.1, FileTree.Finding.file?, hclass.2,
      Discovery.withoutRepeats]
  have hfiles' : (Discovery.ofRoots twoClasses ofOneRoot.config.classRoots).files
      = [] ++ ⟨"c/A.class"⟩ :: [⟨"c/B.class"⟩] := by
    simp only [Discovery.ofRoots, ofOneRoot, List.flatMap_cons, List.flatMap_nil, hfound.2,
      List.append_nil, List.filterMap_cons, FileTree.Finding.file?, List.filterMap_nil,
      List.filter_cons, hclass.1, hclass.2, if_true, List.filter_nil, hsorted]
    simp [Discovery.withoutRepeats, Path.same, hparts.1, hparts.2]
  have hroots : (Discovery.ofRoots twoClasses ofOneRoot.config.classRoots).failures
      = (Discovery.ofRoots oneClass ofOneRoot.config.classRoots).failures := by
    simp [Discovery.ofRoots, ofOneRoot, hfound.1, hfound.2, FileTree.Finding.fault?]
  obtain ⟨className, hadds⟩ := run_addsFailure rfl rfl hfiles hfiles' hroots
    (by simpa using hreadB)
    (fun _ _ _ _ => SourceIndex.sourceOf_congr rfl rfl rfl
      (by simp [sources, ofOneRoot, SourceIndex.ofRoots]))
    (by rw [hfailure]; rfl)
  exact ⟨className, failure, hadds⟩

end Reporter

end LineAtlas
