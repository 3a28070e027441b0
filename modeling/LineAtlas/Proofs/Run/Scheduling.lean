import LineAtlas.Proofs.Run.Pool
import LineAtlas.Proofs.StableSort

/-!
# Scheduling

What several workers have collected is put together without a look at the order in which it
came: everything is sorted by position, and the groups of resolved files by source file. The
outcome is therefore the one of a run that reads class files one by one.
-/

namespace LineAtlas

namespace Numbered

variable {α β : Type}

/-- Values in the order of the class files are ascending in position, whatever order they came
in. -/
theorem sorted_eq_of_perm {values values' : Numbered α} (hperm : values.Perm values')
    (hpositions : (values.map Prod.fst).Nodup) : values.sorted = values'.sorted :=
  StableSort.mergeSort_eq_of_perm hperm hpositions

/-- Values with different positions are in the same order, however they are listed. -/
theorem inOrder_eq_of_perm {values values' : Numbered α} (hperm : values.Perm values')
    (hpositions : (values.map Prod.fst).Nodup) : values.inOrder = values'.inOrder := by
  rw [inOrder, inOrder, sorted_eq_of_perm hperm hpositions]

/-- Sorting drops and adds nothing. -/
theorem sorted_perm (values : Numbered α) : values.sorted.Perm values :=
  List.mergeSort_perm values _

/-- Changing values does not change their order. -/
theorem inOrder_map (f : α → β) (values : Numbered α) :
    inOrder (values.map fun entry => (entry.1, f entry.2)) = values.inOrder.map f := by
  rw [inOrder, inOrder, sorted, sorted, ← List.map_mergeSort (r := fun a b => a.1 ≤ b.1)]
  · simp
  · simp

/-- Values that come in different orders are in the same order in the end, if those in front
keep their order, and those behind them do, and the others have different positions. -/
theorem inOrder_append_congr {front values values' back : Numbered α}
    (hperm : values.Perm values') (hpositions : (values.map Prod.fst).Nodup) :
    inOrder (front ++ values ++ back) = inOrder (front ++ values' ++ back) := by
  rw [inOrder, inOrder, sorted, sorted]
  refine congrArg (List.map Prod.snd) (StableSort.mergeSort_eq_of_filter_eq fun k => ?_)
  simp only [List.filter_append]
  rw [StableSort.filter_eq_of_perm hperm hpositions]

end Numbered

namespace FileResult

variable {result : Path → FileResult}

/-- Each result is a resolved file, a class without metadata or a failure, and no two of
them. -/
theorem positions_perm (results : Numbered FileResult) :
    ((resolvedFiles results).map Prod.fst ++ ((foreignClasses results).map Prod.fst
      ++ (failures results).map Prod.fst)).Perm (results.map Prod.fst) := by
  induction results with
  | nil => exact List.Perm.refl _
  | cons first rest ih =>
    obtain ⟨position, outcome⟩ := first
    cases outcome with
    | resolved file => exact ih.cons position
    | foreign name => exact (List.perm_middle).trans (ih.cons position)
    | failed failure =>
      have hmiddle : ((resolvedFiles rest).map Prod.fst ++ ((foreignClasses rest).map Prod.fst
          ++ position :: (failures rest).map Prod.fst)).Perm
            (position :: ((resolvedFiles rest).map Prod.fst
              ++ ((foreignClasses rest).map Prod.fst ++ (failures rest).map Prod.fst))) := by
        rw [← List.append_assoc, ← List.append_assoc]
        exact List.perm_middle
      exact hmiddle.trans (ih.cons position)

/-- Results have the positions of their class files. -/
theorem map_fst_ofFiles (result : Path → FileResult) (files : Numbered Path) :
    (ofFiles result files).map Prod.fst = files.map Prod.fst := by
  simp [ofFiles, Function.comp_def]

/-- The results are numbered as the class files are. -/
theorem map_fst_ofFiles_mapIdx (result : Path → FileResult) (files : List Path) :
    (ofFiles result (files.mapIdx fun position p => (position, p))).map Prod.fst
      = List.range files.length := by
  rw [map_fst_ofFiles]
  exact List.ext_getElem (by simp) fun i hi hi' => by simp

end FileResult

namespace BySource

/-- The groups of all source files in ascending order, each in the order of the class files. -/
def groups (listing : BySource) : List SourceGroup :=
  (listing.mergeSort fun a b => a.1 ≤ b.1).map fun group => ⟨group.1, group.2.sorted⟩

/-- The files of a source file are those of its group. -/
theorem Grouped.filter_files {b : BySource} (h : b.Grouped) {source : String}
    {entries : Numbered ResolvedFile} (hgroup : (source, entries) ∈ b) :
    b.files.filter (·.2.source == source) = entries := by
  induction b with
  | nil => exact absurd hgroup List.not_mem_nil
  | cons first rest ih =>
    obtain ⟨other, others⟩ := first
    have hnodup := List.nodup_cons.mp h.nodup
    have hrest : Grouped rest :=
      ⟨hnodup.2, fun group hmem => h.nonempty group (List.mem_cons_of_mem _ hmem),
        fun group hmem => h.source group (List.mem_cons_of_mem _ hmem)⟩
    rw [files, List.flatMap_cons, List.filter_append]
    rcases List.mem_cons.mp hgroup with heq | hmem
    · obtain ⟨rfl, rfl⟩ := Prod.mk.inj heq
      have hfirst : entries.filter (·.2.source == source) = entries := by
        rw [List.filter_eq_self]
        intro entry hentry
        simpa using h.source _ List.mem_cons_self entry hentry
      have hothers : (List.flatMap Prod.snd rest).filter (·.2.source == source) = [] := by
        rw [List.filter_eq_nil_iff]
        intro entry hentry hsource
        obtain ⟨group, hmem, hentry⟩ := List.mem_flatMap.mp hentry
        have heq := hrest.source group hmem entry hentry
        rw [beq_iff_eq] at hsource
        exact hnodup.1 (List.mem_map.mpr ⟨group, hmem, heq.symm.trans hsource⟩)
      rw [hfirst, hothers, List.append_nil]
    · have hne : other ≠ source := by
        rintro rfl
        exact hnodup.1 (List.mem_map.mpr ⟨_, hmem, rfl⟩)
      have hfirst : others.filter (·.2.source == source) = [] := by
        rw [List.filter_eq_nil_iff]
        intro entry hentry hsource
        have heq := h.source _ List.mem_cons_self entry hentry
        rw [beq_iff_eq] at hsource
        exact hne (heq.symm.trans hsource)
      rw [hfirst, List.nil_append]
      exact ih hrest hmem

/-- There is a group for a source file exactly if there is a file of it. -/
theorem Grouped.mem_map_fst {b : BySource} (h : b.Grouped) (source : String) :
    source ∈ b.map Prod.fst ↔ source ∈ b.files.map (·.2.source) := by
  constructor
  · intro hmem
    obtain ⟨group, hgroup, rfl⟩ := List.mem_map.mp hmem
    obtain ⟨entry, rest, hcons⟩ := List.exists_cons_of_ne_nil (h.nonempty group hgroup)
    have hentry : entry ∈ group.2 := by
      rw [hcons]
      exact List.mem_cons_self
    exact List.mem_map.mpr ⟨entry, List.mem_flatMap.mpr ⟨group, hgroup, hentry⟩,
      h.source group hgroup entry hentry⟩
  · intro hmem
    obtain ⟨entry, hentry, rfl⟩ := List.mem_map.mp hmem
    obtain ⟨group, hgroup, hentry⟩ := List.mem_flatMap.mp hentry
    exact List.mem_map.mpr ⟨group, hgroup, (h.source group hgroup entry hentry).symm⟩

/-- Source files in ascending order are the same whatever order they came in. -/
theorem mergeSort_eq_of_nodup {sources sources' : List String} (hsources : sources.Nodup)
    (hsources' : sources'.Nodup) (hmem : ∀ source, source ∈ sources ↔ source ∈ sources') :
    (sources.mergeSort fun a b => a ≤ b) = sources'.mergeSort fun a b => a ≤ b := by
  have hperm : sources.Perm sources' := (List.perm_ext_iff_of_nodup hsources hsources').mpr hmem
  have hascending (l : List String) : (l.mergeSort fun a b => a ≤ b).Pairwise
      fun a b => decide (a ≤ b) = true := List.pairwise_mergeSort
    (fun a b c hab hbc => by
      rw [decide_eq_true_eq] at hab hbc ⊢
      exact String.le_trans hab hbc)
    (fun a b => by
      rw [Bool.or_eq_true, decide_eq_true_eq, decide_eq_true_eq]
      exact String.le_total a b) l
  refine List.Perm.eq_of_pairwise (fun a b _ _ hab hba => ?_) (hascending sources)
    (hascending sources') ?_
  · exact String.le_antisymm (of_decide_eq_true hab) (of_decide_eq_true hba)
  · exact (List.mergeSort_perm _ _).trans (hperm.trans (List.mergeSort_perm _ _).symm)

/-- Groups that were filled in any order, and are listed in any order, are those of the resolved
files in the order of the class files. -/
theorem groups_eq_ofFiles {b listing : BySource} {files : Numbered ResolvedFile}
    (hgrouped : b.Grouped) (hfiles : b.files.Perm files)
    (hpositions : (files.map Prod.fst).Nodup) (hlisting : listing.Perm b) :
    listing.groups = SourceGroup.ofFiles files := by
  have hsources : (listing.mergeSort fun a b => a.1 ≤ b.1).map Prod.fst
      = ((files.map (·.2.source)).eraseDups).mergeSort fun a b => a ≤ b := by
    rw [List.map_mergeSort (s := fun a b => a ≤ b) (by simp)]
    apply mergeSort_eq_of_nodup
    · exact (hlisting.map Prod.fst).nodup_iff.mpr hgrouped.nodup
    · exact Lists.nodup_eraseDups _
    · intro source
      rw [(hlisting.map Prod.fst).mem_iff, hgrouped.mem_map_fst, List.mem_eraseDups,
        (hfiles.map fun entry => entry.2.source).mem_iff]
  rw [SourceGroup.ofFiles, ← hsources, List.map_map, groups]
  apply List.map_congr_left
  intro group hgroup
  have hmem : group ∈ b := by
    rw [← hlisting.mem_iff]
    exact (List.mergeSort_perm listing _).mem_iff.mp hgroup
  have hfilter := hfiles.filter (·.2.source == group.1)
  rw [hgrouped.filter_files hmem] at hfilter
  have hsorted := Numbered.sorted_eq_of_perm hfilter.symm
    ((List.filter_sublist.map Prod.fst).nodup hpositions)
  exact congrArg (SourceGroup.mk group.1) hsorted.symm

/-- The groups have together all files, in any listing. -/
theorem groups_files_perm (listing : BySource) :
    (listing.groups.flatMap SourceGroup.files).Perm listing.files := by
  rw [groups, List.flatMap_map]
  have hsorted : ∀ sorted : BySource,
      (sorted.flatMap fun group => Numbered.sorted group.2).Perm sorted.files := by
    intro sorted
    induction sorted with
    | nil => exact List.Perm.refl _
    | cons group rest ih => exact (Numbered.sorted_perm group.2).append ih
  exact (hsorted _).trans ((List.mergeSort_perm listing _).flatMap_right Prod.snd)

end BySource

/-- The outcome of what workers have collected. A listing of the resolved files names their
source files in any order. -/
def Shared.assemble (s : Shared) (policy : AccountingPolicy) (classFiles : Nat)
    (listing : BySource) : Outcome :=
  let groups := listing.groups
  let ledgers := Numbered.inOrder (groups.flatMap fun g =>
    g.files.map fun entry => (entry.1, entry.2.resolution.ledger))
  { report := ⟨groups.map fun g => (g.compose policy).tree.fileEntry⟩
    failures := Numbered.inOrder (s.failures ++ groups.flatMap (SourceGroup.failures policy))
    foreignClasses := Numbered.inOrder s.foreign
    ledgers
    stats := {
      classFiles
      resolvedClasses := s.resolved
      foreignClasses := s.foreign.length
      sourceFiles := groups.length
      methods := (ledgers.map Ledger.size).foldr (· + ·) 0
      methodsWithRole := fun role => (ledgers.map (·.count role)).foldr (· + ·) 0 }
    isCancelled := s.isCancelled }

namespace Pool

variable {result : Path → FileResult} {rootFailures : List ClassFailure} {p : Pool}

/-- A finished pool that kept track has collected everything that comes out of its class files. -/
theorem Tracks.collected {files : Numbered Path} (h : p.Tracks result rootFailures files)
    (hworkers : p.workers ≠ []) (hfinished : p.IsFinished) :
    (FileResult.resolvedFiles (FileResult.ofFiles result files)).Perm p.shared.bySource.files ∧
    (FileResult.foreignClasses (FileResult.ofFiles result files)).Perm p.shared.foreign ∧
    (∃ noted, p.shared.failures = rootFailures.map (fun failure => (0, failure)) ++ noted ∧
      (FileResult.failures (FileResult.ofFiles result files)).Perm noted) ∧
    p.shared.resolved = p.shared.bySource.files.length := by
  have hpending := h.pending_eq_nil hworkers hfinished
  have hinHands := hfinished.inHands_eq_nil
  have hresolved := h.resolved
  have hforeign := h.foreign
  have hcount := h.count
  obtain ⟨noted, hfailures, hnoted⟩ := h.failures
  rw [hpending, hinHands] at hresolved
  rw [hpending] at hforeign hnoted
  rw [hinHands, List.length_nil, Nat.zero_add] at hcount
  exact ⟨hresolved, hforeign, ⟨noted, hfailures, hnoted⟩, hcount⟩

/-- A finished pool that kept track has collected the outcome of its class files, however it
lists their source files. -/
theorem Tracks.assemble_eq {files : Numbered Path} (h : p.Tracks result rootFailures files)
    (hpositions : (files.map Prod.fst).Nodup) (hworkers : p.workers ≠ [])
    (hfinished : p.IsFinished) (policy : AccountingPolicy) (classFiles : Nat)
    {listing : BySource} (hlisting : listing.Perm p.shared.bySource) :
    p.shared.assemble policy classFiles listing
      = .assemble policy classFiles rootFailures (FileResult.ofFiles result files) false := by
  obtain ⟨hresolved, hforeign, ⟨noted, hfailures, hnoted⟩, hcount⟩ :=
    h.collected hworkers hfinished
  have hall : ((FileResult.ofFiles result files).map Prod.fst).Nodup := by
    rw [FileResult.map_fst_ofFiles]
    exact hpositions
  have hnodup := (FileResult.positions_perm (FileResult.ofFiles result files)).nodup_iff.mpr hall
  have hnodupFiles := (List.nodup_append.mp hnodup).1
  have hnodupRest := (List.nodup_append.mp hnodup).2.1
  have hnodupForeign := (List.nodup_append.mp hnodupRest).1
  have hnodupFailures := (List.nodup_append.mp hnodupRest).2.1
  have hgroups : listing.groups
      = SourceGroup.ofFiles (FileResult.resolvedFiles (FileResult.ofFiles result files)) :=
    BySource.groups_eq_ofFiles h.grouped hresolved.symm hnodupFiles hlisting
  have hledgers : Numbered.inOrder (listing.groups.flatMap fun g =>
        g.files.map fun entry => (entry.1, entry.2.resolution.ledger))
      = (Numbered.inOrder (FileResult.resolvedFiles (FileResult.ofFiles result files))).map
        (·.resolution.ledger) := by
    have hfiles : (listing.groups.flatMap SourceGroup.files).Perm
        (FileResult.resolvedFiles (FileResult.ofFiles result files)) :=
      (BySource.groups_files_perm listing).trans
        ((hlisting.flatMap_right Prod.snd).trans hresolved.symm)
    rw [← Numbered.inOrder_map, ← List.map_flatMap]
    refine Numbered.inOrder_eq_of_perm (hfiles.map _) ?_
    rw [List.map_map]
    exact (hfiles.map Prod.fst).nodup_iff.mpr hnodupFiles
  have hnames : Numbered.inOrder p.shared.foreign
      = Numbered.inOrder (FileResult.foreignClasses (FileResult.ofFiles result files)) :=
    (Numbered.inOrder_eq_of_perm hforeign hnodupForeign).symm
  have hlength : p.shared.resolved
      = (FileResult.resolvedFiles (FileResult.ofFiles result files)).length := by
    rw [hcount, hresolved.length_eq]
  have horder : Numbered.inOrder (p.shared.failures
        ++ listing.groups.flatMap (SourceGroup.failures policy))
      = Numbered.inOrder (rootFailures.map (fun failure => (0, failure))
        ++ FileResult.failures (FileResult.ofFiles result files)
        ++ listing.groups.flatMap (SourceGroup.failures policy)) := by
    rw [hfailures]
    exact (Numbered.inOrder_append_congr hnoted hnodupFailures).symm
  have hcancelled : p.shared.isCancelled = false := h.running
  rw [hgroups] at hledgers horder
  simp only [Shared.assemble, Outcome.assemble, hgroups, hledgers, hnames, hlength, horder,
    hforeign.length_eq, hcancelled]

end Pool

namespace Reporter

/-- What comes out of a class file when a reporter runs on the files of a tree. -/
def resultOf (r : Reporter) (tree : FileTree) : Path → FileResult :=
  processFile r.config.accounting tree
    (SourceIndex.ofRoots tree r.config.sourceRoots r.config.projectRoot)

/-- The workers of a reporter at the beginning of a run. -/
def pool (r : Reporter) (tree : FileTree) (workers : Nat) : Pool :=
  let discovery := Discovery.ofRoots tree r.config.classRoots
  .start r.config.errorPolicy r.isCancelled discovery.failures discovery.files workers

/-- Under the policy that collects all failures no result ends a run. -/
theorem takeResults_collectAll (results : Numbered FileResult) :
    takeResults .collectAll results = (results, false) := by
  induction results with
  | nil => rfl
  | cons first rest ih =>
    have hends : ends .collectAll first.2 = false := by
      cases hfirst : first.2 <;> rfl
    rw [takeResults, if_neg (by simp [hends]), ih]

/-- Each class file has its result at its position. -/
theorem ofFiles_mapIdx (result : Path → FileResult) (files : List Path) :
    FileResult.ofFiles result (files.mapIdx fun position p => (position, p))
      = files.mapIdx fun position p => (position, result p) := by
  rw [FileResult.ofFiles]
  exact List.ext_getElem (by simp) fun i hi hi' => by simp

/-- The outcome of a run under the policy that collects all failures. -/
theorem run_collectAll {r : Reporter} (tree : FileTree)
    (hpolicy : r.config.errorPolicy = .collectAll) (hrunning : r.isCancelled = false) :
    (r.run tree).1 = .assemble r.config.accounting
      (Discovery.ofRoots tree r.config.classRoots).files.length
      (Discovery.ofRoots tree r.config.classRoots).failures
      (FileResult.ofFiles (r.resultOf tree)
        ((Discovery.ofRoots tree r.config.classRoots).files.mapIdx fun position p =>
          (position, p))) false := by
  simp only [run, hpolicy, hrunning, takeResults_collectAll, ofFiles_mapIdx, resultOf]
  rfl

/-- Whatever the workers do in whatever order, they can get to their end, and what they have
collected then is the outcome of reading class files one by one, in whatever order the source
files are listed. Every class file is in exactly one of the three collections. -/
theorem assemble_eq_run {r : Reporter} {tree : FileTree} {workers : Nat} {p : Pool}
    (hpolicy : r.config.errorPolicy = .collectAll) (hrunning : r.isCancelled = false)
    (hworkers : 0 < workers)
    (hreaches : Pool.Reaches .collectAll (r.resultOf tree) (r.pool tree workers) p) :
    (∃ p', Pool.Reaches .collectAll (r.resultOf tree) p p' ∧ p'.IsFinished) ∧
    (p.IsFinished → ∃ noted : Numbered ClassFailure,
      p.shared.failures = (Discovery.ofRoots tree r.config.classRoots).failures.map
        (fun failure => (0, failure)) ++ noted ∧
      (p.shared.bySource.files.map Prod.fst ++ (p.shared.foreign.map Prod.fst
        ++ noted.map Prod.fst)).Perm
          (List.range (Discovery.ofRoots tree r.config.classRoots).files.length) ∧
      (r.run tree).1.stats.classFiles = (r.run tree).1.stats.resolvedClasses
        + (r.run tree).1.stats.foreignClasses + noted.length ∧
      ∀ listing : BySource, listing.Perm p.shared.bySource →
        p.shared.assemble r.config.accounting
          (Discovery.ofRoots tree r.config.classRoots).files.length listing
            = (r.run tree).1) := by
  refine ⟨Pool.exists_reaches_isFinished _ _ p, fun hfinished => ?_⟩
  have htracks : p.Tracks (r.resultOf tree)
      (Discovery.ofRoots tree r.config.classRoots).failures
      ((Discovery.ofRoots tree r.config.classRoots).files.mapIdx fun position p =>
        (position, p)) := by
    refine Pool.Tracks.reaches ?_ hreaches
    rw [pool, hpolicy, hrunning]
    exact Pool.tracks_start _ _ workers
  have hworking : p.workers ≠ [] := by
    have hlength := hreaches.length_workers
    have hstart : (r.pool tree workers).workers.length = workers := List.length_replicate
    intro hnone
    rw [hnone, List.length_nil] at hlength
    omega
  have hpositions : (((Discovery.ofRoots tree r.config.classRoots).files.mapIdx
      fun position p => (position, p)).map Prod.fst).Nodup := by
    rw [← FileResult.map_fst_ofFiles (r.resultOf tree), FileResult.map_fst_ofFiles_mapIdx]
    exact List.nodup_range
  obtain ⟨hresolved, hforeign, ⟨noted, hfailures, hnoted⟩, hcount⟩ :=
    htracks.collected hworking hfinished
  have hcollected : (p.shared.bySource.files.map Prod.fst ++ (p.shared.foreign.map Prod.fst
      ++ noted.map Prod.fst)).Perm
        (List.range (Discovery.ofRoots tree r.config.classRoots).files.length) := by
    rw [← FileResult.map_fst_ofFiles_mapIdx (r.resultOf tree)]
    refine List.Perm.trans ?_ (FileResult.positions_perm _)
    exact (hresolved.symm.map _).append ((hforeign.symm.map _).append (hnoted.symm.map _))
  refine ⟨noted, hfailures, hcollected, ?_, fun listing hlisting => ?_⟩
  · have hlength := hcollected.length_eq
    simp only [List.length_append, List.length_map, List.length_range] at hlength
    rw [run_collectAll tree hpolicy hrunning]
    simp only [Outcome.assemble, hresolved.length_eq, hforeign.length_eq]
    omega
  · rw [run_collectAll tree hpolicy hrunning]
    exact htracks.assemble_eq hpositions hworking hfinished _ _ hlisting

/-- A reporter with one root for its class files and another one that is missing. -/
def ofMissingRoot : Reporter := { config := { classRoots := [⟨"classes"⟩, ⟨"gone"⟩] } }

/-- Two class files that end before their time. Their failures meet that of the missing root. -/
def truncatedClasses : FileTree :=
  .directory [("classes", .directory [("A.class", .file []), ("B.class", .file [0xCA, 0xFE])])]

/-- Three workers process two truncated class files next to a root that is missing, and come to what
the run in order does. -/
theorem assemble_eq_run_ofMissingRoot : 0 < 3 ∧ ∃ p,
    Pool.Reaches .collectAll (ofMissingRoot.resultOf truncatedClasses)
      (ofMissingRoot.pool truncatedClasses 3) p ∧ p.IsFinished ∧
    p.shared.assemble ofMissingRoot.config.accounting
      (Discovery.ofRoots truncatedClasses ofMissingRoot.config.classRoots).files.length
      p.shared.bySource = (ofMissingRoot.run truncatedClasses).1 := by
  have hstart : Pool.Reaches .collectAll (ofMissingRoot.resultOf truncatedClasses)
      (ofMissingRoot.pool truncatedClasses 3) (ofMissingRoot.pool truncatedClasses 3) := .refl
  obtain ⟨p, hreaches, hfinished⟩ :=
    (assemble_eq_run rfl rfl (by decide : 0 < 3) hstart).1
  obtain ⟨noted, -, -, -, hassemble⟩ :=
    (assemble_eq_run rfl rfl (by decide : 0 < 3) hreaches).2 hfinished
  exact ⟨by decide, p, hreaches, hfinished, hassemble _ (List.Perm.refl _)⟩

end Reporter

end LineAtlas
