import LineAtlas.Proofs.Lists
import LineAtlas.Run.Reporter

/-!
# Workers that share a run

Several workers take class files from one queue and put what comes out of them into three
collections. Every step of a worker is atomic, and the workers take turns in any order. What
is in the queue, in the hands of workers and in the collections is always all of the run.
-/

namespace LineAtlas

/-- Resolved files by their source files, in the order in which they were put there. -/
abbrev BySource := List (String × Numbered ResolvedFile)

namespace BySource

/-- Puts a resolved file to those of its source file. -/
def insert (source : String) (entry : Nat × ResolvedFile) : BySource → BySource
  | [] => [(source, [entry])]
  | (other, entries) :: rest =>
    if other = source then (other, entries ++ [entry]) :: rest
    else (other, entries) :: insert source entry rest

/-- All files, of whatever source file. -/
def files (b : BySource) : Numbered ResolvedFile := b.flatMap Prod.snd

/-- Filing an entry adds it to the files. -/
theorem files_insert (source : String) (entry : Nat × ResolvedFile) (b : BySource) :
    (files (insert source entry b)).Perm (entry :: files b) := by
  induction b with
  | nil => exact List.Perm.refl _
  | cons group rest ih =>
    obtain ⟨other, entries⟩ := group
    by_cases hother : other = source
    · simp only [insert, hother, if_true, files, List.flatMap_cons, List.append_assoc]
      exact List.perm_middle
    · simp only [insert, hother, if_false, files, List.flatMap_cons]
      exact (ih.append_left entries).trans List.perm_middle

/-- Every source file has one group, which is not empty and has only files of it. -/
structure Grouped (b : BySource) : Prop where
  /-- Every source file has one group. -/
  nodup : (b.map Prod.fst).Nodup
  /-- No group is empty. -/
  nonempty : ∀ group ∈ b, group.2 ≠ []
  /-- A group has only files of its source file. -/
  source : ∀ group ∈ b, ∀ entry ∈ group.2, entry.2.source = group.1

/-- Filing an entry adds its source file at the end, if it is new. -/
theorem map_fst_insert (source : String) (entry : Nat × ResolvedFile) (b : BySource) :
    (insert source entry b).map Prod.fst
      = if source ∈ b.map Prod.fst then b.map Prod.fst else b.map Prod.fst ++ [source] := by
  induction b with
  | nil => simp [insert]
  | cons group rest ih =>
    obtain ⟨other, entries⟩ := group
    by_cases hother : other = source
    · simp [insert, hother]
    · have hne : source ≠ other := fun h => hother h.symm
      by_cases hmem : source ∈ rest.map Prod.fst
      · rw [if_pos hmem] at ih
        simp [insert, hother, ih, hmem]
      · rw [if_neg hmem] at ih
        rw [if_neg (by simp [hne, hmem])]
        simp [insert, hother, ih]

/-- Filing an entry changes only the group of its source file, at its end. -/
theorem mem_insert {source : String} {entry : Nat × ResolvedFile} {b : BySource}
    {group : String × Numbered ResolvedFile} (hgroup : group ∈ insert source entry b) :
    group ∈ b ∨ group.1 = source ∧ ∃ entries, group.2 = entries ++ [entry] ∧
      (entries = [] ∨ (source, entries) ∈ b) := by
  induction b with
  | nil =>
    rw [insert, List.mem_singleton] at hgroup
    subst hgroup
    exact Or.inr ⟨rfl, [], rfl, Or.inl rfl⟩
  | cons first rest ih =>
    obtain ⟨other, entries⟩ := first
    by_cases hother : other = source
    · rw [insert, if_pos hother, List.mem_cons] at hgroup
      rcases hgroup with rfl | hgroup
      · exact Or.inr ⟨hother, entries, rfl, Or.inr (by simp [hother])⟩
      · exact Or.inl (List.mem_cons_of_mem _ hgroup)
    · rw [insert, if_neg hother, List.mem_cons] at hgroup
      rcases hgroup with rfl | hgroup
      · exact Or.inl List.mem_cons_self
      · rcases ih hgroup with hrest | ⟨hsource, before, hbefore, hmem⟩
        · exact Or.inl (List.mem_cons_of_mem _ hrest)
        · exact Or.inr ⟨hsource, before, hbefore, hmem.imp_right (List.mem_cons_of_mem _)⟩

/-- Filing an entry under its source file keeps files grouped. -/
theorem Grouped.insert {b : BySource} (h : b.Grouped) {source : String}
    {entry : Nat × ResolvedFile} (hentry : entry.2.source = source) :
    (b.insert source entry).Grouped := by
  constructor
  · rw [map_fst_insert]
    split
    · exact h.nodup
    · next hmem => exact List.nodup_append.mpr ⟨h.nodup, List.nodup_singleton _, by grind⟩
  · intro group hgroup
    rcases mem_insert hgroup with hold | ⟨-, entries, hentries, -⟩
    · exact h.nonempty group hold
    · simp [hentries]
  · intro group hgroup other hother
    rcases mem_insert hgroup with hold | ⟨hsource, entries, hentries, hmem⟩
    · exact h.source group hold other hother
    · rw [hentries, List.mem_append, List.mem_singleton] at hother
      rcases hother with hother | rfl
      · rcases hmem with rfl | hmem
        · simp at hother
        · rw [hsource]
          exact h.source _ hmem other hother
      · rw [hentry, hsource]

end BySource

/-- What a worker is at. -/
inductive Worker where
  /-- About to see whether the run was cancelled. -/
  | ready
  /-- About to take a class file. -/
  | taking
  /-- Reading and resolving a class file. -/
  | reading (position : Nat) (p : Path)
  /-- Has noted a failure, and has yet to see whether that ends the run. -/
  | reporting
  /-- Has counted a resolved file, and has yet to put it to those of its source file. -/
  | storing (position : Nat) (file : ResolvedFile)
  /-- At its end. -/
  | stopped

/-- The class file that a worker reads. -/
def Worker.reading? : Worker → Option (Nat × Path)
  | .reading position p => some (position, p)
  | _ => none

/-- The resolved file that a worker has counted and not yet stored. -/
def Worker.storing? : Worker → Option (Nat × ResolvedFile)
  | .storing position file => some (position, file)
  | _ => none

/-- What workers share. -/
structure Shared where
  /-- Class files that nobody has taken yet, with their positions. -/
  queue : Numbered Path
  /-- Resolved files. -/
  bySource : BySource := []
  /-- Failures. -/
  failures : Numbered ClassFailure := []
  /-- Names of classes without metadata. -/
  foreign : Numbered String := []
  /-- The number of resolved files. -/
  resolved : Nat := 0
  /-- Whether the run was cancelled. -/
  isCancelled : Bool := false

/-- What a worker does next, given what comes out of class files. A class file may be taken
from anywhere in the queue, and taking one may have to be tried again. -/
inductive Worker.Step (policy : ErrorPolicy) (result : Path → FileResult) :
    Shared → Worker → Shared → Worker → Prop where
  /-- As long as the run is not cancelled, the worker goes on. -/
  | goOn {s : Shared} (h : s.isCancelled = false) : Step policy result s .ready s .taking
  /-- When the run is cancelled, the worker stops. -/
  | cancelled {s : Shared} (h : s.isCancelled = true) : Step policy result s .ready s .stopped
  /-- The worker gets nothing from a queue that others use, and tries again. -/
  | retry {s : Shared} : Step policy result s .taking s .ready
  /-- When the queue is empty, the worker stops. -/
  | empty {s : Shared} (h : s.queue = []) : Step policy result s .taking s .stopped
  /-- The worker takes any class file of the queue. -/
  | take {s : Shared} {before after : Numbered Path} {position : Nat} {p : Path}
      (h : s.queue = before ++ (position, p) :: after) :
      Step policy result s .taking { s with queue := before ++ after } (.reading position p)
  /-- A class file that fails is noted among the failures. -/
  | fail {s : Shared} {position : Nat} {p : Path} {failure : ClassFailure}
      (h : result p = .failed failure) :
      Step policy result s (.reading position p)
        { s with failures := s.failures ++ [(position, failure)] } .reporting
  /-- Under the policy that collects failures, the worker goes on after one. -/
  | collect {s : Shared} (h : policy = .collectAll) :
      Step policy result s .reporting s .ready
  /-- Under the policy that ends a run at a failure, the worker cancels the run. -/
  | failFast {s : Shared} (h : policy = .failFast) :
      Step policy result s .reporting { s with isCancelled := true } .ready
  /-- A class file of another origin is noted among the foreign classes. -/
  | skip {s : Shared} {position : Nat} {p : Path} {name : String}
      (h : result p = .foreign name) :
      Step policy result s (.reading position p)
        { s with foreign := s.foreign ++ [(position, name)] } .ready
  /-- A class file that is resolved is counted. -/
  | count {s : Shared} {position : Nat} {p : Path} {file : ResolvedFile}
      (h : result p = .resolved file) :
      Step policy result s (.reading position p)
        { s with resolved := s.resolved + 1 } (.storing position file)
  /-- What was resolved is filed under its source file. -/
  | store {s : Shared} {position : Nat} {file : ResolvedFile} :
      Step policy result s (.storing position file)
        { s with bySource := s.bySource.insert file.source (position, file) } .ready

/-- Workers and what they share. -/
structure Pool where
  /-- What they share. -/
  shared : Shared
  /-- The workers. -/
  workers : List Worker

namespace Pool

/-- One worker, any of them, makes a step. -/
inductive Step (policy : ErrorPolicy) (result : Path → FileResult) : Pool → Pool → Prop where
  /-- One of the workers takes a step. -/
  | worker {s s' : Shared} {w w' : Worker} {before after : List Worker}
      (h : Worker.Step policy result s w s' w') :
      Step policy result ⟨s, before ++ w :: after⟩ ⟨s', before ++ w' :: after⟩

/-- A pool follows from another one by any number of steps. -/
def Reaches (policy : ErrorPolicy) (result : Path → FileResult) : Pool → Pool → Prop :=
  Relation.ReflTransGen (Step policy result)

/-- A number of workers at the beginning of a run on some class files, of which some roots
have failed already. -/
def start (policy : ErrorPolicy) (isCancelled : Bool) (rootFailures : List ClassFailure)
    (files : List Path) (workers : Nat) : Pool :=
  { shared := {
      queue := files.mapIdx fun position p => (position, p)
      failures := rootFailures.map fun failure => (0, failure)
      isCancelled := isCancelled || (policy == .failFast && !rootFailures.isEmpty) }
    workers := List.replicate workers .ready }

/-- Whether all workers are at their end. -/
def IsFinished (p : Pool) : Prop := ∀ w ∈ p.workers, w = .stopped

/-- The class files that nobody has finished reading. -/
def pending (p : Pool) : Numbered Path := p.shared.queue ++ p.workers.filterMap Worker.reading?

/-- The resolved files that are counted but not yet stored. -/
def inHands (p : Pool) : Numbered ResolvedFile := p.workers.filterMap Worker.storing?

end Pool

/-- What comes out of class files, by position. -/
def FileResult.ofFiles (result : Path → FileResult) (files : Numbered Path) :
    Numbered FileResult :=
  files.map fun entry => (entry.1, result entry.2)

/-- A pool that is on its way through some class files under the policy that collects all
failures: whatever comes out of them is still to come, in the hands of workers, or in one of the
three collections. -/
structure Pool.Tracks (result : Path → FileResult) (rootFailures : List ClassFailure)
    (files : Numbered Path) (p : Pool) : Prop where
  /-- Resolved files are still to come, or counted, or stored. -/
  resolved : (FileResult.resolvedFiles (FileResult.ofFiles result files)).Perm
    (FileResult.resolvedFiles (FileResult.ofFiles result p.pending)
      ++ (p.inHands ++ p.shared.bySource.files))
  /-- Failures are still to come, or noted behind those of the roots. -/
  failures : ∃ noted, p.shared.failures = rootFailures.map (fun failure => (0, failure)) ++ noted ∧
    (FileResult.failures (FileResult.ofFiles result files)).Perm
      (FileResult.failures (FileResult.ofFiles result p.pending) ++ noted)
  /-- Classes without metadata are still to come, or noted. -/
  foreign : (FileResult.foreignClasses (FileResult.ofFiles result files)).Perm
    (FileResult.foreignClasses (FileResult.ofFiles result p.pending) ++ p.shared.foreign)
  /-- The number of resolved files is that of those counted and those stored. -/
  count : p.shared.resolved = p.inHands.length + p.shared.bySource.files.length
  /-- Every source file has one group of its own files. -/
  grouped : p.shared.bySource.Grouped
  /-- Nobody cancelled the run. -/
  running : p.shared.isCancelled = false
  /-- A worker stops only when the queue is empty. -/
  stopped : .stopped ∈ p.workers → p.shared.queue = []

namespace FileResult

variable {result : Path → FileResult}

/-- Class files are processed part by part. -/
@[simp]
theorem ofFiles_append (one two : Numbered Path) :
    ofFiles result (one ++ two) = ofFiles result one ++ ofFiles result two := by
  simp [ofFiles]

/-- Class files in another order have the same results in another order. -/
theorem ofFiles_perm {one two : Numbered Path} (h : one.Perm two) :
    (ofFiles result one).Perm (ofFiles result two) := h.map _

/-- The resolved files come from all parts of the results. -/
@[simp]
theorem resolvedFiles_append (one two : Numbered FileResult) :
    resolvedFiles (one ++ two) = resolvedFiles one ++ resolvedFiles two := by
  simp [resolvedFiles]

/-- The failures come from all parts of the results. -/
@[simp]
theorem failures_append (one two : Numbered FileResult) :
    failures (one ++ two) = failures one ++ failures two := by
  simp [failures]

/-- The foreign classes come from all parts of the results. -/
@[simp]
theorem foreignClasses_append (one two : Numbered FileResult) :
    foreignClasses (one ++ two) = foreignClasses one ++ foreignClasses two := by
  simp [foreignClasses]

end FileResult

namespace Pool

section Tracking

variable {result : Path → FileResult} {rootFailures : List ClassFailure} {files : Numbered Path}
  {s : Shared} {before after : List Worker}

/-- A worker that reads a class file has one of those that nobody has finished. -/
theorem pending_reading (position : Nat) (p : Path) {w : Worker} (hw : w.reading? = none) :
    (pending ⟨s, before ++ .reading position p :: after⟩).Perm
      ((position, p) :: pending ⟨s, before ++ w :: after⟩) := by
  have hreading : Worker.reading? (.reading position p) = some (position, p) := rfl
  rw [pending, pending, List.filterMap_append, List.filterMap_append,
    List.filterMap_cons_some hreading, List.filterMap_cons_none hw, ← List.append_assoc,
    ← List.append_assoc]
  exact List.perm_middle

/-- What nobody has finished depends on the queue and the workers only. -/
theorem pending_eq_of_queue {s' : Shared} {workers : List Worker} (hqueue : s'.queue = s.queue) :
    pending ⟨s', workers⟩ = pending ⟨s, workers⟩ := by
  rw [pending, pending, hqueue]

/-- A class file that a worker takes from the queue is not finished yet. -/
theorem pending_take {front back : Numbered Path} {position : Nat} {p : Path}
    (hqueue : s.queue = front ++ (position, p) :: back) :
    (pending ⟨s, before ++ .taking :: after⟩).Perm
      (pending ⟨{ s with queue := front ++ back }, before ++ .reading position p :: after⟩) := by
  refine List.Perm.trans ?_ (pending_reading position p (w := .taking) rfl).symm
  simp only [pending, hqueue, List.append_assoc]
  exact List.perm_middle

/-- A worker that has counted a resolved file has one of those that are not yet stored. -/
theorem inHands_storing (position : Nat) (file : ResolvedFile) {w : Worker}
    (hw : w.storing? = none) :
    (inHands ⟨s, before ++ .storing position file :: after⟩).Perm
      ((position, file) :: inHands ⟨s, before ++ w :: after⟩) := by
  have hstoring : Worker.storing? (.storing position file) = some (position, file) := rfl
  rw [inHands, inHands, List.filterMap_append, List.filterMap_append,
    List.filterMap_cons_some hstoring, List.filterMap_cons_none hw]
  exact List.perm_middle

/-- What comes out of the class file that a worker reads is among what is still to come. -/
theorem results_reading (result : Path → FileResult) (position : Nat) (p : Path)
    {s' : Shared} {w : Worker} (hw : w.reading? = none) (hqueue : s'.queue = s.queue) :
    (FileResult.ofFiles result (pending ⟨s, before ++ .reading position p :: after⟩)).Perm
      ((position, result p) ::
        FileResult.ofFiles result (pending ⟨s', before ++ w :: after⟩)) := by
  rw [pending_eq_of_queue hqueue]
  exact FileResult.ofFiles_perm (pending_reading position p hw)

/-- At the beginning everything is still to come. -/
theorem tracks_start (rootFailures : List ClassFailure) (files : List Path) (workers : Nat) :
    (start .collectAll false rootFailures files workers).Tracks result rootFailures
      (files.mapIdx fun position p => (position, p)) := by
  have hreading : (List.replicate workers Worker.ready).filterMap Worker.reading? = [] := by
    simp [List.filterMap_replicate, Worker.reading?]
  have hstoring : (List.replicate workers Worker.ready).filterMap Worker.storing? = [] := by
    simp [List.filterMap_replicate, Worker.storing?]
  constructor
  · simp [start, pending, inHands, BySource.files, hreading, hstoring]
  · exact ⟨[], by simp [start], by simp [start, pending, hreading]⟩
  · simp [start, pending, hreading]
  · simp [start, inHands, BySource.files, hstoring]
  · exact ⟨List.nodup_nil, by simp [start], by simp [start]⟩
  · rfl
  · intro hstopped
    simp [start] at hstopped

/-- A step that neither finishes nor counts nor stores a class file keeps track. -/
theorem Tracks.of_perm {p p' : Pool} (h : p.Tracks result rootFailures files)
    (hpending : p.pending.Perm p'.pending) (hinHands : p'.inHands = p.inHands)
    (hbySource : p'.shared.bySource = p.shared.bySource)
    (hfailures : p'.shared.failures = p.shared.failures)
    (hforeign : p'.shared.foreign = p.shared.foreign)
    (hresolved : p'.shared.resolved = p.shared.resolved)
    (hrunning : p'.shared.isCancelled = false)
    (hstopped : .stopped ∈ p'.workers → p'.shared.queue = []) :
    p'.Tracks result rootFailures files := by
  have hresults : (FileResult.ofFiles result p.pending).Perm
      (FileResult.ofFiles result p'.pending) := FileResult.ofFiles_perm hpending
  constructor
  · rw [hinHands, hbySource]
    exact h.resolved.trans ((hresults.filterMap _).append_right _)
  · obtain ⟨noted, hnoted, hperm⟩ := h.failures
    exact ⟨noted, hfailures.trans hnoted, hperm.trans ((hresults.filterMap _).append_right _)⟩
  · rw [hforeign]
    exact h.foreign.trans ((hresults.filterMap _).append_right _)
  · rw [hresolved, hinHands, hbySource]
    exact h.count
  · rw [hbySource]
    exact h.grouped
  · exact hrunning
  · exact hstopped

/-- Workers that neither read nor hold a file may change their state freely. -/
theorem pending_congr {w w' : Worker} (hw : w.reading? = none) (hw' : w'.reading? = none) :
    pending ⟨s, before ++ w :: after⟩ = pending ⟨s, before ++ w' :: after⟩ := by
  rw [pending, pending, List.filterMap_append, List.filterMap_append,
    List.filterMap_cons_none hw, List.filterMap_cons_none hw']

/-- A worker that stores nothing has nothing in its hands. -/
theorem inHands_congr {s' : Shared} {w w' : Worker} (hw : w.storing? = none)
    (hw' : w'.storing? = none) :
    inHands ⟨s, before ++ w :: after⟩ = inHands ⟨s', before ++ w' :: after⟩ := by
  rw [inHands, inHands, List.filterMap_append, List.filterMap_append,
    List.filterMap_cons_none hw, List.filterMap_cons_none hw']

/-- A worker that is at something else stands for none that is at a given point. -/
theorem mem_workers_of_ne {point w w' : Worker} (hw' : w' ≠ point)
    (hmem : point ∈ before ++ w' :: after) : point ∈ before ++ w :: after := by
  rw [List.mem_append, List.mem_cons] at hmem ⊢
  rcases hmem with hbefore | heq | hafter
  · exact Or.inl hbefore
  · exact absurd heq.symm hw'
  · exact Or.inr (Or.inr hafter)

/-- What leaves the items to come may be put behind the items that came. -/
theorem perm_of_done {α : Type} {all before after came : List α} {a : α}
    (hall : all.Perm (before ++ came)) (hbefore : before.Perm (a :: after)) :
    all.Perm (after ++ (came ++ [a])) :=
  calc
    all.Perm (before ++ came) := hall
    _ |>.Perm (a :: (after ++ came)) := hbefore.append_right came
    _ |>.Perm (after ++ (came ++ [a])) := by
      rw [← List.append_assoc]
      exact (List.perm_append_singleton a (after ++ came)).symm

/-- A failure that a worker notes is not to come any more. -/
theorem Tracks.noteFailure {position : Nat} {p : Path} {failure : ClassFailure}
    (h : Tracks result rootFailures files ⟨s, before ++ .reading position p :: after⟩)
    (hresult : result p = .failed failure) :
    Tracks result rootFailures files
      ⟨{ s with failures := s.failures ++ [(position, failure)] },
        before ++ .reporting :: after⟩ := by
  let s' : Shared := { s with failures := s.failures ++ [(position, failure)] }
  have hleft : (FileResult.ofFiles result
      (pending ⟨s, before ++ .reading position p :: after⟩)).Perm
        ((position, .failed failure) ::
          FileResult.ofFiles result (pending ⟨s', before ++ .reporting :: after⟩)) :=
    hresult ▸ results_reading result position p rfl rfl
  obtain ⟨noted, hnoted, hperm⟩ := h.failures
  have hfailures : s.failures = rootFailures.map (fun failure => (0, failure)) ++ noted := hnoted
  have hheld : inHands ⟨s', before ++ .reporting :: after⟩
      = inHands ⟨s, before ++ .reading position p :: after⟩ := inHands_congr rfl rfl
  constructor
  · rw [hheld]
    exact h.resolved.trans ((hleft.filterMap _).append_right _)
  · exact ⟨noted ++ [(position, failure)], by simp [hfailures],
      perm_of_done hperm (hleft.filterMap _)⟩
  · exact h.foreign.trans ((hleft.filterMap _).append_right _)
  · rw [hheld]
    exact h.count
  · exact h.grouped
  · exact h.running
  · exact fun hmem => h.stopped (mem_workers_of_ne (by simp) hmem)

/-- Nor is a class without metadata whose name a worker notes. -/
theorem Tracks.noteForeign {position : Nat} {p : Path} {name : String}
    (h : Tracks result rootFailures files ⟨s, before ++ .reading position p :: after⟩)
    (hresult : result p = .foreign name) :
    Tracks result rootFailures files
      ⟨{ s with foreign := s.foreign ++ [(position, name)] }, before ++ .ready :: after⟩ := by
  let s' : Shared := { s with foreign := s.foreign ++ [(position, name)] }
  have hleft : (FileResult.ofFiles result
      (pending ⟨s, before ++ .reading position p :: after⟩)).Perm
        ((position, .foreign name) ::
          FileResult.ofFiles result (pending ⟨s', before ++ .ready :: after⟩)) :=
    hresult ▸ results_reading result position p rfl rfl
  obtain ⟨noted, hnoted, hperm⟩ := h.failures
  have hheld : inHands ⟨s', before ++ .ready :: after⟩
      = inHands ⟨s, before ++ .reading position p :: after⟩ := inHands_congr rfl rfl
  constructor
  · rw [hheld]
    exact h.resolved.trans ((hleft.filterMap _).append_right _)
  · exact ⟨noted, hnoted, hperm.trans ((hleft.filterMap _).append_right _)⟩
  · exact perm_of_done h.foreign (hleft.filterMap _)
  · rw [hheld]
    exact h.count
  · exact h.grouped
  · exact h.running
  · exact fun hmem => h.stopped (mem_workers_of_ne (by simp) hmem)

/-- A resolved file that a worker counts is in its hands instead. -/
theorem Tracks.countFile {position : Nat} {p : Path} {file : ResolvedFile}
    (h : Tracks result rootFailures files ⟨s, before ++ .reading position p :: after⟩)
    (hresult : result p = .resolved file) :
    Tracks result rootFailures files
      ⟨{ s with resolved := s.resolved + 1 }, before ++ .storing position file :: after⟩ := by
  let s' : Shared := { s with resolved := s.resolved + 1 }
  have hleft : (FileResult.ofFiles result
      (pending ⟨s, before ++ .reading position p :: after⟩)).Perm
        ((position, .resolved file) ::
          FileResult.ofFiles result
            (pending ⟨s', before ++ .storing position file :: after⟩)) :=
    hresult ▸ results_reading result position p rfl rfl
  have hheld : (inHands ⟨s', before ++ .storing position file :: after⟩).Perm
      ((position, file) :: inHands ⟨s, before ++ .reading position p :: after⟩) :=
    inHands_storing (s := s') position file rfl
  obtain ⟨noted, hnoted, hperm⟩ := h.failures
  constructor
  · refine h.resolved.trans (((hleft.filterMap _).append_right _).trans ?_)
    refine List.perm_middle.symm.trans (List.Perm.append_left _ ?_)
    exact (hheld.append_right _).symm
  · exact ⟨noted, hnoted, hperm.trans ((hleft.filterMap _).append_right _)⟩
  · exact h.foreign.trans ((hleft.filterMap _).append_right _)
  · have hcount : s.resolved = (inHands ⟨s, before ++ .reading position p :: after⟩).length
        + s.bySource.files.length := h.count
    have hlength := hheld.length_eq
    rw [List.length_cons] at hlength
    change s.resolved + 1 = (inHands ⟨s', before ++ .storing position file :: after⟩).length
      + s.bySource.files.length
    omega
  · exact h.grouped
  · exact h.running
  · exact fun hmem => h.stopped (mem_workers_of_ne (by simp) hmem)

/-- A resolved file goes from the hands of a worker to those of its source file. -/
theorem Tracks.storeFile {position : Nat} {file : ResolvedFile}
    (h : Tracks result rootFailures files ⟨s, before ++ .storing position file :: after⟩) :
    Tracks result rootFailures files
      ⟨{ s with bySource := s.bySource.insert file.source (position, file) },
        before ++ .ready :: after⟩ := by
  have hleft : (inHands ⟨s, before ++ .storing position file :: after⟩).Perm
      ((position, file) :: inHands ⟨s, before ++ .ready :: after⟩) :=
    inHands_storing position file rfl
  have hstored := BySource.files_insert file.source (position, file) s.bySource
  have hmoved : (inHands ⟨s, before ++ .storing position file :: after⟩
        ++ s.bySource.files).Perm
      (inHands ⟨s, before ++ .ready :: after⟩
        ++ (s.bySource.insert file.source (position, file)).files) :=
    (hleft.append_right _).trans (List.perm_middle.symm.trans (hstored.symm.append_left _))
  have hpending : pending ⟨s, before ++ .storing position file :: after⟩
      = pending ⟨s, before ++ .ready :: after⟩ := pending_congr rfl rfl
  obtain ⟨noted, hnoted, hperm⟩ := h.failures
  rw [hpending] at hperm
  constructor
  · refine h.resolved.trans ?_
    rw [hpending]
    exact hmoved.append_left _
  · exact ⟨noted, hnoted, hperm⟩
  · exact h.foreign.trans (List.Perm.of_eq (by rw [hpending]; rfl))
  · have hlength := hmoved.length_eq
    rw [List.length_append, List.length_append] at hlength
    exact h.count.trans hlength
  · exact h.grouped.insert rfl
  · exact h.running
  · exact fun hmem => h.stopped (mem_workers_of_ne (by simp) hmem)

/-- Every step of a worker keeps track of what comes out of the class files. -/
theorem Tracks.step {p p' : Pool} (h : p.Tracks result rootFailures files)
    (hstep : Step .collectAll result p p') : p'.Tracks result rootFailures files := by
  obtain @⟨s, s', w, w', before, after, hworker⟩ := hstep
  cases hworker with
  | goOn | retry | collect =>
    exact h.of_perm (List.Perm.of_eq (pending_congr rfl rfl)) (inHands_congr rfl rfl) rfl rfl rfl
      rfl h.running fun hmem => h.stopped (mem_workers_of_ne (by simp) hmem)
  | cancelled hcancelled => exact absurd (hcancelled.symm.trans h.running) (by simp)
  | failFast hpolicy => exact absurd hpolicy (by simp)
  | empty hempty =>
    exact h.of_perm (List.Perm.of_eq (pending_congr rfl rfl)) (inHands_congr rfl rfl) rfl rfl rfl
      rfl h.running fun _ => hempty
  | @take front back position p hqueue =>
    refine h.of_perm (pending_take hqueue) (inHands_congr rfl rfl) rfl rfl rfl rfl h.running
      fun hmem => ?_
    have hnone := h.stopped (mem_workers_of_ne (by simp) hmem)
    simp [hqueue] at hnone
  | fail hresult => exact h.noteFailure hresult
  | skip hresult => exact h.noteForeign hresult
  | count hresult => exact h.countFile hresult
  | store => exact h.storeFile

/-- A pool keeps track all the way. -/
theorem Tracks.reaches {p p' : Pool} (h : p.Tracks result rootFailures files)
    (hreaches : Reaches .collectAll result p p') : p'.Tracks result rootFailures files := by
  induction hreaches with
  | refl => exact h
  | tail _ hstep ih => exact ih.step hstep

end Tracking

section Progress

variable {policy : ErrorPolicy} {result : Path → FileResult} {before after : List Worker}

/-- No step adds or removes a worker. -/
theorem Step.length_workers {p p' : Pool} (hstep : Step policy result p p') :
    p'.workers.length = p.workers.length := by
  obtain ⟨_⟩ := hstep
  simp

/-- No worker comes or goes. -/
theorem Reaches.length_workers {p p' : Pool} (hreaches : Reaches policy result p p') :
    p'.workers.length = p.workers.length := by
  induction hreaches with
  | refl => rfl
  | tail _ hstep ih => rw [hstep.length_workers, ih]

/-- A step of one worker, put in front of what follows it. -/
theorem Reaches.head {s s' : Shared} {w w' : Worker} {p : Pool}
    (hworker : Worker.Step policy result s w s' w')
    (hreaches : Reaches policy result ⟨s', before ++ w' :: after⟩ p) :
    Reaches policy result ⟨s, before ++ w :: after⟩ p :=
  Relation.ReflTransGen.head (.worker hworker) hreaches

variable (policy) (result) (before) (after)

/-- A worker that has noted a failure gets ready again. -/
theorem reporting_reaches_ready (s : Shared) :
    ∃ s', s'.queue = s.queue ∧ Reaches policy result ⟨s, before ++ .reporting :: after⟩
      ⟨s', before ++ .ready :: after⟩ := by
  cases policy with
  | collectAll => exact ⟨_, rfl, Reaches.head (.collect rfl) .refl⟩
  | failFast =>
    exact ⟨{ s with isCancelled := true }, rfl, Reaches.head (.failFast rfl) .refl⟩

/-- A worker that reads a class file gets ready again, whatever comes out of the file. -/
theorem reading_reaches_ready (s : Shared) (position : Nat) (p : Path) :
    ∃ s', s'.queue = s.queue ∧
      Reaches policy result ⟨s, before ++ .reading position p :: after⟩
        ⟨s', before ++ .ready :: after⟩ := by
  cases hresult : result p with
  | failed failure =>
    obtain ⟨s', hqueue, hreaches⟩ := reporting_reaches_ready policy result before after
      { s with failures := s.failures ++ [(position, failure)] }
    exact ⟨s', hqueue, hreaches.head (.fail hresult)⟩
  | foreign name =>
    exact ⟨{ s with foreign := s.foreign ++ [(position, name)] }, rfl,
      Reaches.head (.skip hresult) .refl⟩
  | resolved file =>
    let counted : Shared := { s with resolved := s.resolved + 1 }
    exact ⟨{ counted with
        bySource := counted.bySource.insert file.source (position, file) }, rfl,
      Reaches.head (.count hresult) (Reaches.head .store .refl)⟩

/-- A worker that is ready takes one class file after the other until none is left. -/
theorem ready_reaches_stopped (s : Shared) :
    ∃ s', Reaches policy result ⟨s, before ++ .ready :: after⟩
      ⟨s', before ++ .stopped :: after⟩ := by
  induction hlength : s.queue.length generalizing s with
  | zero =>
    have hempty : s.queue = [] := List.eq_nil_of_length_eq_zero hlength
    cases hcancelled : s.isCancelled with
    | true => exact ⟨s, Reaches.head (.cancelled hcancelled) .refl⟩
    | false => exact ⟨s, Reaches.head (.goOn hcancelled) (Reaches.head (.empty hempty) .refl)⟩
  | succ n ih =>
    cases hcancelled : s.isCancelled with
    | true => exact ⟨s, Reaches.head (.cancelled hcancelled) .refl⟩
    | false =>
      obtain ⟨⟨position, p⟩, rest, hqueue⟩ := List.exists_cons_of_length_eq_add_one hlength
      obtain ⟨s', hqueue', hread⟩ := reading_reaches_ready policy result before after
        { s with queue := rest } position p
      have hlength' : s'.queue.length = n := by
        rw [hqueue] at hlength
        rw [hqueue']
        exact Nat.succ_inj.mp hlength
      obtain ⟨s'', hstop⟩ := ih s' hlength'
      have htake : Worker.Step policy result s .taking { s with queue := [] ++ rest }
          (.reading position p) := .take hqueue
      exact ⟨s'', Reaches.head (.goOn hcancelled)
        (Reaches.head htake (Relation.ReflTransGen.trans hread hstop))⟩

/-- A worker gets to its end from wherever it is. -/
theorem worker_reaches_stopped (s : Shared) (w : Worker) :
    ∃ s', Reaches policy result ⟨s, before ++ w :: after⟩
      ⟨s', before ++ .stopped :: after⟩ := by
  cases w with
  | stopped => exact ⟨s, .refl⟩
  | ready => exact ready_reaches_stopped policy result before after s
  | taking =>
    obtain ⟨s', hreaches⟩ := ready_reaches_stopped policy result before after s
    exact ⟨s', hreaches.head .retry⟩
  | reporting =>
    obtain ⟨s', -, hready⟩ := reporting_reaches_ready policy result before after s
    obtain ⟨s'', hreaches⟩ := ready_reaches_stopped policy result before after s'
    exact ⟨s'', Relation.ReflTransGen.trans hready hreaches⟩
  | reading position p =>
    obtain ⟨s', -, hready⟩ := reading_reaches_ready policy result before after s position p
    obtain ⟨s'', hreaches⟩ := ready_reaches_stopped policy result before after s'
    exact ⟨s'', Relation.ReflTransGen.trans hready hreaches⟩
  | storing position file =>
    obtain ⟨s', hreaches⟩ := ready_reaches_stopped policy result before after
      { s with bySource := s.bySource.insert file.source (position, file) }
    exact ⟨s', hreaches.head .store⟩

/-- Wherever the workers are, they can get to their end. -/
theorem exists_reaches_isFinished (p : Pool) :
    ∃ p', Reaches policy result p p' ∧ p'.IsFinished := by
  obtain ⟨s, workers⟩ := p
  suffices h : ∀ before : List Worker, (∀ w ∈ before, w = .stopped) →
      ∃ p', Reaches policy result ⟨s, before ++ workers⟩ p' ∧ p'.IsFinished from
    h [] (by simp)
  induction workers generalizing s with
  | nil => exact fun before hbefore => ⟨_, .refl, by simpa [IsFinished] using hbefore⟩
  | cons w rest ih =>
    intro before hbefore
    obtain ⟨s', hstop⟩ := worker_reaches_stopped policy result before rest s w
    have hstopped : ∀ w ∈ before ++ [.stopped], w = .stopped := by
      intro w hw
      rcases List.mem_append.mp hw with hw | hw
      · exact hbefore w hw
      · exact List.mem_singleton.mp hw
    obtain ⟨p', hreaches, hfinished⟩ := ih s' (before ++ [.stopped]) hstopped
    rw [List.append_assoc] at hreaches
    exact ⟨p', Relation.ReflTransGen.trans hstop hreaches, hfinished⟩

end Progress

/-- At the end nobody reads a class file. -/
theorem IsFinished.reading_eq_nil {p : Pool} (hfinished : p.IsFinished) :
    p.workers.filterMap Worker.reading? = [] := by
  rw [List.filterMap_eq_nil_iff]
  intro w hw
  rw [hfinished w hw]
  rfl

/-- At the end nothing is still to come. -/
theorem Tracks.pending_eq_nil {result : Path → FileResult} {rootFailures : List ClassFailure}
    {files : Numbered Path} {p : Pool} (h : p.Tracks result rootFailures files)
    (hworkers : p.workers ≠ []) (hfinished : p.IsFinished) : p.pending = [] := by
  obtain ⟨w, rest, hcons⟩ := List.exists_cons_of_ne_nil hworkers
  have hmem : w ∈ p.workers := by
    rw [hcons]
    exact List.mem_cons_self
  have hqueue : p.shared.queue = [] := h.stopped (hfinished w hmem ▸ hmem)
  rw [pending, hqueue, hfinished.reading_eq_nil]
  rfl

/-- At the end all counted files are stored. -/
theorem IsFinished.inHands_eq_nil {p : Pool} (hfinished : p.IsFinished) : p.inHands = [] := by
  rw [inHands, List.filterMap_eq_nil_iff]
  intro w hw
  rw [hfinished w hw]
  rfl

end Pool

end LineAtlas
