import LineAtlas.Proofs.Run.Isolation

/-!
# Runs that end at the first failure

A run that ends at its first failure is one that collects all failures of fewer class files:
those up to the first one that fails, or none if a root has failed. So is what a lone worker
collects, which takes class files in turn and sees that the run is cancelled before it takes
another one.
-/

namespace LineAtlas

namespace Lists

variable {α β : Type}

/-- A list up to and including the first value with a property. -/
def untilFirst (p : α → Bool) (l : List α) : List α := l.take (l.findIdx p + 1)

variable {p : α → Bool}

/-- A list without such a value is taken as a whole. -/
theorem untilFirst_eq_self {l : List α} (h : l.any p = false) : untilFirst p l = l := by
  refine List.take_of_length_le ?_
  have hlength : l.findIdx p = l.length :=
    List.findIdx_eq_length.mpr fun a ha => by simpa using List.any_eq_false.mp h a ha
  omega

/-- The first such value is the last one that is taken. -/
theorem untilFirst_append {before after : List α} {a : α} (h : before.any p = false)
    (ha : p a = true) : untilFirst p (before ++ a :: after) = before ++ [a] := by
  have hindex : (before ++ a :: after).findIdx p = before.length := by
    have hnone : before.findIdx p = before.length :=
      List.findIdx_eq_length.mpr fun b hb => by simpa using List.any_eq_false.mp h b hb
    rw [List.findIdx_append, hnone, if_neg (Nat.lt_irrefl _), List.findIdx_cons, ha]
    simp
  rw [untilFirst, hindex, List.take_length_add_append]
  rfl

/-- Cutting a list and mapping it may change places. -/
theorem untilFirst_map (f : β → α) (l : List β) :
    untilFirst p (l.map f) = (untilFirst (p ∘ f) l).map f := by
  rw [untilFirst, untilFirst, List.findIdx_map, ← List.map_take]

/-- Numbering values leaves the values. -/
theorem map_snd_mapIdx (l : List α) :
    (l.mapIdx fun position a => (position, a)).map Prod.snd = l :=
  List.ext_getElem (by simp) fun i _ _ => by simp

/-- Positions do not matter to where a list is cut. -/
theorem untilFirst_mapIdx (l : List α) :
    untilFirst (fun entry => p entry.2) (l.mapIdx fun position a => (position, a))
      = (untilFirst p l).mapIdx fun position a => (position, a) := by
  have hindex : (l.mapIdx fun position a => (position, a)).findIdx (fun entry => p entry.2)
      = l.findIdx p := by
    conv_rhs => rw [← map_snd_mapIdx l, List.findIdx_map]
    rfl
  rw [untilFirst, hindex, untilFirst]
  exact List.ext_getElem (by simp) fun i _ _ => by simp

/-- Numbering values does not change whether there is one of a kind. -/
theorem any_mapIdx (l : List α) :
    (l.mapIdx fun position a => (position, a)).any (fun entry => p entry.2) = l.any p := by
  conv_rhs => rw [← map_snd_mapIdx l, List.any_map]
  rfl

end Lists

open LineAtlas.Lists (untilFirst)

/-- Whether a class file comes to a failure. -/
def FileResult.isFailed (result : Path → FileResult) (entry : Nat × Path) : Bool :=
  match result entry.2 with
  | .failed _ => true
  | _ => false

namespace Worker

variable {policy : ErrorPolicy} {result : Path → FileResult}

/-- A step of a lone worker, which takes class files from the front of the queue only. -/
def StepInTurn (policy : ErrorPolicy) (result : Path → FileResult) (here there : Shared × Worker) :
    Prop :=
  Step policy result here.1 here.2 there.1 there.2 ∧
    ∀ entry, there.2.reading? = some entry → here.1.queue = entry :: there.1.queue

/-- What a lone worker comes to by any number of steps. -/
def ReachesInTurn (policy : ErrorPolicy) (result : Path → FileResult) :
    Shared × Worker → Shared × Worker → Prop :=
  Relation.ReflTransGen (StepInTurn policy result)

/-- A step by which a lone worker does not come to read a class file. -/
theorem ReachesInTurn.head {s s' : Shared} {w w' : Worker} {last : Shared × Worker}
    (hstep : Step policy result s w s' w') (hreading : w'.reading? = none)
    (hreaches : ReachesInTurn policy result (s', w') last) :
    ReachesInTurn policy result (s, w) last :=
  Relation.ReflTransGen.head ⟨hstep, fun entry hentry => by simp [hreading] at hentry⟩ hreaches

/-- A lone worker finishes the class file that it reads. -/
theorem reading_reachesInTurn_ready (policy : ErrorPolicy) (result : Path → FileResult)
    (s : Shared) (position : Nat) (p : Path) : ∃ s', s'.queue = s.queue ∧
      ReachesInTurn policy result (s, .reading position p) (s', .ready) := by
  cases hresult : result p with
  | failed failure =>
    cases policy with
    | collectAll =>
      exact ⟨{ s with failures := s.failures ++ [(position, failure)] }, rfl,
        .head (.fail hresult) rfl (.head (.collect rfl) rfl .refl)⟩
    | failFast =>
      let noted : Shared := { s with failures := s.failures ++ [(position, failure)] }
      exact ⟨{ noted with isCancelled := true }, rfl,
        .head (.fail hresult) rfl (.head (.failFast rfl) rfl .refl)⟩
  | foreign name =>
    exact ⟨{ s with foreign := s.foreign ++ [(position, name)] }, rfl,
      .head (.skip hresult) rfl .refl⟩
  | resolved file =>
    let counted : Shared := { s with resolved := s.resolved + 1 }
    exact ⟨{ counted with
        bySource := counted.bySource.insert file.source (position, file) }, rfl,
      .head (.count hresult) rfl (.head .store rfl .refl)⟩

/-- A lone worker gets to its end. -/
theorem exists_reachesInTurn_stopped (policy : ErrorPolicy) (result : Path → FileResult)
    (s : Shared) : ∃ s', ReachesInTurn policy result (s, .ready) (s', .stopped) := by
  induction hqueue : s.queue generalizing s with
  | nil =>
    cases hcancelled : s.isCancelled with
    | true => exact ⟨s, .head (.cancelled hcancelled) rfl .refl⟩
    | false => exact ⟨s, .head (.goOn hcancelled) rfl (.head (.empty hqueue) rfl .refl)⟩
  | cons entry rest ih =>
    obtain ⟨position, p⟩ := entry
    cases hcancelled : s.isCancelled with
    | true => exact ⟨s, .head (.cancelled hcancelled) rfl .refl⟩
    | false =>
      obtain ⟨s', hqueue', hread⟩ := reading_reachesInTurn_ready policy result
        { s with queue := rest } position p
      obtain ⟨s'', hstop⟩ := ih s' hqueue'
      have htake : Step policy result s .taking { s with queue := [] ++ rest }
          (.reading position p) := .take hqueue
      have hinTurn : StepInTurn policy result (s, .taking)
          ({ s with queue := rest }, .reading position p) :=
        ⟨htake, fun entry hentry => by rw [← Option.some.inj hentry]; exact hqueue⟩
      exact ⟨s'', .head (.goOn hcancelled) rfl
        (Relation.ReflTransGen.head hinTurn (Relation.ReflTransGen.trans hread hstop))⟩

end Worker

namespace Pool

section Tracking

variable {result : Path → FileResult} {rootFailures : List ClassFailure} {files : Numbered Path}
  {s s' : Shared} {w w' : Worker}

/-- A step of a lone worker. -/
theorem Tracks.stepAlone (h : Tracks result rootFailures files ⟨s, [w]⟩)
    (hstep : Worker.Step .collectAll result s w s' w') :
    Tracks result rootFailures files ⟨s', [w']⟩ :=
  h.step (@Step.worker .collectAll result s s' w w' [] [] hstep)

/-- A lone worker with nothing left to do is on its way through one more class file as soon as it
reads it. -/
theorem Tracks.oneMore (h : Tracks result rootFailures files ⟨s, [.taking]⟩)
    (hqueue : s.queue = []) (entry : Nat × Path) :
    Tracks result rootFailures (files ++ [entry]) ⟨s, [.reading entry.1 entry.2]⟩ := by
  have hnone : pending ⟨s, [.taking]⟩ = [] := by
    rw [pending, hqueue]
    rfl
  have hone : pending ⟨s, [.reading entry.1 entry.2]⟩ = [entry] := by
    rw [pending, hqueue]
    rfl
  have hheld : inHands ⟨s, [.reading entry.1 entry.2]⟩ = inHands ⟨s, [.taking]⟩ := rfl
  have hresolved := h.resolved
  have hforeign := h.foreign
  obtain ⟨noted, hnoted, hfailures⟩ := h.failures
  rw [hnone] at hresolved hforeign hfailures
  constructor
  · rw [hone, hheld, FileResult.ofFiles_append, FileResult.resolvedFiles_append]
    exact (hresolved.append_right _).trans List.perm_append_comm
  · refine ⟨noted, hnoted, ?_⟩
    rw [hone, FileResult.ofFiles_append, FileResult.failures_append]
    exact (hfailures.append_right _).trans List.perm_append_comm
  · rw [hone, FileResult.ofFiles_append, FileResult.foreignClasses_append]
    exact (hforeign.append_right _).trans List.perm_append_comm
  · exact h.count
  · exact h.grouped
  · exact h.running
  · exact fun hmem => by simp at hmem

end Tracking

section InTurn

variable (result : Path → FileResult) (rootFailures : List ClassFailure)

/-- Neither a root nor one of the class files that were taken has failed. -/
def AllWell (taken : Numbered Path) : Prop :=
  rootFailures = [] ∧ taken.any (FileResult.isFailed result) = false

/-- A root has failed, and no class file was taken; or the last one that was taken is the first to
fail. -/
def HasFailed (taken : Numbered Path) : Prop :=
  rootFailures ≠ [] ∧ taken = [] ∨ ∃ before entry, taken = before ++ [entry] ∧
    AllWell result rootFailures before ∧ FileResult.isFailed result entry = true

/-- Where a lone worker is that has taken some class files and left others in the queue, and
whether the run was cancelled. -/
inductive Course (taken left : Numbered Path) : Bool → Worker → Prop where
  /-- Nothing has failed, and the worker looks whether the run is cancelled. -/
  | ready (h : AllWell result rootFailures taken) : Course taken left false .ready
  /-- Nothing has failed, and the worker is about to take a class file. -/
  | taking (h : AllWell result rootFailures taken) : Course taken left false .taking
  /-- Nothing has failed, and the worker reads the class file that it took last. -/
  | reading {before : Numbered Path} {position : Nat} {p : Path}
      (htaken : taken = before ++ [(position, p)]) (h : AllWell result rootFailures before) :
      Course taken left false (.reading position p)
  /-- Nothing has failed, and the worker stores what it read. -/
  | storing {position : Nat} {file : ResolvedFile} (h : AllWell result rootFailures taken) :
      Course taken left false (.storing position file)
  /-- The class file that was taken last has failed, and the run is not yet cancelled. -/
  | reporting (h : HasFailed result rootFailures taken) : Course taken left false .reporting
  /-- Nothing has failed, and no class file is left. -/
  | empty (hleft : left = []) (h : AllWell result rootFailures taken) :
      Course taken left false .stopped
  /-- Something has failed, and the run is cancelled. -/
  | ended (h : HasFailed result rootFailures taken) : Course taken left true .ready
  /-- Something has failed, and the worker has stopped. -/
  | stopped (h : HasFailed result rootFailures taken) : Course taken left true .stopped

/-- A lone worker on its way through some class files under the policy that ends a run. If it had
to do only what it has taken, and nobody had cancelled the run, it would be a pool that collects
all failures. -/
structure InTurn (files taken : Numbered Path) (s : Shared) (w : Worker) : Prop where
  /-- What was taken came before what is left. -/
  files_eq : files = taken ++ s.queue
  /-- What was taken is kept track of. -/
  tracks : Tracks result rootFailures taken ⟨{ s with queue := [], isCancelled := false }, [w]⟩
  /-- Failures end the run. -/
  course : Course result rootFailures taken s.queue s.isCancelled w

variable {result} {rootFailures} {files taken : Numbered Path} {s s' : Shared} {w w' : Worker}

/-- As long as the next class file does not fail, all is well. -/
theorem AllWell.snoc (h : AllWell result rootFailures taken) {entry : Nat × Path}
    (hentry : FileResult.isFailed result entry = false) :
    AllWell result rootFailures (taken ++ [entry]) :=
  ⟨h.1, by simpa [hentry] using h.2⟩

/-- At the beginning nothing is taken. -/
theorem inTurn_start (files : List Path) :
    InTurn result rootFailures (files.mapIdx fun position p => (position, p)) []
      (start .failFast false rootFailures files 1).shared .ready := by
  refine ⟨rfl, tracks_start rootFailures [] 1, ?_⟩
  cases rootFailures with
  | nil => exact .ready ⟨rfl, rfl⟩
  | cons first rest => exact .ended (Or.inl ⟨List.cons_ne_nil _ _, rfl⟩)

/-- Every step of a lone worker takes at most one class file, and none once the run is
cancelled. -/
theorem InTurn.step (h : InTurn result rootFailures files taken s w)
    (hstep : Worker.StepInTurn .failFast result (s, w) (s', w')) :
    ∃ taken', InTurn result rootFailures files taken' s' w' := by
  obtain ⟨hfiles, htracks, hcourse⟩ := h
  obtain ⟨hworker, hfront⟩ := hstep
  generalize hcancelled : s.isCancelled = cancelled at hcourse
  cases hworker with
  | goOn hrunning =>
    obtain rfl : cancelled = false := hcancelled.symm.trans hrunning
    cases hcourse with
    | ready h =>
      exact ⟨taken, hfiles, htracks.stepAlone (.goOn rfl), hcancelled ▸ .taking h⟩
  | cancelled hended =>
    obtain rfl : cancelled = true := hcancelled.symm.trans hended
    cases hcourse with
    | ended h =>
      exact ⟨taken, hfiles, (htracks.stepAlone (.goOn rfl)).stepAlone (.empty rfl),
        hcancelled ▸ .stopped h⟩
  | retry =>
    cases hcourse with
    | taking h => exact ⟨taken, hfiles, htracks.stepAlone .retry, hcancelled ▸ .ready h⟩
  | empty hempty =>
    cases hcourse with
    | taking h =>
      exact ⟨taken, hfiles, htracks.stepAlone (.empty rfl), hcancelled ▸ .empty hempty h⟩
  | @take before after position p hqueue =>
    cases hcourse with
    | taking h =>
      have hnext : s.queue = (position, p) :: (before ++ after) := hfront (position, p) rfl
      refine ⟨taken ++ [(position, p)], ?_, htracks.oneMore rfl (position, p),
        hcancelled ▸ .reading rfl h⟩
      rw [hfiles, hnext, List.append_assoc]
      rfl
  | @fail position p failure hresult =>
    cases hcourse with
    | @reading before position p htaken h =>
      have hfailed : FileResult.isFailed result (position, p) = true := by
        simp [FileResult.isFailed, hresult]
      exact ⟨taken, hfiles, htracks.stepAlone (.fail hresult),
        hcancelled ▸ .reporting (Or.inr ⟨before, (position, p), htaken, h, hfailed⟩)⟩
  | collect hpolicy => exact absurd hpolicy (by simp)
  | failFast =>
    cases hcourse with
    | reporting h => exact ⟨taken, hfiles, htracks.stepAlone (.collect rfl), .ended h⟩
  | skip hresult =>
    cases hcourse with
    | @reading before position p htaken h =>
      exact ⟨taken, hfiles, htracks.stepAlone (.skip hresult),
        hcancelled ▸ .ready (htaken ▸ h.snoc (by simp [FileResult.isFailed, hresult]))⟩
  | count hresult =>
    cases hcourse with
    | @reading before position p htaken h =>
      exact ⟨taken, hfiles, htracks.stepAlone (.count hresult),
        hcancelled ▸ .storing (htaken ▸ h.snoc (by simp [FileResult.isFailed, hresult]))⟩
  | store =>
    cases hcourse with
    | storing h => exact ⟨taken, hfiles, htracks.stepAlone .store, hcancelled ▸ .ready h⟩

/-- A lone worker stays on its way. -/
theorem InTurn.reaches {here there : Shared × Worker}
    (h : InTurn result rootFailures files taken here.1 here.2)
    (hreaches : Worker.ReachesInTurn .failFast result here there) :
    ∃ taken', InTurn result rootFailures files taken' there.1 there.2 := by
  induction hreaches with
  | refl => exact ⟨taken, h⟩
  | tail _ hstep ih =>
    obtain ⟨taken', h'⟩ := ih
    exact h'.step hstep

/-- At its end a lone worker has taken the class files up to the first one that fails, and none if
a root has failed. The run was cancelled if there was such a failure. -/
theorem InTurn.at_end (h : InTurn result rootFailures files taken s .stopped) :
    taken = (if rootFailures.isEmpty then untilFirst (FileResult.isFailed result) files else []) ∧
      s.isCancelled = (!rootFailures.isEmpty || files.any (FileResult.isFailed result)) := by
  obtain ⟨hfiles, -, hcourse⟩ := h
  generalize s.isCancelled = cancelled at hcourse ⊢
  cases hcourse with
  | empty hleft h =>
    obtain ⟨hroots, hwell⟩ := h
    rw [hleft, List.append_nil] at hfiles
    rw [hfiles, hroots, Lists.untilFirst_eq_self hwell, hwell]
    exact ⟨rfl, rfl⟩
  | stopped h =>
    rcases h with ⟨hroots, htaken⟩ | ⟨before, entry, htaken, ⟨hroots, hwell⟩, hfailed⟩
    · have hsome : rootFailures.isEmpty = false := by simpa using hroots
      rw [hsome]
      exact ⟨htaken, rfl⟩
    · rw [htaken, List.append_assoc] at hfiles
      have hfirst : untilFirst (FileResult.isFailed result) (before ++ entry :: s.queue)
          = before ++ [entry] := Lists.untilFirst_append hwell hfailed
      rw [hfiles, htaken, hroots]
      exact ⟨hfirst.symm, by simp [hfailed]⟩

end InTurn

end Pool

/-- The class files up to the first one with a property; none if a root has failed. -/
def Discovery.untilFirst (p : Path → Bool) (d : Discovery) : Discovery :=
  { d with files := if d.failures.isEmpty then Lists.untilFirst p d.files else [] }

/-- Two outcomes are the same but for the number of class files and whether the run was
cancelled. -/
structure Outcome.FindsSame (o o' : Outcome) : Prop where
  /-- The reports are the same. -/
  report : o.report = o'.report
  /-- The failures are the same. -/
  failures : o.failures = o'.failures
  /-- The classes without metadata are the same. -/
  foreignClasses : o.foreignClasses = o'.foreignClasses
  /-- The roles of methods are the same. -/
  ledgers : o.ledgers = o'.ledgers
  /-- All counts but that of class files are the same. -/
  stats : { o.stats with classFiles := o'.stats.classFiles } = o'.stats

namespace Reporter

variable {r : Reporter} {tree : FileTree}

/-- The results up to the first failure. -/
theorem takeResults_failFast (results : Numbered FileResult) :
    takeResults .failFast results
      = (untilFirst (fun entry => ends .failFast entry.2) results,
        results.any fun entry => ends .failFast entry.2) := by
  induction results with
  | nil => rfl
  | cons first rest ih =>
    rw [takeResults]
    by_cases hends : ends .failFast first.2 = true
    · rw [if_pos hends, Lists.untilFirst, List.findIdx_cons, List.any_cons, hends]
      rfl
    · rw [Bool.not_eq_true] at hends
      rw [hends, ih, Lists.untilFirst, Lists.untilFirst, List.findIdx_cons, List.any_cons, hends]
      rfl

/-- The reporter, with the policy that collects all failures. -/
def collecting (r : Reporter) : Reporter :=
  { r with config := { r.config with errorPolicy := .collectAll } }

/-- Whether a class file cannot be read or resolved. -/
def fails (r : Reporter) (tree : FileTree) (p : Path) : Bool :=
  !(ClassFile.read tree p >>= fun file => file.resolve r.config.accounting).isOk

/-- Runs on what was found below the class roots of a tree. -/
def runOn (r : Reporter) (tree : FileTree) (found : Discovery) : Outcome × Reporter :=
  let startsCancelled :=
    r.isCancelled || (r.config.errorPolicy == .failFast && !found.failures.isEmpty)
  let (results, isEnded) :=
    if startsCancelled then ([], false)
    else takeResults r.config.errorPolicy (found.files.mapIdx fun position p =>
      (position, r.resultOf tree p))
  let isCancelled := startsCancelled || isEnded
  (.assemble r.config.accounting found.files.length found.failures results isCancelled,
    { r with isCancelled })

/-- A run is one on the class files that are found. -/
theorem run_eq_runOn (r : Reporter) (tree : FileTree) :
    r.run tree = r.runOn tree (.ofRoots tree r.config.classRoots) := rfl

/-- A class file fails in a run when it fails for the reporter. -/
theorem isFailed_resultOf (r : Reporter) (tree : FileTree) (entry : Nat × Path) :
    FileResult.isFailed (r.resultOf tree) entry = r.fails tree entry.2 := by
  rw [FileResult.isFailed, fails, resultOf, processFile]
  cases ClassFile.read tree entry.2 with
  | error failure => rfl
  | ok file =>
    have hbind : ((.ok file : Except Failure ClassFile) >>= fun file =>
        file.resolve r.config.accounting) = file.resolve r.config.accounting := rfl
    rw [hbind]
    dsimp only
    cases file.resolve r.config.accounting with
    | error failure => rfl
    | ok resolution =>
      dsimp only
      cases resolution.unit <;> rfl

/-- Under the policy that ends a run at a failure, each failure does. -/
theorem ends_failFast (result : Path → FileResult) (entry : Nat × Path) :
    ends .failFast (result entry.2) = FileResult.isFailed result entry := by
  rw [FileResult.isFailed]
  cases result entry.2 <;> rfl

/-- The outcome of a run that collects all failures of what was found. -/
theorem runOn_collecting (hrunning : r.isCancelled = false) (found : Discovery) :
    (r.collecting.runOn tree found).1 = .assemble r.config.accounting found.files.length
      found.failures (FileResult.ofFiles (r.resultOf tree)
        (found.files.mapIdx fun position p => (position, p))) false := by
  have hcancelled : r.collecting.isCancelled = false := hrunning
  have hpolicy : r.collecting.config.errorPolicy = .collectAll := rfl
  simp only [runOn, hcancelled, hpolicy, takeResults_collectAll, ofFiles_mapIdx]
  rfl

/-- The outcome of a run that ends at the first failure. -/
theorem runOn_failFast_eq (hpolicy : r.config.errorPolicy = .failFast)
    (hrunning : r.isCancelled = false) (found : Discovery) :
    (r.runOn tree found).1 = .assemble r.config.accounting found.files.length found.failures
      (FileResult.ofFiles (r.resultOf tree)
        ((found.untilFirst (r.fails tree)).files.mapIdx fun position p => (position, p)))
      (!found.failures.isEmpty || found.files.any (r.fails tree)) := by
  have hends : (fun entry : Nat × FileResult => ends .failFast entry.2)
      ∘ (fun entry : Nat × Path => (entry.1, r.resultOf tree entry.2))
      = fun entry => r.fails tree entry.2 :=
    funext fun entry => (ends_failFast _ entry).trans (isFailed_resultOf r tree entry)
  have hresults : takeResults .failFast (FileResult.ofFiles (r.resultOf tree)
      (found.files.mapIdx fun position p => (position, p)))
      = (FileResult.ofFiles (r.resultOf tree)
          ((untilFirst (r.fails tree) found.files).mapIdx fun position p => (position, p)),
        found.files.any (r.fails tree)) := by
    rw [takeResults_failFast, FileResult.ofFiles, Lists.untilFirst_map, List.any_map, hends,
      Lists.untilFirst_mapIdx, Lists.any_mapIdx, FileResult.ofFiles]
  rw [runOn, hpolicy, hrunning, ← ofFiles_mapIdx, hresults, Discovery.untilFirst]
  cases found.failures.isEmpty <;> rfl

/-- A run that ends at the first failure is one that collects all failures of the class files up to
the first one that fails, and was cancelled if there was a failure. A lone worker gets to its end,
and has collected this outcome then, in whatever order the source files are listed. -/
theorem runOn_failFast (hpolicy : r.config.errorPolicy = .failFast)
    (hrunning : r.isCancelled = false) (tree : FileTree) (found : Discovery) :
    (r.runOn tree found).1.FindsSame
        (r.collecting.runOn tree (found.untilFirst (r.fails tree))).1 ∧
      ((r.runOn tree found).1.isCancelled = true ↔
        found.failures ≠ [] ∨ ∃ p ∈ found.files, r.fails tree p = true) ∧
      (∃ s, Worker.ReachesInTurn .failFast (r.resultOf tree)
        ((Pool.start .failFast false found.failures found.files 1).shared, .ready)
        (s, .stopped)) ∧
      ∀ s, Worker.ReachesInTurn .failFast (r.resultOf tree)
          ((Pool.start .failFast false found.failures found.files 1).shared, .ready)
          (s, .stopped) →
        ∀ listing : BySource, listing.Perm s.bySource →
          s.assemble r.config.accounting found.files.length listing = (r.runOn tree found).1 := by
  rw [runOn_failFast_eq hpolicy hrunning, runOn_collecting hrunning]
  refine ⟨⟨rfl, rfl, rfl, rfl, rfl⟩, ?_, Worker.exists_reachesInTurn_stopped _ _ _,
    fun s hreaches listing hlisting => ?_⟩
  · change (!found.failures.isEmpty || found.files.any (r.fails tree)) = true ↔ _
    simp
  · obtain ⟨taken, hturn⟩ := (Pool.inTurn_start found.files).reaches hreaches
    obtain ⟨htaken, hcancelled⟩ := hturn.at_end
    have hfailed : FileResult.isFailed (r.resultOf tree) = fun entry => r.fails tree entry.2 :=
      funext (isFailed_resultOf r tree)
    have hfiles : taken = (found.untilFirst (r.fails tree)).files.mapIdx fun position p =>
        (position, p) := by
      rw [htaken, hfailed, Lists.untilFirst_mapIdx, Discovery.untilFirst]
      cases found.failures.isEmpty <;> rfl
    rw [hfailed, Lists.any_mapIdx] at hcancelled
    have hpositions : (taken.map Prod.fst).Nodup := by
      rw [hfiles, ← FileResult.map_fst_ofFiles (r.resultOf tree),
        FileResult.map_fst_ofFiles_mapIdx]
      exact List.nodup_range
    have hassemble := hturn.tracks.assemble_eq hpositions (List.cons_ne_nil _ _)
      (fun w hw => List.mem_singleton.mp hw) r.config.accounting found.files.length hlisting
    rw [← hfiles, ← hcancelled]
    exact congrArg (fun o : Outcome => { o with isCancelled := s.isCancelled }) hassemble

/-- A reporter that ends its runs at the first failure. -/
def hasty : Reporter := { config := { classRoots := [⟨"c"⟩], errorPolicy := .failFast } }

/-- Of two class files that fail only the first one counts. -/
theorem runOn_failFast_twoClasses :
    hasty.config.errorPolicy = .failFast ∧ hasty.isCancelled = false ∧
      (hasty.runOn twoClasses ⟨[⟨"c/A.class"⟩, ⟨"c/B.class"⟩], []⟩).1.FindsSame
        (hasty.collecting.runOn twoClasses ⟨[⟨"c/A.class"⟩], []⟩).1 ∧
      (hasty.runOn twoClasses ⟨[⟨"c/A.class"⟩, ⟨"c/B.class"⟩], []⟩).1.isCancelled = true := by
  have hfind : twoClasses.find ⟨"c/A.class"⟩ = FileTree.follow ["c", "A.class"] twoClasses [] :=
    FileTree.find_eq_follow (by simp) (by decide +kernel) (by decide +kernel)
  have hfails : hasty.fails twoClasses ⟨"c/A.class"⟩ = true := by
    rw [fails, ClassFile.read, FileTree.read, hfind]
    rfl
  obtain ⟨hsame, hcancelled, -⟩ := runOn_failFast (r := hasty) rfl rfl twoClasses
    ⟨[⟨"c/A.class"⟩, ⟨"c/B.class"⟩], []⟩
  have hfirst : Discovery.untilFirst (hasty.fails twoClasses)
      ⟨[⟨"c/A.class"⟩, ⟨"c/B.class"⟩], []⟩ = ⟨[⟨"c/A.class"⟩], []⟩ := by
    have hfiles : untilFirst (hasty.fails twoClasses) ([] ++ ⟨"c/A.class"⟩ :: [⟨"c/B.class"⟩])
        = [⟨"c/A.class"⟩] := Lists.untilFirst_append List.any_nil hfails
    rw [List.nil_append] at hfiles
    simp only [Discovery.untilFirst, List.isEmpty_nil, if_true, hfiles]
  rw [hfirst] at hsame
  exact ⟨rfl, rfl, hsame,
    hcancelled.mpr (Or.inr ⟨⟨"c/A.class"⟩, List.mem_cons_self, hfails⟩)⟩

end Reporter

end LineAtlas
