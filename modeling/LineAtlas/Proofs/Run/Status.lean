import LineAtlas.Proofs.Run.FailFast

/-!
# Status of a run

A run may be cancelled from outside at any moment, also when its workers are at their end. Under
the policy that ends a run at its first failure a failure cancels it as well. Its status tells
whether it was cancelled, and not whether class files are left. The two come apart exactly when
the run is cancelled and all class files were taken nonetheless.
-/

namespace LineAtlas

/-- The status of an outcome means what it says when some class files were left: a run was
cancelled if and only if there are some, and otherwise its failures decide. -/
structure Outcome.TellsOf (o : Outcome) (left : Numbered Path) : Prop where
  /-- A run was cancelled if it left class files, and only then. -/
  cancelled : o.status = .cancelled ↔ left ≠ []
  /-- A run that left none has failed if there are failures, and only then. -/
  failed : left = [] → (o.status = .failed ↔ o.failures ≠ [])
  /-- A run that left none is a success if there are no failures, and only then. -/
  success : left = [] → (o.status = .success ↔ o.failures = [])

namespace Outcome

/-- The status says that a run was cancelled exactly if the flag is set. -/
theorem status_eq_cancelled_iff (o : Outcome) : o.status = .cancelled ↔ o.isCancelled = true := by
  rw [status]
  cases o.isCancelled with
  | true => exact ⟨fun _ => rfl, fun _ => rfl⟩
  | false =>
    rw [if_neg (by simp)]
    split <;> simp

/-- The failures decide about a run that was not cancelled. -/
theorem status_of_running {o : Outcome} (h : o.isCancelled = false) :
    (o.status = .failed ↔ o.failures ≠ []) ∧ (o.status = .success ↔ o.failures = []) := by
  rw [status, h, if_neg (by simp)]
  cases o.failures <;> simp

/-- The status of a run means what it says unless the run was cancelled with nothing left, or left
something and was not cancelled. -/
theorem tellsOf_iff (o : Outcome) (left : Numbered Path) :
    o.TellsOf left ↔ (o.isCancelled = true ↔ left ≠ []) := by
  refine ⟨fun h => o.status_eq_cancelled_iff.symm.trans h.cancelled, fun h => ?_⟩
  have hrunning (hleft : left = []) : o.isCancelled = false :=
    Bool.eq_false_iff.mpr fun hcancelled => h.mp hcancelled hleft
  exact ⟨o.status_eq_cancelled_iff.trans h, fun hleft => (status_of_running (hrunning hleft)).1,
    fun hleft => (status_of_running (hrunning hleft)).2⟩

end Outcome

namespace Pool

section Unfolding

variable (policy : ErrorPolicy) (result : Path → FileResult)

/-- What happens next: a worker makes a step, or somebody outside cancels the run. The mark tells
whether somebody has done so. -/
inductive Event : Bool × Pool → Bool × Pool → Prop where
  /-- A worker takes a step. -/
  | step {asked : Bool} {p p' : Pool} (h : Step policy result p p') : Event (asked, p) (asked, p')
  /-- Someone asks for the run to be cancelled. -/
  | cancel {asked : Bool} {s : Shared} {workers : List Worker} :
      Event (asked, ⟨s, workers⟩) (true, ⟨{ s with isCancelled := true }, workers⟩)

/-- What a run comes to by any number of events. -/
def Unfolds : Bool × Pool → Bool × Pool → Prop :=
  Relation.ReflTransGen (Event policy result)

/-- Why a run is cancelled: somebody asked for it, or a root or one of the class files that are
done has failed and the policy ends the run then. -/
def HasCause (rootFailures : List ClassFailure) (done : Numbered Path) (asked : Bool) : Prop :=
  asked = true ∨ policy = .failFast ∧
    (rootFailures ≠ [] ∨ ∃ entry ∈ done, FileResult.isFailed result entry = true)

/-- What workers make of failures and of being cancelled. -/
structure Heeds (rootFailures : List ClassFailure) (files done : Numbered Path) (asked : Bool)
    (p : Pool) : Prop where
  /-- A class file is still to come or done. -/
  files_perm : files.Perm (p.pending ++ done)
  /-- There are failures once a root or a class file that is done has failed. -/
  failures : p.shared.failures ≠ [] ↔
    rootFailures ≠ [] ∨ ∃ entry ∈ done, FileResult.isFailed result entry = true
  /-- Whoever asks for it cancels the run. -/
  heard : asked = true → p.shared.isCancelled = true
  /-- Nothing else does, except a failure under the policy that ends the run. -/
  cause : p.shared.isCancelled = true → asked = true ∨ policy = .failFast ∧ p.shared.failures ≠ []
  /-- The failure that a worker has noted is among them. -/
  noted : .reporting ∈ p.workers → p.shared.failures ≠ []
  /-- Under this policy a failure has cancelled the run, or a worker is about to. -/
  failFast : policy = .failFast → p.shared.failures ≠ [] →
    p.shared.isCancelled = true ∨ .reporting ∈ p.workers
  /-- A worker stops only when the queue is empty or the run is cancelled. -/
  stopped : .stopped ∈ p.workers → p.shared.queue = [] ∨ p.shared.isCancelled = true

end Unfolding

section Heeding

variable {policy : ErrorPolicy} {result : Path → FileResult} {rootFailures : List ClassFailure}
  {files done : Numbered Path} {asked : Bool} {p p' : Pool}

/-- At the beginning no class file is done, and the roots that have failed are heeded. -/
theorem heeds_start (rootFailures : List ClassFailure) (files : List Path) (workers : Nat) :
    (start policy false rootFailures files workers).Heeds policy result rootFailures
      (files.mapIdx fun position p => (position, p)) [] false := by
  have hreading : (List.replicate workers Worker.ready).filterMap Worker.reading? = [] := by
    simp [List.filterMap_replicate, Worker.reading?]
  have hcancelled : (start policy false rootFailures files workers).shared.isCancelled = true ↔
      policy = .failFast ∧
        (start policy false rootFailures files workers).shared.failures ≠ [] := by
    simp [start]
  constructor
  · simp [start, pending, hreading]
  · simp [start]
  · exact fun h => absurd h (by simp)
  · exact fun h => Or.inr (hcancelled.mp h)
  · intro hreporting
    simp [start] at hreporting
  · exact fun hpolicy hfailures => Or.inl (hcancelled.mpr ⟨hpolicy, hfailures⟩)
  · intro hstopped
    simp [start] at hstopped

/-- A step that leaves failures and cancellation alone is heeded if no class file that it gets done
has failed. -/
theorem Heeds.of_quiet {done' : Numbered Path}
    (h : p.Heeds policy result rootFailures files done asked)
    (hfiles : files.Perm (p'.pending ++ done'))
    (hdone : (∃ entry ∈ done', FileResult.isFailed result entry = true) ↔
      ∃ entry ∈ done, FileResult.isFailed result entry = true)
    (hfailures : p'.shared.failures = p.shared.failures)
    (hcancelled : p'.shared.isCancelled = p.shared.isCancelled)
    (hnoted : .reporting ∈ p'.workers → .reporting ∈ p.workers)
    (hreporting : policy = .failFast → .reporting ∈ p.workers → .reporting ∈ p'.workers)
    (hstopped : .stopped ∈ p'.workers → p'.shared.queue = [] ∨ p.shared.isCancelled = true) :
    p'.Heeds policy result rootFailures files done' asked := by
  constructor
  · exact hfiles
  · rw [hfailures, hdone]
    exact h.failures
  · rw [hcancelled]
    exact h.heard
  · rw [hcancelled, hfailures]
    exact h.cause
  · rw [hfailures]
    exact fun hmem => h.noted (hnoted hmem)
  · rw [hcancelled, hfailures]
    exact fun hpolicy hsome => (h.failFast hpolicy hsome).imp_right (hreporting hpolicy)
  · rw [hcancelled]
    exact hstopped

variable {s s' : Shared} {before after : List Worker} {position : Nat} {path : Path}

/-- A worker that neither takes nor finishes a class file may move on. -/
theorem Heeds.moveOn {w w' : Worker}
    (h : Heeds policy result rootFailures files done asked ⟨s, before ++ w :: after⟩)
    (hreading : w.reading? = none ∧ w'.reading? = none)
    (hreporting : w' ≠ .reporting ∧ (policy = .failFast → w ≠ .reporting))
    (hqueue : s'.queue = s.queue) (hfailures : s'.failures = s.failures)
    (hcancelled : s'.isCancelled = s.isCancelled)
    (hstopped : w' = .stopped → s.queue = [] ∨ s.isCancelled = true) :
    Heeds policy result rootFailures files done asked ⟨s', before ++ w' :: after⟩ := by
  have hpending : pending ⟨s', before ++ w' :: after⟩ = pending ⟨s, before ++ w :: after⟩ :=
    (pending_eq_of_queue hqueue).trans (pending_congr hreading.2 hreading.1)
  refine h.of_quiet (hpending ▸ h.files_perm) Iff.rfl hfailures hcancelled
    (mem_workers_of_ne hreporting.1) (fun hpolicy => mem_workers_of_ne (hreporting.2 hpolicy))
    fun hmem => ?_
  change s'.queue = [] ∨ s.isCancelled = true
  rw [hqueue]
  by_cases hw' : w' = .stopped
  · exact hstopped hw'
  · exact h.stopped (mem_workers_of_ne hw' hmem)

/-- A class file that a worker has finished reading is done. -/
theorem Heeds.files_perm_read {w : Worker}
    (h : Heeds policy result rootFailures files done asked
      ⟨s, before ++ .reading position path :: after⟩)
    (hw : w.reading? = none) (hqueue : s'.queue = s.queue) :
    files.Perm (pending ⟨s', before ++ w :: after⟩ ++ (done ++ [(position, path)])) := by
  rw [pending_eq_of_queue hqueue]
  exact perm_of_done h.files_perm (pending_reading position path hw)

/-- A class file that has not failed is done. -/
theorem Heeds.readWell {w : Worker}
    (h : Heeds policy result rootFailures files done asked
      ⟨s, before ++ .reading position path :: after⟩)
    (hwell : FileResult.isFailed result (position, path) = false)
    (hw : w.reading? = none) (hgoesOn : w ≠ .stopped ∧ w ≠ .reporting) (hqueue : s'.queue = s.queue)
    (hfailures : s'.failures = s.failures) (hcancelled : s'.isCancelled = s.isCancelled) :
    Heeds policy result rootFailures files (done ++ [(position, path)]) asked
      ⟨s', before ++ w :: after⟩ := by
  refine h.of_quiet (h.files_perm_read hw hqueue) ?_ hfailures hcancelled
    (mem_workers_of_ne hgoesOn.2) (fun _ => mem_workers_of_ne (by simp)) fun hmem => ?_
  · simp [or_and_right, exists_or, hwell]
  · change s'.queue = [] ∨ s.isCancelled = true
    rw [hqueue]
    exact h.stopped (mem_workers_of_ne hgoesOn.1 hmem)

/-- A class file that has failed is done, and its failure noted by a worker that is about to see
what the policy makes of it. -/
theorem Heeds.noteFailure {failure : ClassFailure}
    (h : Heeds policy result rootFailures files done asked
      ⟨s, before ++ .reading position path :: after⟩)
    (hresult : result path = .failed failure) :
    Heeds policy result rootFailures files (done ++ [(position, path)]) asked
      ⟨{ s with failures := s.failures ++ [(position, failure)] },
        before ++ .reporting :: after⟩ := by
  constructor
  · exact h.files_perm_read rfl rfl
  · have hfailed : FileResult.isFailed result (position, path) = true := by
      simp [FileResult.isFailed, hresult]
    exact ⟨fun _ => Or.inr ⟨(position, path), by simp, hfailed⟩, fun _ => by simp⟩
  · exact h.heard
  · intro hcancelled
    exact (h.cause hcancelled).imp_right fun hpolicy => ⟨hpolicy.1, by simp⟩
  · exact fun _ => by simp
  · exact fun _ _ => Or.inr (by simp)
  · exact fun hmem => h.stopped (mem_workers_of_ne (by simp) hmem)

/-- A worker that has noted a failure cancels the run if the policy says so. -/
theorem Heeds.endRun (h : Heeds policy result rootFailures files done asked
      ⟨s, before ++ .reporting :: after⟩)
    (hpolicy : policy = .failFast) :
    Heeds policy result rootFailures files done asked
      ⟨{ s with isCancelled := true }, before ++ .ready :: after⟩ := by
  have hfailures : s.failures ≠ [] := h.noted (by simp)
  constructor
  · exact h.files_perm.trans (List.Perm.of_eq (congrArg (· ++ done) (pending_congr rfl rfl)))
  · exact h.failures
  · exact fun _ => rfl
  · exact fun _ => Or.inr ⟨hpolicy, hfailures⟩
  · exact fun _ => hfailures
  · exact fun _ _ => Or.inl rfl
  · exact fun _ => Or.inr rfl

/-- Whoever cancels a run from outside is heeded. -/
theorem Heeds.cancel {workers : List Worker}
    (h : Heeds policy result rootFailures files done asked ⟨s, workers⟩) :
    Heeds policy result rootFailures files done true
      ⟨{ s with isCancelled := true }, workers⟩ :=
  ⟨h.files_perm, h.failures, fun _ => rfl, fun _ => Or.inl rfl, h.noted,
    fun _ _ => Or.inl rfl, fun _ => Or.inr rfl⟩

/-- Every step of a worker heeds failures and being cancelled. -/
theorem Heeds.step (h : p.Heeds policy result rootFailures files done asked)
    (hstep : Step policy result p p') :
    ∃ done', p'.Heeds policy result rootFailures files done' asked := by
  obtain @⟨s, s', w, w', before, after, hworker⟩ := hstep
  cases hworker with
  | goOn | retry | store =>
    exact ⟨done, h.moveOn ⟨rfl, rfl⟩ (by simp) rfl rfl rfl (by simp)⟩
  | cancelled hcancelled =>
    exact ⟨done, h.moveOn ⟨rfl, rfl⟩ (by simp) rfl rfl rfl fun _ => Or.inr hcancelled⟩
  | empty hempty =>
    exact ⟨done, h.moveOn ⟨rfl, rfl⟩ (by simp) rfl rfl rfl fun _ => Or.inl hempty⟩
  | collect hpolicy =>
    exact ⟨done, h.moveOn ⟨rfl, rfl⟩ (by simp [hpolicy]) rfl rfl rfl (by simp)⟩
  | failFast hpolicy => exact ⟨done, h.endRun hpolicy⟩
  | take hqueue =>
    refine ⟨done, h.of_quiet (h.files_perm.trans ((pending_take hqueue).append_right done))
      Iff.rfl rfl rfl (mem_workers_of_ne (by simp)) (fun _ => mem_workers_of_ne (by simp))
      fun hmem => ?_⟩
    exact (h.stopped (mem_workers_of_ne (by simp) hmem)).imp_left fun hnone => by
      simp [hqueue] at hnone
  | fail hresult => exact ⟨_, h.noteFailure hresult⟩
  | skip hresult | count hresult =>
    exact ⟨_, h.readWell (by simp [FileResult.isFailed, hresult]) rfl (by simp) rfl rfl rfl⟩

/-- Failures and being cancelled are heeded all the way. -/
theorem Heeds.unfolds {here there : Bool × Pool}
    (h : here.2.Heeds policy result rootFailures files done here.1)
    (hunfolds : Unfolds policy result here there) :
    ∃ done', there.2.Heeds policy result rootFailures files done' there.1 := by
  induction hunfolds with
  | refl => exact ⟨done, h⟩
  | tail _ hevent ih =>
    obtain ⟨done', h'⟩ := ih
    cases hevent with
    | step hstep => exact h'.step hstep
    | cancel => exact ⟨done', h'.cancel⟩

/-- At the end a class file is in the queue or done. The run was cancelled exactly if there was a
cause, and the queue is empty unless it was. -/
theorem Heeds.at_end (h : p.Heeds policy result rootFailures files done asked)
    (hworkers : p.workers ≠ []) (hfinished : p.IsFinished) :
    files.Perm (p.shared.queue ++ done) ∧
      (p.shared.isCancelled = true ↔ HasCause policy result rootFailures done asked) ∧
      (p.shared.queue ≠ [] → p.shared.isCancelled = true) := by
  have hpending : p.pending = p.shared.queue := by
    rw [pending, hfinished.reading_eq_nil, List.append_nil]
  refine ⟨hpending ▸ h.files_perm, ?_, fun hqueue => ?_⟩
  · rw [HasCause, ← h.failures]
    refine ⟨h.cause, fun hcause => ?_⟩
    rcases hcause with hasked | ⟨hpolicy, hfailures⟩
    · exact h.heard hasked
    · rcases h.failFast hpolicy hfailures with hcancelled | hreporting
      · exact hcancelled
      · exact absurd (hfinished _ hreporting) (by simp)
  · obtain ⟨w, hw⟩ := List.exists_mem_of_ne_nil _ hworkers
    have hstopped : .stopped ∈ p.workers := hfinished w hw ▸ hw
    exact (h.stopped hstopped).resolve_left hqueue

/-- A step of a lone worker, put in front of what follows it. -/
theorem Reaches.headAlone {s s' : Shared} {w w' : Worker}
    (hworker : Worker.Step policy result s w s' w')
    (hreaches : Reaches policy result ⟨s', [w']⟩ p) : Reaches policy result ⟨s, [w]⟩ p :=
  @Reaches.head policy result [] [] s s' w w' p hworker hreaches

/-- No worker comes or goes, whatever happens. -/
theorem Unfolds.length_workers {here there : Bool × Pool}
    (hunfolds : Unfolds policy result here there) :
    there.2.workers.length = here.2.workers.length := by
  induction hunfolds with
  | refl => rfl
  | tail _ hevent ih =>
    cases hevent with
    | step hstep => exact hstep.length_workers.trans ih
    | cancel => exact ih

end Heeding

end Pool

namespace Reporter

variable {r : Reporter} {tree : FileTree}

/-- What a reporter makes of what its workers have collected, given a listing of the resolved
files. -/
def outcomeOf (r : Reporter) (tree : FileTree) (p : Pool) (listing : BySource) : Outcome :=
  p.shared.assemble r.config.accounting
    (Discovery.ofRoots tree r.config.classRoots).files.length listing

/-- A run that takes class files one by one is cancelled if there is a failure and the policy ends
the run then. -/
theorem run_isCancelled_iff (hfresh : r.isCancelled = false) (tree : FileTree) :
    (r.run tree).1.isCancelled = true ↔ r.config.errorPolicy = .failFast ∧
      ((Discovery.ofRoots tree r.config.classRoots).failures ≠ [] ∨
        ∃ p ∈ (Discovery.ofRoots tree r.config.classRoots).files, r.fails tree p = true) := by
  cases hpolicy : r.config.errorPolicy with
  | collectAll =>
    rw [run_collectAll tree hpolicy hfresh]
    simp [Outcome.assemble]
  | failFast =>
    rw [run_eq_runOn, runOn_failFast_eq hpolicy hfresh]
    simp [Outcome.assemble]

/-- The status of a run that was not cancelled before it began, whatever the policy is and whenever
somebody cancels it. One that takes class files in turn ends cancelled exactly if a failure ends it,
be it the last one. Several workers can always get to their end. Then the run was cancelled exactly
if somebody has cancelled it or a failure has; so it was if class files are left, and if it was not
the failures decide. The status means what it says unless the run was cancelled and nothing is
left. -/
theorem status_tellsOf_iff {workers : Nat} {asked : Bool} {p : Pool}
    (hfresh : r.isCancelled = false) (hworkers : 0 < workers)
    (hunfolds : Pool.Unfolds r.config.errorPolicy (r.resultOf tree)
      (false, r.pool tree workers) (asked, p)) :
    ((r.run tree).1.status = .cancelled ↔ r.config.errorPolicy = .failFast ∧
      ((Discovery.ofRoots tree r.config.classRoots).failures ≠ [] ∨
        ∃ q ∈ (Discovery.ofRoots tree r.config.classRoots).files, r.fails tree q = true)) ∧
    (∃ p', Pool.Unfolds r.config.errorPolicy (r.resultOf tree) (asked, p) (asked, p') ∧
      p'.IsFinished) ∧
    (p.IsFinished → ∃ done : Numbered Path,
      ((Discovery.ofRoots tree r.config.classRoots).files.mapIdx fun position q =>
        (position, q)).Perm (p.shared.queue ++ done) ∧
      ∀ listing : BySource,
        ((r.outcomeOf tree p listing).status = .cancelled ↔
          Pool.HasCause r.config.errorPolicy (r.resultOf tree)
            (Discovery.ofRoots tree r.config.classRoots).failures done asked) ∧
        (p.shared.queue ≠ [] → (r.outcomeOf tree p listing).status = .cancelled) ∧
        ((r.outcomeOf tree p listing).status ≠ .cancelled →
          ((r.outcomeOf tree p listing).status = .failed ↔
            (r.outcomeOf tree p listing).failures ≠ []) ∧
          ((r.outcomeOf tree p listing).status = .success ↔
            (r.outcomeOf tree p listing).failures = [])) ∧
        ((r.outcomeOf tree p listing).TellsOf p.shared.queue ↔
          ¬(p.shared.queue = [] ∧ Pool.HasCause r.config.errorPolicy (r.resultOf tree)
            (Discovery.ofRoots tree r.config.classRoots).failures done asked))) := by
  refine ⟨(Outcome.status_eq_cancelled_iff _).trans (run_isCancelled_iff hfresh tree), ?_,
    fun hfinished => ?_⟩
  · obtain ⟨p', hreaches, hfinished⟩ := Pool.exists_reaches_isFinished r.config.errorPolicy
      (r.resultOf tree) p
    exact ⟨p', hreaches.lift (asked, ·) fun _ _ => .step, hfinished⟩
  have hstart : (r.pool tree workers).Heeds r.config.errorPolicy (r.resultOf tree)
      (Discovery.ofRoots tree r.config.classRoots).failures
      ((Discovery.ofRoots tree r.config.classRoots).files.mapIdx fun position q => (position, q))
      [] false := by
    rw [pool, hfresh]
    exact Pool.heeds_start _ _ workers
  obtain ⟨done, hheeds⟩ := hstart.unfolds hunfolds
  have hworking : p.workers ≠ [] := by
    have hlength : p.workers.length = workers :=
      hunfolds.length_workers.trans List.length_replicate
    exact List.ne_nil_of_length_pos (hlength ▸ hworkers)
  obtain ⟨hfiles, hcause, hleft⟩ := hheeds.at_end hworking hfinished
  refine ⟨done, hfiles, fun listing => ?_⟩
  have hstatus : (r.outcomeOf tree p listing).status = .cancelled ↔ p.shared.isCancelled = true :=
    Outcome.status_eq_cancelled_iff _
  refine ⟨hstatus.trans hcause, fun hqueue => hstatus.mpr (hleft hqueue), fun hstill => ?_, ?_⟩
  · refine Outcome.status_of_running ?_
    rw [Ne, hstatus, Bool.not_eq_true] at hstill
    exact hstill
  · rw [Outcome.tellsOf_iff, ← hcause]
    change (p.shared.isCancelled = true ↔ p.shared.queue ≠ []) ↔ _
    tauto

/-- Two workers and two class files that fail. The run is cancelled before a worker has begun. -/
theorem status_tellsOf_iff_twoClasses : hasty.isCancelled = false ∧ 0 < 2 ∧ ∃ p,
    Pool.Unfolds hasty.config.errorPolicy (hasty.resultOf twoClasses)
      (false, hasty.pool twoClasses 2) (true, p) ∧ p.IsFinished ∧
    ∀ listing, (hasty.outcomeOf twoClasses p listing).status = .cancelled ∧
      ((hasty.outcomeOf twoClasses p listing).TellsOf p.shared.queue ↔ p.shared.queue ≠ []) := by
  have hcancel : Pool.Unfolds hasty.config.errorPolicy (hasty.resultOf twoClasses)
      (false, hasty.pool twoClasses 2) (true, { hasty.pool twoClasses 2 with
        shared := { (hasty.pool twoClasses 2).shared with isCancelled := true } }) :=
    .single .cancel
  obtain ⟨-, ⟨p, hunfolds, hfinished⟩, -⟩ := status_tellsOf_iff rfl (by decide : 0 < 2) hcancel
  have hall := Relation.ReflTransGen.trans hcancel hunfolds
  obtain ⟨-, -, hend⟩ := status_tellsOf_iff rfl (by decide : 0 < 2) hall
  obtain ⟨done, -, hstatus⟩ := hend hfinished
  refine ⟨rfl, by decide, p, hall, hfinished, fun listing => ?_⟩
  obtain ⟨hcancelled, -, -, htells⟩ := hstatus listing
  exact ⟨hcancelled.mpr (Or.inl rfl), htells.trans (not_congr (and_iff_left (Or.inl rfl)))⟩

/-- The only class file of a tree is found. -/
theorem discovery_oneClass :
    Discovery.ofRoots oneClass hasty.config.classRoots = ⟨[⟨"c/B.class"⟩], []⟩ := by
  have hplain : (Path.mk "c").text.isEmpty = false ∧ (Path.mk "c").isTooLong = false ∧
      (Path.mk "c").isAbsolute = false := by decide +kernel
  have hfind : oneClass.find ⟨"c"⟩ = .ok (.directory [("B.class", .file [])]) :=
    FileTree.find_eq_follow (by simp) hplain (by decide +kernel : _ = ["c"])
  have hfound : oneClass.findingsBelow ⟨"c"⟩ = [.file ⟨"c/B.class"⟩] := by
    rw [FileTree.findingsBelow, hfind]
    simp only [FileTree.findingsAt, hplain.2.1, FileTree.findingsAmong]
    decide +kernel
  have hclass : Discovery.isClassFile ⟨"c/B.class"⟩ = true := by decide +kernel
  simp [Discovery.ofRoots, hasty, hfound, FileTree.Finding.file?, FileTree.Finding.fault?, hclass,
    Discovery.withoutRepeats]

/-- A run that ends with its only class file, which fails, is said to be cancelled, though it has
left none. -/
theorem status_cancelled_nothingLeft :
    (hasty.run oneClass).1.status = .cancelled ∧ ∃ p,
      Pool.Unfolds hasty.config.errorPolicy (hasty.resultOf oneClass)
        (false, hasty.pool oneClass 1) (false, p) ∧ p.IsFinished ∧
      p.shared.queue = [] ∧ ∀ listing, (hasty.outcomeOf oneClass p listing).status = .cancelled ∧
        ¬(hasty.outcomeOf oneClass p listing).TellsOf p.shared.queue := by
  have hfind : oneClass.find ⟨"c/B.class"⟩ = .ok (.file []) :=
    FileTree.find_eq_follow (by simp) (by decide +kernel)
      (by decide +kernel : _ = ["c", "B.class"])
  have hfails : hasty.fails oneClass ⟨"c/B.class"⟩ = true := by
    rw [fails, ClassFile.read, FileTree.read, hfind]
    rfl
  obtain ⟨failure, hresult⟩ :
      ∃ failure, hasty.resultOf oneClass ⟨"c/B.class"⟩ = .failed failure := by
    rw [← isFailed_resultOf hasty oneClass (0, ⟨"c/B.class"⟩), FileResult.isFailed] at hfails
    cases hresult : hasty.resultOf oneClass ⟨"c/B.class"⟩ with
    | failed failure => exact ⟨failure, rfl⟩
    | _ => simp [hresult] at hfails
  have hpool : hasty.pool oneClass 1
      = Pool.start .failFast false [] [⟨"c/B.class"⟩] 1 := by
    rw [pool, discovery_oneClass]
    rfl
  let noted : Shared := { queue := [], failures := [(0, failure)] }
  have hreaches : Pool.Reaches .failFast (hasty.resultOf oneClass) (hasty.pool oneClass 1)
      ⟨{ noted with isCancelled := true }, [.stopped]⟩ := by
    rw [hpool]
    have hqueue : [(0, Path.mk "c/B.class")] = [] ++ (0, Path.mk "c/B.class") :: [] := rfl
    exact .headAlone (.goOn rfl) <| .headAlone (.take hqueue) <| .headAlone (.fail hresult) <|
      .headAlone (.failFast rfl) <| .headAlone (.cancelled rfl) .refl
  refine ⟨?_, _, hreaches.lift (false, ·) fun _ _ => .step, ?_, rfl, fun listing => ⟨rfl, ?_⟩⟩
  · rw [Outcome.status_eq_cancelled_iff, run_isCancelled_iff rfl, discovery_oneClass]
    exact ⟨rfl, Or.inr ⟨_, List.mem_singleton_self _, hfails⟩⟩
  · exact fun w hw => List.mem_singleton.mp hw
  · exact fun htells => htells.cancelled.mp rfl rfl

end Reporter

end LineAtlas
