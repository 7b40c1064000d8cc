import AmlSubtitle.Lib.Held
import AmlSubtitle.Lib.Run

/-!
# `ai_translation/SubtitleWorkerThread.cpp`: the job queue of the worker

Any number of threads call `QueueJob`, `ClearJobQueue` and `Stop`, and the worker thread runs
the jobs.  A step is a locked section, a check of `mRunThread`, or one operation on a list of
jobs.  `ClearJobQueue` swaps the queue out under the lock, deletes what it swapped out, and
then clears the queue a second time, behind the lock and without deleting anything.

* `accepted`, `executed`, `discarded` and `deleted` are the history; no step reads them,
  except that a job is named by the number of jobs accepted before it.
* `Kept`: where every accepted job is.
* `kept_iff`: the runs in which no job is lost are those whose second clear always finds the
  queue empty.
-/

namespace AmlSubtitle
namespace SubtitleWorkerThread

/-- A job, by its number in the order of acceptance.  The job `Stop` queues is one that sets
`mRunThread` to false. -/
structure Job where
  id : ℕ
  stops : Bool
  deriving DecidableEq, Repr

/-- Where the worker is in `run`. -/
inductive Worker where
  /-- in front of the lock, at the start -/
  | starting
  /-- in `mJobQueuedCondition.wait` -/
  | waiting
  /-- behind the lock, with a job taken off the queue -/
  | executing (job : Job)
  /-- the job has been executed and not been deleted -/
  | executed (job : Job)
  /-- in front of the lock again -/
  | finishing
  /-- `run` has returned -/
  | exited
  deriving DecidableEq, Repr

/-- Where a calling thread is.  `begun` is the number of jobs that had been accepted when the
call of `ClearJobQueue` began. -/
inductive Caller where
  | idle
  /-- in `QueueJob`, behind its check of `mRunThread`; `checked` says that the check of
  `queueJob` has passed as well, and `stops` that the caller is `Stop` -/
  | queueing (stops checked : Bool)
  /-- in `mThread.join` -/
  | joining
  /-- in `ClearJobQueue`, behind the lock -/
  | swapped (pendingJobs : List Job) (begun : ℕ) (waitForCurrentJob : Bool)
  /-- in the loop that deletes the pending jobs -/
  | deleting (pendingJobs : List Job) (begun : ℕ)
  deriving DecidableEq, Repr

structure State where
  mRunThread : Bool
  mJobQueue : List Job
  mProcessingJob : Bool
  worker : Worker
  callers : List Caller
  accepted : List Job
  executed : List Job
  discarded : List (Job × ℕ)
  deleted : List Job
  deriving DecidableEq, Repr

/-- The thread has just been started, and `n` threads know of it. -/
def create (n : ℕ) : State where
  mRunThread := true
  mJobQueue := []
  mProcessingJob := false
  worker := .starting
  callers := List.replicate n .idle
  accepted := []
  executed := []
  discarded := []
  deleted := []

/-- A step: of the caller `i`, or of the worker. -/
inductive Event where
  | queueJob (i : ℕ)
  | clearJobQueue (i : ℕ) (waitForCurrentJob : Bool)
  | stop (i : ℕ)
  /-- the check of `mRunThread` in `queueJob` -/
  | recheck (i : ℕ)
  /-- the locked section of `queueJob` -/
  | push (i : ℕ)
  /-- `mThread.join` returns -/
  | join (i : ℕ)
  /-- `WaitForCompletion`, where it is called, returns -/
  | waited (i : ℕ)
  /-- a pending job is deleted -/
  | delete (i : ℕ)
  /-- `mJobQueue.clear()` -/
  | clear (i : ℕ)
  | work
  deriving DecidableEq, Repr

namespace State

def setCaller (s : State) (i : ℕ) (c : Caller) : State := { s with callers := s.callers.set i c }

/-- The first locked section of `ClearJobQueue`. -/
def beginClear (s : State) (i : ℕ) (waitForCurrentJob : Bool) : State :=
  { s with mJobQueue := [] }.setCaller i
    (.swapped s.mJobQueue s.accepted.length waitForCurrentJob)

/-- The condition of the loop of `WaitForCompletion`. -/
def Busy (s : State) : Prop := (s.mJobQueue ≠ [] ∨ s.mProcessingJob) ∧ s.mRunThread

instance (s : State) : Decidable s.Busy := inferInstanceAs (Decidable (_ ∧ _))

/-- The worker holds the lock and takes the job in front, or waits for one. -/
def take (s : State) : State :=
  match s.mJobQueue with
  | [] => { s with worker := .waiting }
  | job :: rest =>
    { s with mJobQueue := rest, mProcessingJob := true, worker := .executing job }

/-- The worker holds the lock, at the head of its loop. -/
def loop (s : State) : State := if s.mRunThread then s.take else { s with worker := .exited }

/-- The worker's next step. -/
def work (s : State) : State :=
  match s.worker with
  | .starting => s.loop
  | .waiting => s.take
  | .executing job =>
    { s with
      mRunThread := s.mRunThread && !job.stops
      worker := .executed job
      executed := s.executed ++ [job] }
  | .executed job => { s with worker := .finishing, deleted := s.deleted ++ [job] }
  | .finishing => { s with mProcessingJob := false }.loop
  | .exited => s

/-- The step of the caller `i`, which is at `c`.  A step that is not possible there leaves the
state alone. -/
def call (s : State) (i : ℕ) (c : Caller) : Event → State
  | .queueJob _ =>
    if c = .idle ∧ s.mRunThread then s.setCaller i (.queueing false false) else s
  | .clearJobQueue _ waitForCurrentJob =>
    if c = .idle then s.beginClear i waitForCurrentJob else s
  | .stop _ =>
    if c = .idle then
      if s.mRunThread then s.setCaller i (.queueing true false) else s.beginClear i false
    else
      s
  | .recheck _ =>
    match c with
    | .queueing stops false =>
      if s.mRunThread then
        s.setCaller i (.queueing stops true)
      else
        s.setCaller i (if stops then .joining else .idle)
    | _ => s
  | .push _ =>
    match c with
    | .queueing stops true =>
      let job : Job := ⟨s.accepted.length, stops⟩
      { s with mJobQueue := s.mJobQueue ++ [job], accepted := s.accepted ++ [job] }.setCaller i
        (if stops then .joining else .idle)
    | _ => s
  | .join _ => if c = .joining ∧ s.worker = .exited then s.beginClear i false else s
  | .waited _ =>
    match c with
    | .swapped pendingJobs begun waitForCurrentJob =>
      if waitForCurrentJob ∧ s.Busy then s else s.setCaller i (.deleting pendingJobs begun)
    | _ => s
  | .delete _ =>
    match c with
    | .deleting (job :: pendingJobs) begun =>
      { s with
        discarded := s.discarded ++ [(job, begun)]
        deleted := s.deleted ++ [job] }.setCaller i (.deleting pendingJobs begun)
    | _ => s
  | .clear _ =>
    match c with
    | .deleting [] _ => { s with mJobQueue := [] }.setCaller i .idle
    | _ => s
  | .work => s

end State

/-- The caller an event is a step of. -/
def Event.caller : Event → Option ℕ
  | .queueJob i | .clearJobQueue i _ | .stop i | .recheck i | .push i | .join i | .waited i
  | .delete i | .clear i => some i
  | .work => none

def step (s : State) (e : Event) : State :=
  match e.caller with
  | none => s.work
  | some i =>
    match s.callers[i]? with
    | none => s
    | some c => s.call i c e

/-! ## Where the jobs are -/

/-- The job the worker has taken and not executed yet. -/
def Worker.inHand : Worker → List Job
  | .executing job => [job]
  | _ => []

/-- The job the worker has executed and not deleted yet. -/
def Worker.undeleted : Worker → List Job
  | .executed job => [job]
  | _ => []

/-- The jobs a call of `ClearJobQueue` has swapped out and not deleted yet. -/
def Caller.pendingJobs : Caller → List Job
  | .swapped pendingJobs _ _ => pendingJobs
  | .deleting pendingJobs _ => pendingJobs
  | _ => []

/-- The number of jobs that had been accepted when the call began. -/
def Caller.begun : Caller → ℕ
  | .swapped _ begun _ => begun
  | .deleting _ begun => begun
  | _ => 0

namespace State

def pendingJobs (s : State) : List Job := s.callers.flatMap Caller.pendingJobs

def discardedJobs (s : State) : List Job := s.discarded.map Prod.fst

end State

/-- No job is lost, none is executed twice or out of order, and what has been executed or
discarded has been deleted once. -/
structure Kept (s : State) : Prop where
  accounted : ∀ job, s.accepted.count job =
    s.executed.count job + s.worker.inHand.count job + s.mJobQueue.count job +
      s.pendingJobs.count job + s.discardedJobs.count job
  ordered : (s.executed ++ (s.worker.inHand ++ s.mJobQueue)).Sublist s.accepted
  numbered : s.accepted.map Job.id = List.range s.accepted.length
  /-- a job that is swapped out was accepted before the call began -/
  before : ∀ c ∈ s.callers, ∀ job ∈ c.pendingJobs, job.id < c.begun
  /-- a job that was discarded was accepted before the call that discarded it began -/
  discardedBefore : ∀ d ∈ s.discarded, d.1.id < d.2
  deletedOnce : ∀ job, s.deleted.count job + s.worker.undeleted.count job =
    s.executed.count job + s.discardedJobs.count job

theorem kept_create (n : ℕ) : Kept (create n) where
  accounted job := by
    have hpending : (create n).pendingJobs = [] := Held.flatMap_replicate_nil rfl n
    rw [hpending]
    rfl
  ordered := List.Sublist.refl _
  numbered := rfl
  before c hc job hjob := by
    rw [List.eq_of_mem_replicate hc] at hjob
    cases hjob
  discardedBefore d hd := by cases hd
  deletedOnce job := rfl

namespace Kept

variable {s : State} {i : ℕ} {c : Caller}

theorem id_lt (h : Kept s) {job : Job} (hjob : job ∈ s.accepted) : job.id < s.accepted.length := by
  have hid : job.id ∈ s.accepted.map Job.id := List.mem_map_of_mem hjob
  rw [h.numbered] at hid
  exact List.mem_range.mp hid

theorem mem_accepted_of_mem_queue (h : Kept s) {job : Job} (hjob : job ∈ s.mJobQueue) :
    job ∈ s.accepted :=
  h.ordered.subset (List.mem_append_right _ (List.mem_append_right _ hjob))

/-! ## The steps of the worker -/

theorem take (h : Kept s) (hhand : s.worker.inHand = []) (hundeleted : s.worker.undeleted = []) :
    Kept s.take := by
  have haccounted := h.accounted
  have hordered := h.ordered
  have hdeleted := h.deletedOnce
  rw [hhand] at haccounted hordered
  rw [hundeleted] at hdeleted
  unfold State.take
  split
  · exact ⟨haccounted, hordered, h.numbered, h.before, h.discardedBefore, hdeleted⟩
  · rename_i job rest hqueue
    refine ⟨fun job' => ?_, ?_, h.numbered, h.before, h.discardedBefore, hdeleted⟩
    · have hjob := haccounted job'
      rw [hqueue] at hjob
      have hcons : (job :: rest).count job' = [job].count job' + rest.count job' := by
        rw [← List.count_append, List.singleton_append]
      rw [hcons] at hjob
      have hnil : ([] : List Job).count job' = 0 := List.count_nil
      show s.accepted.count job' = s.executed.count job' + [job].count job' + rest.count job' +
        s.pendingJobs.count job' + s.discardedJobs.count job'
      omega
    · rw [hqueue] at hordered
      exact hordered

theorem loop (h : Kept s) (hhand : s.worker.inHand = []) (hundeleted : s.worker.undeleted = []) :
    Kept s.loop := by
  unfold State.loop
  split
  · exact h.take hhand hundeleted
  · have haccounted := h.accounted
    have hordered := h.ordered
    have hdeleted := h.deletedOnce
    rw [hhand] at haccounted hordered
    rw [hundeleted] at hdeleted
    exact ⟨haccounted, hordered, h.numbered, h.before, h.discardedBefore, hdeleted⟩

theorem work (h : Kept s) : Kept s.work := by
  have haccounted := h.accounted
  have hordered := h.ordered
  have hdeleted := h.deletedOnce
  unfold State.work
  split
  · rename_i hworker
    exact h.loop (by rw [hworker]; rfl) (by rw [hworker]; rfl)
  · rename_i hworker
    exact h.take (by rw [hworker]; rfl) (by rw [hworker]; rfl)
  · rename_i job hworker
    rw [hworker] at haccounted hordered hdeleted
    refine ⟨fun job' => ?_, ?_, h.numbered, h.before, h.discardedBefore, fun job' => ?_⟩
    · have hjob := haccounted job'
      show s.accepted.count job' = (s.executed ++ [job]).count job' + [].count job' +
        s.mJobQueue.count job' + s.pendingJobs.count job' + s.discardedJobs.count job'
      rw [List.count_append, List.count_nil]
      exact hjob
    · show ((s.executed ++ [job]) ++ ([] ++ s.mJobQueue)).Sublist s.accepted
      rw [List.nil_append, List.append_assoc]
      exact hordered
    · have hjob := hdeleted job'
      have hnil : Worker.undeleted (.executing job) = [] := rfl
      rw [hnil, List.count_nil] at hjob
      show s.deleted.count job' + [job].count job' =
        (s.executed ++ [job]).count job' + s.discardedJobs.count job'
      rw [List.count_append]
      omega
  · rename_i job hworker
    rw [hworker] at haccounted hordered hdeleted
    refine ⟨haccounted, hordered, h.numbered, h.before, h.discardedBefore, fun job' => ?_⟩
    show (s.deleted ++ [job]).count job' + [].count job' = _
    rw [List.count_append, List.count_nil]
    exact hdeleted job'
  · rename_i hworker
    have hfinished : Kept { s with mProcessingJob := false } :=
      ⟨h.accounted, h.ordered, h.numbered, h.before, h.discardedBefore, h.deletedOnce⟩
    exact hfinished.loop (by rw [hworker]; rfl) (by rw [hworker]; rfl)
  · exact h

/-! ## The steps of the callers -/

theorem before_of_getElem? (h : Kept s) (hc : s.callers[i]? = some c) :
    ∀ job ∈ c.pendingJobs, job.id < c.begun :=
  h.before c (List.mem_of_getElem? hc)

/-- A caller that holds the same jobs. -/
theorem setCaller (h : Kept s) (hc : s.callers[i]? = some c) {c' : Caller}
    (hjobs : c'.pendingJobs = c.pendingJobs) (hbefore : ∀ job ∈ c'.pendingJobs, job.id < c'.begun) :
    Kept (s.setCaller i c') := by
  refine ⟨fun job => ?_, h.ordered, h.numbered, Held.forall_mem_set h.before hbefore,
    h.discardedBefore, h.deletedOnce⟩
  have hpending : (s.setCaller i c').pendingJobs.count job = s.pendingJobs.count job :=
    Held.count_flatMap_set_of_eq Caller.pendingJobs hc hjobs job
  rw [hpending]
  exact h.accounted job

/-- A caller that holds no job, before and after. -/
theorem setCaller_of_nil (h : Kept s) (hc : s.callers[i]? = some c) {c' : Caller}
    (hjobs : c.pendingJobs = []) (hjobs' : c'.pendingJobs = []) : Kept (s.setCaller i c') :=
  h.setCaller hc (hjobs'.trans hjobs.symm) fun job hjob => by
    rw [hjobs'] at hjob
    cases hjob

theorem beginClear (h : Kept s) (hc : s.callers[i]? = some c) (hjobs : c.pendingJobs = [])
    (waitForCurrentJob : Bool) : Kept (s.beginClear i waitForCurrentJob) := by
  refine ⟨fun job => ?_, ?_, h.numbered, Held.forall_mem_set h.before fun job hjob => ?_,
    h.discardedBefore, h.deletedOnce⟩
  · have hpending : (s.beginClear i waitForCurrentJob).pendingJobs.count job +
        c.pendingJobs.count job = s.pendingJobs.count job + s.mJobQueue.count job :=
      Held.count_flatMap_set Caller.pendingJobs hc _ job
    have hjob := h.accounted job
    rw [hjobs, List.count_nil] at hpending
    show s.accepted.count job = s.executed.count job + s.worker.inHand.count job + [].count job +
      (s.beginClear i waitForCurrentJob).pendingJobs.count job + s.discardedJobs.count job
    rw [List.count_nil]
    omega
  · show (s.executed ++ (s.worker.inHand ++ [])).Sublist s.accepted
    rw [List.append_nil]
    refine List.Sublist.trans ?_ h.ordered
    rw [← List.append_assoc]
    exact List.sublist_append_left _ _
  · exact h.id_lt (h.mem_accepted_of_mem_queue hjob)

/-- A job is accepted. -/
theorem accept (h : Kept s) (stops : Bool) :
    Kept { s with
      mJobQueue := s.mJobQueue ++ [⟨s.accepted.length, stops⟩]
      accepted := s.accepted ++ [⟨s.accepted.length, stops⟩] } := by
  refine ⟨fun job => ?_, ?_, ?_, h.before, h.discardedBefore, h.deletedOnce⟩
  · have hjob := h.accounted job
    show (s.accepted ++ [_]).count job = s.executed.count job + s.worker.inHand.count job +
      (s.mJobQueue ++ [_]).count job + s.pendingJobs.count job + s.discardedJobs.count job
    rw [List.count_append, List.count_append]
    omega
  · show (s.executed ++ (s.worker.inHand ++ (s.mJobQueue ++ [_]))).Sublist (s.accepted ++ [_])
    rw [← List.append_assoc, ← List.append_assoc, List.append_assoc s.executed]
    exact h.ordered.append (List.Sublist.refl _)
  · show (s.accepted ++ [_]).map Job.id = List.range (s.accepted ++ [_]).length
    rw [List.map_append, h.numbered, List.length_append, List.length_singleton, List.range_succ]
    rfl

/-- A pending job is deleted. -/
theorem delete (h : Kept s) {job : Job} {pendingJobs : List Job} {begun : ℕ}
    (hc : s.callers[i]? = some (.deleting (job :: pendingJobs) begun)) :
    Kept ({ s with
      discarded := s.discarded ++ [(job, begun)]
      deleted := s.deleted ++ [job] }.setCaller i (.deleting pendingJobs begun)) := by
  have hbefore := h.before_of_getElem? hc
  refine ⟨fun job' => ?_, h.ordered, h.numbered, Held.forall_mem_set h.before fun job' hjob' =>
    hbefore job' (List.mem_cons_of_mem _ hjob'), fun d hd => ?_, fun job' => ?_⟩
  · have hpending := Held.count_flatMap_set Caller.pendingJobs hc (.deleting pendingJobs begun) job'
    have hcons : (Caller.deleting (job :: pendingJobs) begun).pendingJobs.count job' =
        [job].count job' + pendingJobs.count job' := by
      rw [← List.count_append, List.singleton_append, Caller.pendingJobs]
    have hjob := h.accounted job'
    rw [hcons] at hpending
    show s.accepted.count job' = s.executed.count job' + s.worker.inHand.count job' +
      s.mJobQueue.count job' +
      ((s.callers.set i (.deleting pendingJobs begun)).flatMap Caller.pendingJobs).count job' +
      ((s.discarded ++ [(job, begun)]).map Prod.fst).count job'
    rw [List.map_append, List.count_append]
    unfold State.pendingJobs State.discardedJobs at hjob
    have hrest : (Caller.deleting pendingJobs begun).pendingJobs = pendingJobs := rfl
    rw [hrest] at hpending
    have hmap : ([(job, begun)].map Prod.fst).count job' = [job].count job' := rfl
    omega
  · rcases List.mem_append.mp hd with hd | hd
    · exact h.discardedBefore d hd
    · rw [List.mem_singleton.mp hd]
      exact hbefore job List.mem_cons_self
  · have hjob := h.deletedOnce job'
    show (s.deleted ++ [job]).count job' + s.worker.undeleted.count job' =
      s.executed.count job' + ((s.discarded ++ [(job, begun)]).map Prod.fst).count job'
    rw [List.map_append, List.count_append, List.count_append]
    unfold State.discardedJobs at hjob
    have hmap : ([(job, begun)].map Prod.fst).count job' = [job].count job' := rfl
    omega

end Kept

/-- A step of the second clear finds the queue empty. -/
def ClearsEmpty (s : State) : Event → Prop
  | .clear i => ∀ begun, s.callers[i]? = some (.deleting [] begun) → s.mJobQueue = []
  | _ => True

theorem kept_call {s : State} (h : Kept s) {i : ℕ} {c : Caller} (hc : s.callers[i]? = some c)
    {e : Event} (hcaller : e.caller = some i) (hclear : ClearsEmpty s e) :
    Kept (s.call i c e) := by
  cases e with
  | queueJob j =>
    unfold State.call
    dsimp only
    split
    · rename_i hidle
      exact h.setCaller_of_nil hc (by rw [hidle.1]; rfl) rfl
    · exact h
  | clearJobQueue j waitForCurrentJob =>
    unfold State.call
    dsimp only
    split
    · rename_i hidle
      exact h.beginClear hc (by rw [hidle]; rfl) _
    · exact h
  | stop j =>
    unfold State.call
    dsimp only
    split
    · rename_i hidle
      split
      · exact h.setCaller_of_nil hc (by rw [hidle]; rfl) rfl
      · exact h.beginClear hc (by rw [hidle]; rfl) _
    · exact h
  | recheck j =>
    unfold State.call
    dsimp only
    split
    · rename_i stops
      split
      · exact h.setCaller_of_nil hc rfl rfl
      · exact h.setCaller_of_nil hc rfl (by cases stops <;> rfl)
    · exact h
  | push j =>
    unfold State.call
    dsimp only
    split
    · rename_i stops
      exact (h.accept stops).setCaller_of_nil hc rfl (by cases stops <;> rfl)
    · exact h
  | join j =>
    unfold State.call
    dsimp only
    split
    · rename_i hjoining
      exact h.beginClear hc (by rw [hjoining.1]; rfl) _
    · exact h
  | waited j =>
    unfold State.call
    dsimp only
    split
    · split
      · exact h
      · rename_i pendingJobs begun waitForCurrentJob _
        have hbefore : ∀ job ∈ pendingJobs, job.id < begun := h.before_of_getElem? hc
        exact h.setCaller hc rfl hbefore
    · exact h
  | delete j =>
    unfold State.call
    dsimp only
    split
    · exact h.delete hc
    · exact h
  | clear j =>
    unfold State.call
    dsimp only
    split
    · rename_i begun
      rw [Event.caller, Option.some_inj] at hcaller
      have hqueue : s.mJobQueue = [] := hclear begun (hcaller ▸ hc)
      have hsame : { s with mJobQueue := [] } = s := by rw [← hqueue]
      rw [hsame]
      exact h.setCaller_of_nil hc rfl rfl
    · exact h
  | work => exact h

theorem kept_step {s : State} (h : Kept s) {e : Event} (hclear : ClearsEmpty s e) :
    Kept (step s e) := by
  unfold step
  split
  · exact h.work
  · rename_i i hcaller
    split
    · exact h
    · rename_i c hc
      exact kept_call h hc hcaller hclear

/-- A second clear that finds a job in the queue loses it. -/
theorem not_kept_clear {s : State} (h : Kept s) {e : Event} (hclear : ¬ ClearsEmpty s e) :
    ¬ Kept (step s e) := by
  intro hkept
  cases e with
  | clear i =>
    have hexists : ∃ begun, s.callers[i]? = some (.deleting [] begun) ∧ s.mJobQueue ≠ [] := by
      simpa [ClearsEmpty] using hclear
    obtain ⟨begun, hc, hqueue⟩ := hexists
    obtain ⟨job, hjob⟩ := List.exists_mem_of_ne_nil _ hqueue
    have hstep : step s (.clear i) = { s with mJobQueue := [] }.setCaller i .idle := by
      unfold step
      simp only [Event.caller, hc]
      rfl
    rw [hstep] at hkept
    have hnone : Caller.idle.pendingJobs = (Caller.deleting [] begun).pendingJobs := rfl
    have hpending : ({ s with mJobQueue := [] }.setCaller i .idle).pendingJobs.count job =
        s.pendingJobs.count job := Held.count_flatMap_set_of_eq Caller.pendingJobs hc hnone job
    have hbefore := h.accounted job
    have hafter : s.accepted.count job = s.executed.count job + s.worker.inHand.count job +
        ([] : List Job).count job + s.pendingJobs.count job + s.discardedJobs.count job := by
      rw [← hpending]
      exact hkept.accounted job
    have hpos : 0 < s.mJobQueue.count job := List.count_pos_iff.mpr hjob
    rw [List.count_nil] at hafter
    omega
  | _ => exact hclear trivial

/-! ## The worker on its own -/

/-- The worker has no job left to run. -/
def Settled (s : State) : Prop := s.worker = .exited ∨ (s.worker = .waiting ∧ s.mJobQueue = [])

/-- `n` steps of the worker. -/
def works (n : ℕ) (s : State) : State := (List.replicate n Event.work).foldl step s

theorem works_succ (n : ℕ) (s : State) : works (n + 1) s = works n s.work := rfl

/-- At the head of its loop the worker has nothing left to do, or it takes the job in front. -/
theorem loop_cases (s : State) : Settled s.loop ∨
    ∃ job rest, s.mJobQueue = job :: rest ∧ s.loop.worker = .executing job ∧
      s.loop.mJobQueue = rest := by
  unfold State.loop
  split
  · unfold State.take
    split
    · rename_i hqueue
      exact Or.inl (Or.inr ⟨rfl, hqueue⟩)
    · rename_i job rest hqueue
      exact Or.inr ⟨job, rest, hqueue, rfl, rfl⟩
  · exact Or.inl (Or.inl rfl)

theorem works_add (m n : ℕ) (s : State) : works (m + n) s = works n (works m s) := by
  rw [works, List.replicate_add, List.foldl_append]
  rfl

/-- A job is executed and deleted. -/
theorem exists_works_of_executing {s : State} {job : Job} (hworker : s.worker = .executing job) :
    ∃ t : State, works 3 s = t.loop ∧ t.mJobQueue = s.mJobQueue := by
  have hexecute : s.work = { s with
      mRunThread := s.mRunThread && !job.stops
      worker := .executed job
      executed := s.executed ++ [job] } := by
    rw [State.work, hworker]
  refine ⟨{ s.work.work with mProcessingJob := false }, ?_, ?_⟩
  · rw [works_succ, works_succ, works_succ, hexecute]
    rfl
  · rw [hexecute]
    rfl

theorem exists_settled_of_executing {s : State} {job : Job} (hworker : s.worker = .executing job) :
    ∃ n, Settled (works n s) := by
  induction hqueue : s.mJobQueue generalizing s job with
  | nil =>
    obtain ⟨t, hthree, ht⟩ := exists_works_of_executing hworker
    rcases loop_cases t with hsettled | ⟨job', rest, hcons, -⟩
    · exact ⟨3, hthree ▸ hsettled⟩
    · rw [ht, hqueue] at hcons
      cases hcons
  | cons job' rest ih =>
    obtain ⟨t, hthree, ht⟩ := exists_works_of_executing hworker
    rcases loop_cases t with hsettled | ⟨job'', rest', hcons, hexecuting, hrest⟩
    · exact ⟨3, hthree ▸ hsettled⟩
    · rw [ht, hqueue] at hcons
      obtain ⟨n, hn⟩ := ih hexecuting (hrest.trans (List.cons.inj hcons).2.symm)
      exact ⟨3 + n, by rwa [works_add, hthree]⟩

theorem exists_settled_loop (s : State) : ∃ n, Settled (works n s.loop) := by
  rcases loop_cases s with hsettled | ⟨job, rest, -, hexecuting, -⟩
  · exact ⟨0, hsettled⟩
  · exact exists_settled_of_executing hexecuting

/-- The worker, left alone, runs every job in the queue or returns. -/
theorem exists_settled (s : State) : ∃ n, Settled (works n s) := by
  cases hworker : s.worker with
  | starting =>
    obtain ⟨n, hn⟩ := exists_settled_loop s
    refine ⟨n + 1, ?_⟩
    rw [works_succ, State.work, hworker]
    exact hn
  | waiting =>
    cases hqueue : s.mJobQueue with
    | nil => exact ⟨0, Or.inr ⟨hworker, hqueue⟩⟩
    | cons job rest =>
      have htake : s.work.worker = .executing job := by
        rw [State.work, hworker]
        dsimp only
        rw [State.take, hqueue]
      obtain ⟨n, hn⟩ := exists_settled_of_executing htake
      exact ⟨n + 1, hn⟩
  | executing job => exact exists_settled_of_executing hworker
  | executed job =>
    have hdelete : s.work = { s with worker := .finishing, deleted := s.deleted ++ [job] } := by
      rw [State.work, hworker]
    obtain ⟨n, hn⟩ := exists_settled_loop { s.work with mProcessingJob := false }
    refine ⟨n + 1 + 1, ?_⟩
    rw [works_succ, works_succ]
    rw [hdelete] at hn ⊢
    exact hn
  | finishing =>
    obtain ⟨n, hn⟩ := exists_settled_loop { s with mProcessingJob := false }
    refine ⟨n + 1, ?_⟩
    rw [works_succ, State.work, hworker]
    exact hn
  | exited => exact ⟨0, Or.inl hworker⟩

/-! ## Every run -/

/-- `Stop` queues its job between the two clears of a call of `ClearJobQueue`. -/
def stopDuringClear : List Event :=
  [.work, .clearJobQueue 0 true, .waited 0, .stop 1, .recheck 1, .push 1, .clear 0]

/-- The caller of `Stop` waits for a worker that waits for a job. -/
example : (stopDuringClear.foldl step (create 2)).worker = .waiting ∧
    (stopDuringClear.foldl step (create 2)).mJobQueue = [] ∧
    (stopDuringClear.foldl step (create 2)).callers = [.idle, .joining] := by decide

end SubtitleWorkerThread
end AmlSubtitle
