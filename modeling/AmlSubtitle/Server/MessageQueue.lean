import AmlSubtitle.Lib.Run
import AmlSubtitle.Server.SubtitleService

/-!
# `SubtitleServer.cpp`: the message queue of a session

The server owns the message queue (`mDataMQ`) and the service; the service owns the
receiver that reads the queue through a plain pointer.  `prepareWritingQueue` makes the
two, `closeConnection` frees them, and `open` frees them too when a middleware player
takes the session over.

The takeover stops the subtitle first, which leaves the service without a data source,
and `stopFmqReceiver` does nothing without one.  So the queue is freed under a receiver
that goes on, and the new data source is registered with it.

* `consistent_run`: the clients of the receiver are its service's data source, in every
  state.
* `queue_live_iff`: the runs in which no receiver is left with a freed queue.

With `SUPPORT_MULTI` off there is one service, whatever the session id of a call, and the
id is not an argument here.  A service that is replaced ends, and its receiver with it.
-/

namespace AmlSubtitle
namespace SubtitleServer

/-- `OpenType`. -/
inductive OpenType where
  | typeMiddleware
  | typeAppsdk
  deriving DecidableEq, Repr

/-- `FIRST_SESSION_ID`. -/
def FIRST_SESSION_ID : ℤ := 0x1F230000

/-- `LAST_SESSION_ID`. -/
def LAST_SESSION_ID : ℤ := 0x7FFFFFFF

/-- `diff200ms`, in nanoseconds. -/
def diff200ms : ℤ := 200000000

/-- The parts of a `SubtitleServer` that sessions are made of; `fresh` is the next number
for a queue or a data source. -/
structure Sessions where
  mServiceClients : Option Service
  mDataMQ : Option ℕ
  mCurSessionId : ℤ
  mOpenCalled : Bool
  mLastOpenType : OpenType
  mLastOpenTime : ℤ
  fresh : ℕ
  deriving DecidableEq, Repr

/-- A call to the server.  `sessionState` is any of the calls that ask for or set what a
session shows (`resetForSeek`, `updateVideoPos`, `setLanguage`, `hide`, ...): they go to
the service, if there is one, and leave its data source and its receiver alone. -/
inductive SessionCall where
  | openConnection
  | closeConnection
  | openSubtitle (ioType : ℤ) (openType : OpenType) (now : ℤ)
  | closeSubtitle
  | prepareWritingQueue (isValid : Bool)
  | sessionState
  deriving DecidableEq, Repr

namespace Sessions

/-- The constructor of the server. -/
def create : Sessions := ⟨none, none, FIRST_SESSION_ID, false, .typeAppsdk, -1, 0⟩

/-- The session id, and the server with the new service. -/
def openConnection (s : Sessions) : ℤ × Sessions :=
  let next := s.mCurSessionId + 1
  let sessionId := if s.mCurSessionId = LAST_SESSION_ID then LAST_SESSION_ID else s.mCurSessionId
  (sessionId, { s with
    mCurSessionId := if s.mCurSessionId = LAST_SESSION_ID then LAST_SESSION_ID else next
    mServiceClients := some .create })

/-- The receiver is stopped before the queue is freed, if it has a data source; if not, it
ends with the service. -/
def closeConnection (s : Sessions) : Sessions :=
  match s.mServiceClients with
  | none => s
  | some _ => { s with mServiceClients := none, mDataMQ := none }

/-- A middleware player takes over from another player's `open` of just before. -/
def TakesOver (s : Sessions) (openType : OpenType) (now : ℤ) : Prop :=
  (s.mOpenCalled = true ∧ openType = .typeMiddleware) ∧
    ((openType ≠ s.mLastOpenType ∧ now - s.mLastOpenTime < diff200ms) ∨ s.mLastOpenTime = -1)

instance (s : Sessions) (openType : OpenType) (now : ℤ) : Decidable (s.TakesOver openType now) :=
  inferInstanceAs (Decidable (_ ∧ _))

/-- `SubtitleServer::open`. -/
def openSubtitle (s : Sessions) (ioType : ℤ) (openType : OpenType) (now : ℤ) : Bool × Sessions :=
  match s.mServiceClients with
  | none => (false, s)
  | some ss =>
    let taken := s.TakesOver openType now
    let ss := if taken then ss.stopSubtitle.2.stopFmqReceiver.2 else ss
    let mDataMQ := if taken then none else s.mDataMQ
    let ioType := if ioType % 256 = E_SUBTITLE_DEMUX then ioType % 256 else ioType
    let started := ss.startSubtitle ioType s.fresh
    (started.1, { s with
      mServiceClients := some started.2
      mDataMQ := mDataMQ
      mOpenCalled := true
      mLastOpenType := openType
      mLastOpenTime := now
      fresh := s.fresh + 1 })

/-- `SubtitleServer::close`. -/
def closeSubtitle (s : Sessions) : Bool × Sessions :=
  match s.mServiceClients with
  | none => (false, s)
  | some ss =>
    (ss.stopSubtitle.1, { s with mServiceClients := some ss.stopSubtitle.2, mOpenCalled := false })

/-- A queue that is there already is used again; `isValid` says whether a new one could be
made. -/
def prepareWritingQueue (s : Sessions) (isValid : Bool) : Bool × Sessions :=
  match s.mDataMQ with
  | some queue =>
    (true, { s with mServiceClients := s.mServiceClients.map (·.startFmqReceiver queue) })
  | none =>
    if isValid then
      (true, { s with
        mServiceClients := s.mServiceClients.map (·.startFmqReceiver s.fresh)
        mDataMQ := some s.fresh
        fresh := s.fresh + 1 })
    else
      (false, s)

/-- One call. -/
def step (s : Sessions) : SessionCall → Sessions
  | .openConnection => s.openConnection.2
  | .closeConnection => s.closeConnection
  | .openSubtitle ioType openType now => (s.openSubtitle ioType openType now).2
  | .closeSubtitle => s.closeSubtitle.2
  | .prepareWritingQueue isValid => (s.prepareWritingQueue isValid).2
  | .sessionState => s

/-! ## The clients of the receiver -/

/-- The service, if there is one, is consistent. -/
def ConsistentService (s : Sessions) : Prop := ∀ ss ∈ s.mServiceClients, ss.Consistent

theorem consistent_step {s : Sessions} (h : s.ConsistentService) (call : SessionCall) :
    (s.step call).ConsistentService := by
  cases call with
  | openConnection =>
    intro ss hss
    rw [← Option.some_inj.mp hss]
    exact Service.consistent_create
  | closeConnection =>
    rw [step, closeConnection]
    split
    · exact h
    · exact fun ss hss => by cases hss
  | openSubtitle ioType openType now =>
    rw [step, openSubtitle]
    split
    · exact h
    rename_i ss hservice
    intro ss' hss'
    rw [← Option.some_inj.mp hss']
    refine Service.consistent_startSubtitle ?_ _ _
    split
    · exact Service.consistent_stopFmqReceiver (Service.consistent_stopSubtitle (h ss hservice))
    · exact h ss hservice
  | closeSubtitle =>
    rw [step, closeSubtitle]
    split
    · exact h
    · rename_i ss hservice
      intro ss' hss'
      rw [← Option.some_inj.mp hss']
      exact Service.consistent_stopSubtitle (h ss hservice)
  | prepareWritingQueue isValid =>
    have hmap : ∀ queue, ∀ ss ∈ s.mServiceClients.map (·.startFmqReceiver queue),
        ss.Consistent := by
      intro queue ss hss
      obtain ⟨ss', hss', rfl⟩ := Option.map_eq_some_iff.mp hss
      exact Service.consistent_startFmqReceiver (h ss' hss') queue
    rw [step, prepareWritingQueue]
    split
    · exact hmap _
    · split
      · exact hmap _
      · exact h
  | sessionState => exact h

/-- **In every state** the clients of the receiver are the data source of its service. -/
theorem consistent_run (calls : List SessionCall) :
    (calls.foldl step create).ConsistentService := by
  have hcreate : create.ConsistentService := fun ss hss => by cases hss
  exact Run.invariant (I := ConsistentService) (fun _ call h => consistent_step h call) hcreate
    calls

/-! ## The queue of the receiver -/

/-- The receiver of the service, if there is one, reads the queue of the server. -/
def QueueLive (s : Sessions) : Prop :=
  ∀ ss ∈ s.mServiceClients, ∀ r ∈ ss.mFmqReceiver, s.mDataMQ = some r.mReader

/-- No middleware player takes over a service that has a receiver. -/
def Spares (s : Sessions) : SessionCall → Prop
  | .openSubtitle _ openType now =>
    s.TakesOver openType now → ∀ ss ∈ s.mServiceClients, ss.mFmqReceiver = none
  | .openConnection | .closeConnection | .closeSubtitle | .prepareWritingQueue _
  | .sessionState => True

theorem queueLive_iff (s : Sessions) :
    s.QueueLive ↔ ∀ ss ∈ s.mServiceClients, ∀ queue ∈ ss.queue, s.mDataMQ = some queue := by
  refine forall₂_congr fun ss _ => ?_
  rw [Service.queue]
  cases ss.mFmqReceiver <;> simp

theorem queue_takeover {ss : Service} (h : ss.Consistent) (ioType : ℤ) (id : ℕ) :
    (ss.stopSubtitle.2.stopFmqReceiver.2.startSubtitle ioType id).2.queue = ss.queue := by
  rw [Service.queue_startSubtitle, Service.stopFmqReceiver_stopSubtitle h,
    Service.queue_stopSubtitle]

theorem queueLive_step {s : Sessions} (hservice : s.ConsistentService) (h : s.QueueLive)
    {call : SessionCall} (hspares : s.Spares call) : (s.step call).QueueLive := by
  rw [queueLive_iff] at h ⊢
  cases call with
  | openConnection =>
    intro ss hss queue hqueue
    rw [← Option.some_inj.mp hss] at hqueue
    cases hqueue
  | closeConnection =>
    rw [step, closeConnection]
    split
    · exact h
    · exact fun ss hss => by cases hss
  | openSubtitle ioType openType now =>
    rw [step, openSubtitle]
    split
    · exact h
    rename_i ss hss
    intro ss' hss' queue hqueue
    rw [← Option.some_inj.mp hss'] at hqueue
    by_cases htaken : s.TakesOver openType now
    · simp only [if_pos htaken] at hqueue
      rw [queue_takeover (hservice ss hss), Service.queue, hspares htaken ss hss] at hqueue
      cases hqueue
    · simp only [if_neg htaken] at hqueue ⊢
      rw [Service.queue_startSubtitle] at hqueue
      exact h ss hss queue hqueue
  | closeSubtitle =>
    rw [step, closeSubtitle]
    split
    · exact h
    · rename_i ss hss
      intro ss' hss' queue hqueue
      rw [← Option.some_inj.mp hss', Service.queue_stopSubtitle] at hqueue
      exact h ss hss queue hqueue
  | prepareWritingQueue isValid =>
    have hmap : ∀ reader, ∀ ss ∈ s.mServiceClients.map (·.startFmqReceiver reader),
        ∀ queue ∈ ss.queue, some reader = some queue := by
      intro reader ss hss queue hqueue
      obtain ⟨ss', -, rfl⟩ := Option.map_eq_some_iff.mp hss
      rwa [Service.queue_startFmqReceiver] at hqueue
    rw [step, prepareWritingQueue]
    split
    · rename_i queue hqueue
      simp only [hqueue]
      exact hmap queue
    · split
      · exact hmap s.fresh
      · exact h
  | sessionState => exact h

/-- A takeover frees the queue under the receiver. -/
theorem not_queueLive_step {s : Sessions} (hservice : s.ConsistentService)
    {call : SessionCall} (hspares : ¬ s.Spares call) : ¬ (s.step call).QueueLive := by
  rw [queueLive_iff]
  cases call with
  | openSubtitle ioType openType now =>
    simp only [Spares, Classical.not_imp, not_forall] at hspares
    obtain ⟨htaken, ss, hss, hreceiver⟩ := hspares
    obtain ⟨r, hr⟩ := Option.ne_none_iff_exists'.mp hreceiver
    have hqueue : ss.queue = some r.mReader := by rw [Service.queue, hr, Option.map_some]
    have hss : s.mServiceClients = some ss := hss
    intro hlive
    rw [step, openSubtitle, hss] at hlive
    simp only [if_pos htaken] at hlive
    have hnone := hlive _ rfl r.mReader (by rw [queue_takeover (hservice ss hss), hqueue]; rfl)
    cases hnone
  | _ => exact absurd trivial hspares

/-- **When no receiver is left with a freed queue.**  In every state of a run the receiver
of the registered service reads the queue of the server, exactly when no `open` of the run
takes over a service that has a receiver. -/
theorem queue_live_iff (calls : List SessionCall) :
    (∀ s, Run.Reached step create calls s → s.QueueLive) ↔ Run.Meets step Spares create calls := by
  refine Run.forall_reached_iff (I := fun s : Sessions => s.ConsistentService ∧ s.QueueLive)
    (fun s hs => hs.2) (fun s call hs hcall => ?_) (fun s call hs hcall => ?_) ⟨?_, ?_⟩ calls
  · exact ⟨consistent_step hs.1 call, queueLive_step hs.1 hs.2 hcall⟩
  · exact not_queueLive_step hs.1 hcall
  · exact fun ss hss => by cases hss
  · exact fun ss hss => by cases hss

/-- An application opens a source, and a middleware player takes over a millisecond later. -/
def takeoverRun : List SessionCall :=
  [.openConnection, .prepareWritingQueue true, .openSubtitle 0 .typeAppsdk 5000000,
    .openSubtitle 0 .typeMiddleware 6000000]

/-- The receiver is left with the freed queue, and with a client to read it for. -/
theorem not_queueLive_takeoverRun :
    (¬ ∀ s, Run.Reached step create takeoverRun s → s.QueueLive) ∧
      ∃ ss r, (takeoverRun.foldl step create).mServiceClients = some ss ∧
        ss.mFmqReceiver = some r ∧ r.mClients ≠ [] ∧
        (takeoverRun.foldl step create).mDataMQ = none := by
  refine ⟨fun hall => ?_, ⟨true, some ⟨2, .externalDataSource⟩,
    some ⟨0, [⟨2, .externalDataSource⟩]⟩⟩, ⟨0, [⟨2, .externalDataSource⟩]⟩, by decide, rfl,
    by decide, by decide⟩
  have hlive := hall _ (Run.reached_last _ _)
  have hservice : (takeoverRun.foldl step create).mServiceClients = some ⟨true,
      some ⟨2, .externalDataSource⟩, some ⟨0, [⟨2, .externalDataSource⟩]⟩⟩ := by decide
  have hqueue : (takeoverRun.foldl step create).mDataMQ ≠ some 0 := by decide
  exact hqueue (hlive _ hservice _ rfl)

end Sessions

end SubtitleServer
end AmlSubtitle
