import Mathlib.Tactic

/-!
# `SubtitleService.cpp`: the data source and the receiver of a service

A service owns the reader thread of its message queue (`mFmqReceiver`) and shares the
data source the thread feeds (`mDataSource`).  Four calls start and stop the two, in any
order: a receiver registers the data source that is there when it is made, and a data
source that is made later is registered with the receiver that is there.

The message queue belongs to the server; a receiver has a plain pointer to it.  Queues
and data sources are named by numbers that are given out once.

* `consistent_*`: a service that is not started has no data source, and the clients of
  its receiver are its data source.
-/

namespace AmlSubtitle
namespace SubtitleServer

/-- The classes of data sources. -/
inductive SourceClass where
  | externalDataSource
  | deviceSource
  | fileSource
  | socketSource
  | demuxSource
  | vbiSource
  deriving DecidableEq, Repr

/-- A data source. -/
structure DataSource where
  id : ℕ
  sourceClass : SourceClass
  deriving DecidableEq, Repr

/-- `E_SUBTITLE_DEMUX`. -/
def E_SUBTITLE_DEMUX : ℤ := 4

/-- `DataSourceFactory::create`, by the number of the type. -/
def dataSourceFactoryCreate (type : ℤ) : Option SourceClass :=
  if type = 0 then some .externalDataSource
  else if type = 1 then some .deviceSource
  else if type = 2 then some .fileSource
  else if type = 3 then some .socketSource
  else if type = E_SUBTITLE_DEMUX then some .demuxSource
  else if type = 5 then some .vbiSource
  else none

/-- An `FmqReceiver`, whose thread runs as long as it exists: the queue its reader points
to and its clients.  The thread leaves the queue alone while there are no clients. -/
structure Receiver where
  mReader : ℕ
  mClients : List DataSource
  deriving DecidableEq, Repr

namespace Receiver

def registClient (r : Receiver) (client : DataSource) : Receiver :=
  { r with mClients := r.mClients ++ [client] }

def unregisterClient (r : Receiver) (client : DataSource) : Receiver :=
  { r with mClients := r.mClients.erase client }

end Receiver

/-- A `SubtitleService`. -/
structure Service where
  mStarted : Bool
  mDataSource : Option DataSource
  mFmqReceiver : Option Receiver
  deriving DecidableEq, Repr

namespace Service

/-- The constructor. -/
def create : Service := ⟨false, none, none⟩

/-- A receiver that is there already ends with the assignment. -/
def startFmqReceiver (ss : Service) (reader : ℕ) : Service :=
  let receiver : Receiver := ⟨reader, []⟩
  match ss.mDataSource with
  | none => { ss with mFmqReceiver := some receiver }
  | some source => { ss with mFmqReceiver := some (receiver.registClient source) }

/-- The receiver is left alone when there is no data source. -/
def stopFmqReceiver (ss : Service) : Bool × Service :=
  match ss.mFmqReceiver, ss.mDataSource with
  | some _, some _ => (true, { ss with mFmqReceiver := none })
  | _, _ => (false, ss)

/-- `id` names the data source, when one is made.  A service whose data source could not
be made counts as started. -/
def startSubtitle (ss : Service) (type : ℤ) (id : ℕ) : Bool × Service :=
  if ss.mStarted then
    (false, ss)
  else
    match dataSourceFactoryCreate type with
    | none => (false, { ss with mStarted := true })
    | some sourceClass =>
      (true, {
        mStarted := true
        mDataSource := some ⟨id, sourceClass⟩
        mFmqReceiver := ss.mFmqReceiver.map (·.registClient ⟨id, sourceClass⟩) })

/-- The receiver stays; its client is the data source no longer. -/
def stopSubtitle (ss : Service) : Bool × Service :=
  if ss.mStarted then
    (true, {
      mStarted := false
      mDataSource := none
      mFmqReceiver := match ss.mFmqReceiver, ss.mDataSource with
        | some receiver, some source => some (receiver.unregisterClient source)
        | receiver, _ => receiver })
  else
    (false, ss)

/-! ## What the calls keep -/

/-- A service that is not started has no data source, and its data source is what its
receiver feeds. -/
structure Consistent (ss : Service) : Prop where
  stopped : ss.mStarted = false → ss.mDataSource = none
  clients : ∀ r ∈ ss.mFmqReceiver, r.mClients = ss.mDataSource.toList

variable {ss : Service}

theorem consistent_create : create.Consistent := ⟨fun _ => rfl, fun r hr => by cases hr⟩

theorem consistent_startFmqReceiver (h : ss.Consistent) (reader : ℕ) :
    (ss.startFmqReceiver reader).Consistent := by
  obtain ⟨started, source, receiver⟩ := ss
  have hstopped : started = false → source = none := h.stopped
  cases source with
  | none =>
    refine ⟨fun _ => rfl, fun r hr => ?_⟩
    rw [← Option.some_inj.mp hr]
    rfl
  | some source =>
    refine ⟨hstopped, fun r hr => ?_⟩
    rw [← Option.some_inj.mp hr]
    rfl

theorem consistent_stopFmqReceiver (h : ss.Consistent) : ss.stopFmqReceiver.2.Consistent := by
  unfold stopFmqReceiver
  split
  · exact ⟨h.stopped, fun r hr => by cases hr⟩
  · exact h

theorem consistent_startSubtitle (h : ss.Consistent) (type : ℤ) (id : ℕ) :
    (ss.startSubtitle type id).2.Consistent := by
  unfold startSubtitle
  split
  · exact h
  rename_i hstopped
  have hsource := h.stopped (Bool.eq_false_iff.mpr hstopped)
  split
  · exact ⟨fun hfalse => absurd hfalse (by simp), h.clients⟩
  · refine ⟨fun hfalse => absurd hfalse (by simp), fun r hr => ?_⟩
    obtain ⟨r', hr', rfl⟩ := Option.map_eq_some_iff.mp hr
    rw [Receiver.registClient]
    dsimp only
    rw [h.clients r' hr', hsource]
    rfl

theorem consistent_stopSubtitle (h : ss.Consistent) : ss.stopSubtitle.2.Consistent := by
  unfold stopSubtitle
  split
  · obtain ⟨started, source, receiver⟩ := ss
    refine ⟨fun _ => rfl, fun r hr => ?_⟩
    cases receiver with
    | none => cases hr
    | some receiver =>
      have hclients : receiver.mClients = source.toList := h.clients receiver rfl
      cases source with
      | none =>
        rw [← Option.some_inj.mp hr]
        exact hclients
      | some source =>
        rw [← Option.some_inj.mp hr, Receiver.unregisterClient]
        dsimp only
        rw [hclients, Option.toList_some, List.erase_cons_head]
        rfl
  · exact h

/-- A service that has been stopped has no data source. -/
theorem mDataSource_stopSubtitle (h : ss.Consistent) : ss.stopSubtitle.2.mDataSource = none := by
  unfold stopSubtitle
  split
  · rfl
  · rename_i hstopped
    exact h.stopped (Bool.eq_false_iff.mpr hstopped)

/-- **Stopping the receiver behind the subtitle does nothing.** -/
theorem stopFmqReceiver_stopSubtitle (h : ss.Consistent) :
    ss.stopSubtitle.2.stopFmqReceiver = (false, ss.stopSubtitle.2) := by
  have hsource := mDataSource_stopSubtitle h
  unfold stopFmqReceiver
  split
  · rename_i hsome
    rw [hsource] at hsome
    cases hsome
  · rfl

/-! ## The queue of the receiver -/

/-- The queue the reader of the service points to. -/
def queue (ss : Service) : Option ℕ := ss.mFmqReceiver.map Receiver.mReader

@[simp] theorem queue_startFmqReceiver (ss : Service) (reader : ℕ) :
    (ss.startFmqReceiver reader).queue = some reader := by
  unfold startFmqReceiver
  split <;> rfl

@[simp] theorem queue_startSubtitle (ss : Service) (type : ℤ) (id : ℕ) :
    (ss.startSubtitle type id).2.queue = ss.queue := by
  unfold startSubtitle
  split
  · rfl
  · split
    · rfl
    · unfold queue
      rw [Option.map_map]
      rfl

@[simp] theorem queue_stopSubtitle (ss : Service) : ss.stopSubtitle.2.queue = ss.queue := by
  unfold stopSubtitle queue
  split
  · cases ss.mFmqReceiver <;> cases ss.mDataSource <;> rfl
  · rfl

end Service

end SubtitleServer
end AmlSubtitle
