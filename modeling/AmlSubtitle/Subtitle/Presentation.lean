import AmlSubtitle.Lib.Run
import AmlSubtitle.Subtitle.Spu

/-!
# `subtitle/Presentation.cpp`: presenting a stream subtitle

The parser's queue of decoded items, the looper of the presentation and the
handler `handleStreamSub` of `Presentation::MessageProcess` as one state machine.
Its events are those of the threads around it: the parser adds an item, a seek
resets parser and presentation, the looper delivers one of its pending messages at
some clock value.  The parser is playing and the message process is not exiting.

* `log` is the history: what was taken from the parser, what the renderer was
  told, and by which rule an item was let go.  The handler does not read it.
* In the handler `spu` is a reference into `mEmittedShowingSpu`.  Writing to it
  changes the list, unless the ten minutes rule has just taken the item off the
  list; `showFront` is told which (`purged`).
* `front()` of an empty list is undefined.  The handler compares what it gets with
  null, so it is null here, and `emptyFronts` counts how often it happened.
-/

namespace AmlSubtitle
namespace Presentation

open Words Spu

/-! ## The state -/

/-- The clock of the presentation; all values are in nanoseconds. -/
structure Clock where
  mStartTimeModifier : ℤ
  mCurrentPresentRelativeTime : ℤ
  deriving DecidableEq, Repr

/-- The `timestamp` of the handlers. -/
def Clock.timestamp (c : Clock) : ℤ := c.mStartTimeModifier + c.mCurrentPresentRelativeTime

/-- The messages of `MessageProcess`. -/
inductive What where
  | ptsTimeCheckSpu
  | resetMessageQueue
  deriving DecidableEq, Repr

/-- A message pending in the looper. -/
structure Message where
  what : What
  delay : ℤ
  deriving DecidableEq, Repr

/-- What the handler does with an item. -/
inductive Act where
  /-- taken from the parser's queue -/
  | took (spu : Spu)
  /-- not queued, since the clock is zero -/
  | zeroClock (spu : Spu)
  /-- thrown away, since the queue holds too many bytes -/
  | memoryLimit (spu : Spu)
  /-- thrown away, an external cue whose end has passed -/
  | outOfDate (spu : Spu)
  /-- thrown away, ten minutes or more ahead of the clock -/
  | farAhead (spu : Spu)
  /-- taken off the front of the queue in place of an item already thrown away -/
  | popped (spu : Spu)
  /-- appended to an item with the same time stamp -/
  | merged (spu : Spu)
  /-- given to the renderer -/
  | shown (spu : Spu)
  /-- an item without data: the renderer clears what is on the screen -/
  | cleared (spu : Spu)
  /-- a PGS item without data: the renderer clears its object -/
  | clearedObject (spu : Spu)
  /-- a PGS item without data, left to the item that replaces its object -/
  | bypassed (spu : Spu)
  /-- an item whose time is over: the renderer clears it -/
  | faded (spu : Spu)
  /-- an item replaced on the screen: the renderer forgets it -/
  | removed (spu : Spu)
  /-- thrown away with the queue -/
  | reset (spu : Spu)
  /-- the renderer clears everything -/
  | resetScreen
  deriving DecidableEq, Repr

/-- The parser's queue, the presentation and its looper. -/
structure State where
  mDecodedSpu : List Spu
  mEmittedShowingSpu : List Spu
  mEmittedFaddingSpu : List Spu
  mLooper : List Message
  added : ℕ
  emptyFronts : ℕ
  log : List Act
  deriving DecidableEq, Repr

namespace State

@[simp] def removeMessages (s : State) (what : What) : State :=
  { s with mLooper := s.mLooper.filter fun m => m.what ≠ what }

@[simp] def sendMessageDelayed (s : State) (delay : ℤ) (what : What) : State :=
  { s with mLooper := s.mLooper ++ [⟨what, delay⟩] }

@[simp] def record (s : State) (acts : List Act) : State := { s with log := s.log ++ acts }

end State

/-! ## The parser's queue -/

/-- `INTERNAL_MAX_NUMBER_SPU_ITEM`. -/
def INTERNAL_MAX_NUMBER_SPU_ITEM : ℕ := 20

/-- `Parser::addDecodedItem`; the notification sends a message to the looper. -/
def addDecodedItem (s : State) (item : Spu) : State :=
  let excess := s.mDecodedSpu.length + 1 - INTERNAL_MAX_NUMBER_SPU_ITEM
  { s with
    mDecodedSpu := s.mDecodedSpu.drop excess ++ [{ item with id := s.added }]
    added := s.added + 1 }.sendMessageDelayed 0 .ptsTimeCheckSpu

/-- A seek: `Parser::resetForSeek`, then `Presentation::resetForSeek`. -/
def resetForSeek (s : State) : State :=
  { s with mDecodedSpu := [] }.sendMessageDelayed 0 .resetMessageQueue

/-! ## Taking an item -/

/-- `MAX_ALLOWED_QUEUED_MEM`. -/
def MAX_ALLOWED_QUEUED_MEM : ℕ := 5 * 1920 * 1080 * 4

/-- `DEFAULT_DELAY_TIME`, in seconds. -/
def DEFAULT_DELAY_TIME : ℤ := 2

/-- `ADDJUST_NO_PTS_MS`. -/
def ADDJUST_NO_PTS_MS : ℤ := 4 * 1000

/-- `ADDJUST_VERY_SMALL_PTS_MS`. -/
def ADDJUST_VERY_SMALL_PTS_MS : ℤ := 5 * 1000

/-- An item 200 seconds or more away from the clock is shown a second from now. -/
def adjustFarPts (spu : Spu) (timestamp : ℤ) : Spu :=
  let pts := convertDvbTime2Ns spu.pts
  let ptsDiff := if pts > timestamp then pts - timestamp else timestamp - pts
  if ptsDiff ≥ 200 * 1000 * 1000 * 1000 ∧ ¬ spu.isExtSub then
    { spu with
      pts := convertNs2DvbTime (timestamp + 1 * 1000 * 1000 * 1000)
      mDelay := convertNs2DvbTime (timestamp + 1 * 1000 * 1000 * 1000) +
        DEFAULT_DELAY_TIME * 1000 * DVB_TIME_MULTI }
  else
    spu

/-- The item taken from the parser joins the queue. -/
def enqueue (s : State) (spu : Spu) (timestamp : ℤ) : State :=
  if spu.subtitleType = .closedCaption ∨
      (timestamp ≠ 0 ∨ (timestamp = 0 ∧ spu.pts = 0)) then
    { s with mEmittedShowingSpu := sortPts (s.mEmittedShowingSpu ++ [spu]) }
  else
    s.record [.zeroClock spu]

/-- Over the memory limit, half of the queue is thrown away. -/
def limitMemory (s : State) (spu : Spu) : State :=
  if spu.bufferSize + totalQueuedMemSize s.mEmittedShowingSpu ≥ MAX_ALLOWED_QUEUED_MEM then
    let halfQueueSize := s.mEmittedShowingSpu.length / 2
    { s with mEmittedShowingSpu := s.mEmittedShowingSpu.drop halfQueueSize }.record
      ((s.mEmittedShowingSpu.take halfQueueSize).map .memoryLimit)
  else
    s

/-- The first part of the handler: an item is taken from the parser. -/
def takeSpu (s : State) (timestamp : ℤ) : State :=
  match s.mDecodedSpu with
  | [] => s
  | item :: rest =>
    let spu := adjustFarPts item timestamp
    limitMemory (enqueue ({ s with mDecodedSpu := rest }.record [.took item]) spu timestamp) spu

/-! ## Throwing items away -/

/-- An external cue whose end has passed. -/
def isOutOfDate (timestamp : ℤ) (spu : Spu) : Bool :=
  spu.isExtSub && decide (spu.mDelay > 0) &&
    decide (ns2ms timestamp ≥ spu.mDelay.tdiv DVB_TIME_MULTI)

/-- The loop over the front of a queue that is not empty.  When it empties the
queue, it has asked for the front of an empty list. -/
def throwOutOfDate (s : State) (timestamp : ℤ) : State :=
  let kept := s.mEmittedShowingSpu.dropWhile (isOutOfDate timestamp)
  let thrown := s.mEmittedShowingSpu.takeWhile (isOutOfDate timestamp)
  let s' := { s with mEmittedShowingSpu := kept }.record (thrown.map .outOfDate)
  if kept = [] then
    { s' with emptyFronts := s'.emptyFronts + 1 }.sendMessageDelayed (ms2ns 100) .ptsTimeCheckSpu
  else
    s'

/-- An item ten minutes or more ahead of the clock, unless it is immediate or has a
time stamp of more bits than the clock. -/
def isFarAhead (timestamp : ℤ) (spu : Spu) : Bool :=
  decide (ns2ms timestamp + 10 * 60 * 1000 ≤ spu.pts.tdiv DVB_TIME_MULTI) &&
    !spu.isImmediatePresent &&
    !(isMore32Bit spu.pts && !isMore32Bit (convertNs2DvbTime timestamp))

/-- The `remove_if`. -/
def throwFarAhead (s : State) (timestamp : ℤ) : State :=
  { s with
    mEmittedShowingSpu := s.mEmittedShowingSpu.filter fun spu => !isFarAhead timestamp spu }.record
    ((s.mEmittedShowingSpu.filter (isFarAhead timestamp)).map .farAhead)

/-! ## Showing -/

/-- What is written to the front item before it is looked at: a time stamp and an
end time, where it has none, and the cut to 32 bits. -/
def repair (spu : Spu) (timestamp : ℤ) : Spu :=
  let spu :=
    if spu.pts.tdiv DVB_TIME_MULTI ≤ 0 ∧ ¬ spu.isImmediatePresent then
      { spu with
        pts := convertNs2DvbTime timestamp
        mDelay := convertNs2DvbTime timestamp + DEFAULT_DELAY_TIME * 1000 * DVB_TIME_MULTI }
    else
      spu
  let spu := compareBitAndSyncPts spu (convertNs2DvbTime timestamp)
  if spu.mDelay ≤ 0 then
    { spu with mDelay := spu.pts + ADDJUST_NO_PTS_MS * DVB_TIME_MULTI }
  else
    spu

/-- The tolerance of a frame, 33 ms. -/
def tolerance : ℤ := 33 * 1000 * 1000

/-- `ptsShowDiff`, a `uint64_t`. -/
def ptsShowDiff (spu : Spu) (timestamp : ℤ) : ℕ :=
  asUnsigned 64 (timestamp + tolerance - convertDvbTime2Ns spu.pts)

/-- The item is shown now.  The comparison of the time stamp with the clock is one
of unsigned numbers. -/
def isDue (spu : Spu) (timestamp : ℤ) : Prop :=
  spu.isImmediatePresent ∨
    asUnsigned 64 (convertDvbTime2Ns spu.pts) ≤ asUnsigned 64 (timestamp + tolerance) ∨
      ptsShowDiff spu timestamp ≤ 2 * 1000 * 1000 * 1000

instance (spu : Spu) (timestamp : ℤ) : Decidable (isDue spu timestamp) :=
  inferInstanceAs (Decidable (_ ∨ _))

/-- Two items with one time stamp are shown as one. -/
def combineNext (s : State) (spu : Spu) : State × Spu :=
  match s.mEmittedShowingSpu with
  | [] => (s, spu)
  | secondSpu :: rest =>
    match combineSamePtsSubtitle spu secondSpu with
    | some both => ({ s with mEmittedShowingSpu := rest }.record [.merged secondSpu], both)
    | none => (s, spu)

/-- The item of the same object that is queued next has the same time stamp. -/
def foundSamePtsSpu (list : List Spu) (spu : Spu) : Bool :=
  match list.find? fun it => it.objectSegmentId == spu.objectSegmentId with
  | some it => decide (it.pts = spu.pts)
  | none => false

/-- The renderer shows the item, or clears the screen for it. -/
def present (s : State) (spu : Spu) : State :=
  match spu.spuData with
  | none =>
    if spu.subtitleType = .pgs then
      if foundSamePtsSpu s.mEmittedShowingSpu spu then
        s.record [.bypassed spu]
      else
        s.record [.clearedObject spu]
    else
      s.record [.cleared spu]
  | some _ => s.record [.shown spu]

/-- The end time of an item that is shown. -/
def fixFading (spu : Spu) (timestamp : ℤ) : Spu :=
  if spu.isImmediatePresent ∧ (spu.mDelay = 0 ∨ spu.mDelay = spu.pts) then
    { spu with
      pts := convertNs2DvbTime timestamp
      mDelay := convertNs2DvbTime timestamp + ADDJUST_NO_PTS_MS * DVB_TIME_MULTI }
  else if spu.mDelay = 0 ∨ spu.mDelay < spu.pts ∨ spu.mDelay - spu.pts < 1000 * DVB_TIME_MULTI then
    { spu with mDelay := spu.pts + ADDJUST_VERY_SMALL_PTS_MS * DVB_TIME_MULTI }
  else
    spu

/-- The item replaces the one that is fading. -/
def pushFading (s : State) (spu : Spu) : State :=
  match s.mEmittedFaddingSpu with
  | [] => { s with mEmittedFaddingSpu := [spu], emptyFronts := s.emptyFronts + 1 }
  | cachedSpu :: rest =>
    { s with mEmittedFaddingSpu := rest ++ [spu] }.record [.removed cachedSpu]

/-- The item `spu` is shown, once it or what stands in its place is off the queue. -/
def showSpu (s : State) (spu : Spu) (timestamp : ℤ) : State :=
  let (s, spu) := combineNext s spu
  pushFading (present s spu) (fixFading spu timestamp)

/-- The second part of the handler.  `spu` was the front of the queue before the ten
minutes rule; if `purged`, the rule has taken it off, and else it is still the
front. -/
def showFront (s : State) (spu : Spu) (purged : Bool) (timestamp : ℤ) : State :=
  let spu := repair spu timestamp
  let queue := if purged then s.mEmittedShowingSpu else spu :: s.mEmittedShowingSpu.tail
  if isDue spu timestamp then
    let lost := if purged then queue.take 1 else []
    showSpu ({ s with mEmittedShowingSpu := queue.tail }.record (lost.map .popped)) spu timestamp
  else if asUnsigned 64 (convertDvbTime2Ns spu.pts) ≤ asUnsigned 64 (timestamp + tolerance) ∧
      ptsShowDiff spu timestamp > 2 * 1000 * 1000 * 1000 then
    { s with mEmittedShowingSpu := queue, mEmittedFaddingSpu := [] }.record [.resetScreen]
  else
    { s with mEmittedShowingSpu := queue }.sendMessageDelayed
      (if spu.isExtSub then ms2ns 100 else convertDvbTime2Ns spu.pts - timestamp) .ptsTimeCheckSpu

/-! ## Fading -/

/-- The fading item's time is over, or its end is too far ahead for the clock to be
the one it was shown by. -/
def isFaded (spu : Spu) (timestamp : ℤ) : Prop :=
  let delayed := asUnsigned 64 (convertDvbTime2Ns spu.mDelay)
  let ahead_delay_tor := (if spu.isExtSub then 5 else 100) * 1000 * 1000 * 1000
  (delayed ≤ asUnsigned 64 timestamp ∧ asUnsigned 64 (delayed * 5) > asUnsigned 64 timestamp) ∨
    (timestamp ≠ 0 ∧ asUnsigned 64 (delayed - timestamp) > ahead_delay_tor)

instance (spu : Spu) (timestamp : ℤ) : Decidable (isFaded spu timestamp) :=
  inferInstanceAs (Decidable (_ ∨ _))

/-- The third part of the handler. -/
def fade (s : State) (timestamp : ℤ) : State :=
  match s.mEmittedFaddingSpu with
  | [] => s
  | spu :: rest =>
    if spu.isKeepShowing then
      s
    else
      let s := if isFaded spu timestamp then
          { s with mEmittedFaddingSpu := rest }.record [.faded spu]
        else
          s
      s.sendMessageDelayed (if spu.subtitleType = .pgs then ms2ns 8 else ms2ns 15) .ptsTimeCheckSpu

/-! ## The handlers -/

/-- `handleStreamSub` of `MSG_PTS_TIME_CHECK_SPU`. -/
def checkSpu (s : State) (timestamp : ℤ) : State :=
  let s := takeSpu (s.removeMessages .ptsTimeCheckSpu) timestamp
  if s.mEmittedShowingSpu = [] then
    fade s timestamp
  else
    let s := throwOutOfDate s timestamp
    let front := s.mEmittedShowingSpu.head?
    let s := throwFarAhead s timestamp
    if s.mEmittedShowingSpu = [] then
      s
    else
      match front with
      | none => fade s timestamp
      | some spu => fade (showFront s spu (isFarAhead timestamp spu) timestamp) timestamp

/-- `MessageProcess::handleStreamSub`. -/
def handleStreamSub (s : State) (what : What) (timestamp : ℤ) : State :=
  match what with
  | .ptsTimeCheckSpu => checkSpu s timestamp
  | .resetMessageQueue =>
    { s with mEmittedShowingSpu := [], mEmittedFaddingSpu := [] }.record
      (s.mEmittedShowingSpu.map Act.reset ++ [Act.resetScreen])

/-- `MessageProcess::handleMessage`.  Without a video clock the message is put off. -/
def handleMessage (s : State) (what : What) (clock : Clock) : State :=
  if clock.mCurrentPresentRelativeTime ≤ 0 then
    s.sendMessageDelayed (ms2ns 200) .ptsTimeCheckSpu
  else
    handleStreamSub s what clock.timestamp

/-! ## The system -/

/-- What happens next: the parser adds an item, a seek is made, or the looper
delivers its `k`-th pending message. -/
inductive Event where
  | addDecodedItem (item : Spu)
  | resetForSeek
  | deliver (k : ℕ) (clock : Clock)
  deriving DecidableEq, Repr

/-- One event. -/
def exec (s : State) : Event → State
  | .addDecodedItem item => Presentation.addDecodedItem s item
  | .resetForSeek => Presentation.resetForSeek s
  | .deliver k clock =>
    match s.mLooper[k]? with
    | none => s
    | some m => handleMessage { s with mLooper := s.mLooper.eraseIdx k } m.what clock

/-- The state `looperLoop` begins in. -/
def start (clock : Clock) : State where
  mDecodedSpu := []
  mEmittedShowingSpu := []
  mEmittedFaddingSpu := []
  mLooper := [⟨.ptsTimeCheckSpu,
    if clock.mCurrentPresentRelativeTime ≤ 0 then ms2ns 100 else 100⟩]
  added := 0
  emptyFronts := 0
  log := []

/-! ## What the parts do -/

section Parts

variable (s : State) (timestamp : ℤ)

theorem adjustFarPts_id (spu : Spu) : (adjustFarPts spu timestamp).id = spu.id := by
  unfold adjustFarPts
  dsimp only
  split_ifs <;> rfl

@[simp] theorem enqueue_fading (spu : Spu) :
    (enqueue s spu timestamp).mEmittedFaddingSpu = s.mEmittedFaddingSpu := by
  unfold enqueue
  split <;> rfl

@[simp] theorem enqueue_looper (spu : Spu) :
    (enqueue s spu timestamp).mLooper = s.mLooper := by
  unfold enqueue
  split <;> rfl

@[simp] theorem limitMemory_fading (spu : Spu) :
    (limitMemory s spu).mEmittedFaddingSpu = s.mEmittedFaddingSpu := by
  unfold limitMemory
  split <;> rfl

@[simp] theorem limitMemory_looper (spu : Spu) : (limitMemory s spu).mLooper = s.mLooper := by
  unfold limitMemory
  split <;> rfl

/-- Taking an item touches neither what is fading nor the looper. -/
@[simp] theorem takeSpu_fading :
    (takeSpu s timestamp).mEmittedFaddingSpu = s.mEmittedFaddingSpu := by
  unfold takeSpu
  split
  · rfl
  · simp

@[simp] theorem takeSpu_looper : (takeSpu s timestamp).mLooper = s.mLooper := by
  unfold takeSpu
  split
  · rfl
  · simp

@[simp] theorem throwOutOfDate_showing :
    (throwOutOfDate s timestamp).mEmittedShowingSpu =
      s.mEmittedShowingSpu.dropWhile (isOutOfDate timestamp) := by
  unfold throwOutOfDate
  dsimp only
  split <;> rfl

@[simp] theorem throwOutOfDate_fading :
    (throwOutOfDate s timestamp).mEmittedFaddingSpu = s.mEmittedFaddingSpu := by
  unfold throwOutOfDate
  dsimp only
  split <;> rfl

@[simp] theorem throwFarAhead_showing :
    (throwFarAhead s timestamp).mEmittedShowingSpu =
      s.mEmittedShowingSpu.filter fun spu => !isFarAhead timestamp spu := rfl

@[simp] theorem throwFarAhead_fading :
    (throwFarAhead s timestamp).mEmittedFaddingSpu = s.mEmittedFaddingSpu := rfl

/-- The next item is merged into this one, or there is none that can be. -/
theorem combineNext_cases (spu : Spu) :
    (∃ secondSpu rest both, s.mEmittedShowingSpu = secondSpu :: rest ∧
      combineSamePtsSubtitle spu secondSpu = some both ∧
      combineNext s spu =
        ({ s with mEmittedShowingSpu := rest }.record [.merged secondSpu], both)) ∨
      ((∀ secondSpu rest, s.mEmittedShowingSpu = secondSpu :: rest →
        combineSamePtsSubtitle spu secondSpu = none) ∧ combineNext s spu = (s, spu)) := by
  unfold combineNext
  split
  · rename_i hqueue
    exact Or.inr ⟨fun secondSpu rest h => absurd (hqueue.symm.trans h) (by simp), rfl⟩
  · rename_i secondSpu rest hqueue
    split
    · rename_i both hboth
      exact Or.inl ⟨secondSpu, rest, both, hqueue, hboth, rfl⟩
    · rename_i hnone
      refine Or.inr ⟨fun secondSpu' rest' h => ?_, rfl⟩
      rw [← (List.cons.inj (hqueue.symm.trans h)).1]
      exact hnone

@[simp] theorem combineNext_fading (spu : Spu) :
    (combineNext s spu).1.mEmittedFaddingSpu = s.mEmittedFaddingSpu := by
  obtain ⟨_, _, _, -, -, h⟩ | ⟨-, h⟩ := combineNext_cases s spu <;> simp [h]

@[simp] theorem combineNext_looper (spu : Spu) : (combineNext s spu).1.mLooper = s.mLooper := by
  obtain ⟨_, _, _, -, -, h⟩ | ⟨-, h⟩ := combineNext_cases s spu <;> simp [h]

/-- What the renderer is told is recorded and nothing else. -/
theorem exists_present (spu : Spu) : ∃ act, present s spu = s.record [act] := by
  unfold present
  split
  · split_ifs <;> exact ⟨_, rfl⟩
  · exact ⟨_, rfl⟩

@[simp] theorem present_showing (spu : Spu) :
    (present s spu).mEmittedShowingSpu = s.mEmittedShowingSpu := by
  obtain ⟨act, h⟩ := exists_present s spu
  rw [h]
  rfl

@[simp] theorem present_fading (spu : Spu) :
    (present s spu).mEmittedFaddingSpu = s.mEmittedFaddingSpu := by
  obtain ⟨act, h⟩ := exists_present s spu
  rw [h]
  rfl

@[simp] theorem present_looper (spu : Spu) : (present s spu).mLooper = s.mLooper := by
  obtain ⟨act, h⟩ := exists_present s spu
  rw [h]
  rfl

@[simp] theorem pushFading_showing (spu : Spu) :
    (pushFading s spu).mEmittedShowingSpu = s.mEmittedShowingSpu := by
  unfold pushFading
  split <;> rfl

@[simp] theorem pushFading_looper (spu : Spu) : (pushFading s spu).mLooper = s.mLooper := by
  unfold pushFading
  split <;> rfl

theorem showSpu_eq (spu : Spu) :
    showSpu s spu timestamp =
      pushFading (present (combineNext s spu).1 (combineNext s spu).2)
        (fixFading (combineNext s spu).2 timestamp) := rfl

/-- Delivering a message: there is none, or it is put off, or it is handled. -/
theorem exec_deliver_cases (k : ℕ) (clock : Clock) :
    (s.mLooper[k]? = none ∧ exec s (.deliver k clock) = s) ∨
      ∃ m, s.mLooper[k]? = some m ∧
        ((clock.mCurrentPresentRelativeTime ≤ 0 ∧ exec s (.deliver k clock) =
            { s with mLooper := s.mLooper.eraseIdx k }.sendMessageDelayed (ms2ns 200)
              .ptsTimeCheckSpu) ∨
          (0 < clock.mCurrentPresentRelativeTime ∧ exec s (.deliver k clock) =
            handleStreamSub { s with mLooper := s.mLooper.eraseIdx k } m.what
              clock.timestamp)) := by
  simp only [exec]
  split
  · rename_i hnone
    exact Or.inl ⟨hnone, rfl⟩
  · rename_i m hm
    refine Or.inr ⟨m, hm, ?_⟩
    unfold handleMessage
    by_cases hstarted : clock.mCurrentPresentRelativeTime ≤ 0
    · exact Or.inl ⟨hstarted, if_pos hstarted⟩
    · exact Or.inr ⟨not_le.mp hstarted, if_neg hstarted⟩

variable {s timestamp}

/-- The queue the front item is looked at in. -/
theorem throwFarAhead_of_head {spu : Spu} {rest : List Spu}
    (h : s.mEmittedShowingSpu = spu :: rest) :
    (throwFarAhead s timestamp).mEmittedShowingSpu =
      if isFarAhead timestamp spu then rest.filter fun spu => !isFarAhead timestamp spu
      else spu :: rest.filter fun spu => !isFarAhead timestamp spu := by
  rw [throwFarAhead_showing, h, List.filter_cons]
  by_cases hfar : isFarAhead timestamp spu <;> simp [hfar]

/-- The three ways through the handler. -/
theorem checkSpu_cases (s : State) (timestamp : ℤ) :
    let s₁ := takeSpu (s.removeMessages .ptsTimeCheckSpu) timestamp
    let s₂ := throwOutOfDate s₁ timestamp
    let s₃ := throwFarAhead s₂ timestamp
    (s₁.mEmittedShowingSpu = [] ∧ checkSpu s timestamp = fade s₁ timestamp) ∨
      (s₁.mEmittedShowingSpu ≠ [] ∧ s₃.mEmittedShowingSpu = [] ∧ checkSpu s timestamp = s₃) ∨
      (∃ spu rest, s₂.mEmittedShowingSpu = spu :: rest ∧ s₃.mEmittedShowingSpu ≠ [] ∧
        checkSpu s timestamp =
          fade (showFront s₃ spu (isFarAhead timestamp spu) timestamp) timestamp) := by
  intro s₁ s₂ s₃
  by_cases hempty : s₁.mEmittedShowingSpu = []
  · exact Or.inl ⟨hempty, if_pos hempty⟩
  refine Or.inr ?_
  have hcheck : checkSpu s timestamp = if s₃.mEmittedShowingSpu = [] then s₃ else
      match s₂.mEmittedShowingSpu.head? with
      | none => fade s₃ timestamp
      | some spu => fade (showFront s₃ spu (isFarAhead timestamp spu) timestamp) timestamp :=
    if_neg hempty
  by_cases hfar : s₃.mEmittedShowingSpu = []
  · exact Or.inl ⟨hempty, hfar, hcheck.trans (if_pos hfar)⟩
  refine Or.inr ?_
  cases hfront : s₂.mEmittedShowingSpu with
  | nil =>
    refine absurd ?_ hfar
    show s₂.mEmittedShowingSpu.filter _ = []
    rw [hfront, List.filter_nil]
  | cons spu rest =>
    refine ⟨spu, rest, rfl, hfar, ?_⟩
    rw [hcheck, if_neg hfar, hfront]
    rfl

/-- Showing the front item, or waiting for its time; the third branch of the source
is never taken. -/
theorem showFront_cases (s : State) (spu : Spu) (purged : Bool) (timestamp : ℤ) :
    (isDue (repair spu timestamp) timestamp ∧ showFront s spu purged timestamp =
      showSpu ({ s with mEmittedShowingSpu := s.mEmittedShowingSpu.tail }.record
        ((if purged then s.mEmittedShowingSpu.take 1 else []).map .popped))
          (repair spu timestamp) timestamp) ∨
      (¬ isDue (repair spu timestamp) timestamp ∧ showFront s spu purged timestamp =
        { s with
          mEmittedShowingSpu := if purged then s.mEmittedShowingSpu
            else repair spu timestamp :: s.mEmittedShowingSpu.tail }.sendMessageDelayed
          (if (repair spu timestamp).isExtSub then ms2ns 100
            else convertDvbTime2Ns (repair spu timestamp).pts - timestamp) .ptsTimeCheckSpu) := by
  by_cases hdue : isDue (repair spu timestamp) timestamp
  · refine Or.inl ⟨hdue, (if_pos hdue).trans ?_⟩
    cases purged <;> rfl
  · refine Or.inr ⟨hdue, (if_neg hdue).trans (if_neg ?_)⟩
    exact fun h => hdue (Or.inr (Or.inl h.1))

end Parts

end Presentation
end AmlSubtitle
