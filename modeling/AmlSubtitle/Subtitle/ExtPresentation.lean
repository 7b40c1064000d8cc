import AmlSubtitle.Subtitle.Presentation

/-!
# `subtitle/Presentation.cpp`: presenting an external subtitle

The handler `handleExtSub` of `Presentation::MessageProcess`, which presents the cues
of a subtitle file, with the queue of the parser that fills its list of cues.  The
clock drives it: at each tick it computes what is to be on the screen and tells the
renderer only when that is another item than the one it remembers.

* `screen` is what the last command to the renderer put there: an item, or nothing.
  No translator is set, the parser is playing and the message process is not exiting.
* `mLastShowingSpu != spu` compares pointers.  Each item has an identity of its own,
  and so has an item combined of several cues; `objects` counts the identities given
  out.  Two items are the same text or picture when they have one `content`.
* `due` is history that the handler does not read: the item that was due at the last
  tick and whether too little of its time was left when it first became due.
* Nothing is put on the fading list in this mode, and clearing it is left out.
-/

namespace AmlSubtitle
namespace Presentation
namespace ExtSub

open Spu

/-! ## The cues that are due -/

/-- `MINIMUM_REMAIN_DISPLAY_TIME_MS`. -/
def MINIMUM_REMAIN_DISPLAY_TIME_MS : ℤ := 30

/-- `EXTERNAL_MAX_NUMBER_SPU_ITEM`. -/
def EXTERNAL_MAX_NUMBER_SPU_ITEM : ℕ := 1500

/-- `fixSpuDelay`. -/
def fixSpuDelay (pts delay : ℤ) : ℤ :=
  if delay ≤ 0 ∨ delay ≤ pts + 500 * DVB_TIME_MULTI then
    pts + ADDJUST_NO_PTS_MS * DVB_TIME_MULTI
  else
    delay

/-- `computeShowingSpuList`.  The loop ends at the first cue whose end is ahead. -/
def computeShowingSpuList : List Spu → ℤ → List Spu
  | [], _ => []
  | it :: list, timestamp =>
    let showing :=
      if timestamp ≥ convertDvbTime2Ns it.pts ∧ timestamp ≤ convertDvbTime2Ns it.mDelay then [it]
      else []
    if convertDvbTime2Ns it.mDelay > timestamp then showing
    else showing ++ computeShowingSpuList list timestamp

/-- The object made of several text cues, by its identity: a copy of the first with
the texts of all.  The buffer is as large as if each text were as long as the first;
text beyond its end, which the source writes all the same, is kept. -/
def newCue (front : Spu) (list : List Spu) (object : ℕ) : Spu :=
  let totalSize := list.length * (front.bufferSize + 1)
  let text := list.flatMap fun s => cText (s.spuData.getD []) ++ [10]
  { front with
    id := object
    spuData := some ((text ++ List.replicate (totalSize + 1 - text.length) 0).set totalSize 0) }

/-- `getShowingSpuFromList`; `object` is the identity of an object that is made. -/
def getShowingSpuFromList (list : List Spu) (object : ℕ) : Option Spu :=
  match list with
  | [] => none
  | front :: rest =>
    if !front.isSimpleText then (front :: rest).getLast?
    else if rest ≠ [] then some (newCue front (front :: rest) object)
    else some front

/-- `remainMs`, the time that is left of an item. -/
def remainMs (spu : Spu) (timestampNs : ℤ) : ℤ :=
  spu.mDelay.tdiv DVB_TIME_MULTI - ns2ms timestampNs

/-- What an item shows, whichever object it is. -/
def content (spu : Spu) : Spu := { spu with id := 0 }

/-! ## The state -/

/-- The item due at a tick. -/
structure Due where
  item : Spu
  /-- it first became due with less than the minimum time left -/
  short : Bool
  deriving DecidableEq, Repr

/-- The parser's queue, the presentation and the screen. -/
structure State where
  mDecodedSpu : List Spu
  mEmittedShowingSpu : List Spu
  mLastShowingSpu : Option Spu
  screen : Option Spu
  due : Option Due
  objects : ℕ
  deriving DecidableEq, Repr

/-- Nothing is decoded, nothing is shown. -/
def start : State := ⟨[], [], none, none, none, 0⟩

/-- `ExtParser::parse` with the next cue of the file, which waits while the queue is
full. -/
def parse (s : State) (item : Spu) : State :=
  if s.mDecodedSpu.length < EXTERNAL_MAX_NUMBER_SPU_ITEM then
    { s with
      mDecodedSpu := s.mDecodedSpu ++ [{ item with id := s.objects }]
      objects := s.objects + 1 }
  else
    s

/-! ## The handler -/

/-- A cue as it is put on the list. -/
def fixDelay (spu : Spu) : Spu := { spu with mDelay := fixSpuDelay spu.pts spu.mDelay }

/-- Collecting the decoded items; the list is sorted after each. -/
def collect (s : State) : State :=
  { s with
    mDecodedSpu := []
    mEmittedShowingSpu :=
      s.mDecodedSpu.foldl (fun spuList spu => sortPts (spuList ++ [fixDelay spu]))
        s.mEmittedShowingSpu }

/-- The item to show at a clock value. -/
def showingSpu (s : State) (timestampNs : ℤ) : Option Spu :=
  getShowingSpuFromList (computeShowingSpuList s.mEmittedShowingSpu timestampNs) s.objects

/-- The item is given to the renderer. -/
def IsSent (s : State) (spu : Spu) (timestampNs : ℤ) : Prop :=
  s.mLastShowingSpu.map Spu.id ≠ some spu.id ∧
    remainMs spu timestampNs ≥ MINIMUM_REMAIN_DISPLAY_TIME_MS

instance (s : State) (spu : Spu) (timestampNs : ℤ) : Decidable (IsSent s spu timestampNs) :=
  inferInstanceAs (Decidable (_ ∧ _))

/-- The item was due at the last tick too. -/
def WasDue (s : State) (spu : Spu) : Prop :=
  s.due.map (fun d => content d.item) = some (content spu)

instance (s : State) (spu : Spu) : Decidable (WasDue s spu) :=
  inferInstanceAs (Decidable (_ = _))

/-- What the history says of the item now due. -/
def nextDue (s : State) (spu : Spu) (timestampNs : ℤ) : Due where
  item := spu
  short :=
    if WasDue s spu then s.due.any Due.short
    else decide (remainMs spu timestampNs < MINIMUM_REMAIN_DISPLAY_TIME_MS)

/-- `handleExtSub` of `MSG_PTS_TIME_CHECK_SPU`, the items collected. -/
def update (s : State) (timestampNs : ℤ) : State :=
  match showingSpu s timestampNs with
  | some spu =>
    { s with
      screen := if IsSent s spu timestampNs then some spu else s.screen
      mLastShowingSpu := some spu
      due := some (nextDue s spu timestampNs)
      objects := s.objects + 1 }
  | none =>
    if s.mLastShowingSpu ≠ none then
      { s with screen := none, mLastShowingSpu := none, due := none }
    else
      { s with due := none }

/-- `MessageProcess::handleExtSub`. -/
def handleExtSub (s : State) (what : What) (timestampNs : ℤ) : State :=
  match what with
  | .ptsTimeCheckSpu => update (collect s) timestampNs
  | .resetMessageQueue => { s with screen := none }

/-! ## The system -/

/-- What happens next: the parser reads a cue, or the looper delivers a message at some
clock value. -/
inductive Event where
  | parse (item : Spu)
  | deliver (what : What) (clock : Clock)
  deriving DecidableEq, Repr

/-- One event.  Until the video has started, `handleMessage` only puts a message off. -/
def step (s : State) : Event → State
  | .parse item => ExtSub.parse s item
  | .deliver what clock =>
    if clock.mCurrentPresentRelativeTime ≤ 0 then s else handleExtSub s what clock.timestamp

/-! ## What is asked of a tick -/

/-- The condition `C` on the collected state and the clock value of a tick that the
handler gets. -/
def AtTick (C : State → ℤ → Prop) (s : State) : Event → Prop
  | .deliver .ptsTimeCheckSpu clock =>
    0 < clock.mCurrentPresentRelativeTime → C (collect s) clock.timestamp
  | _ => True

instance (C : State → ℤ → Prop) [∀ s t, Decidable (C s t)] (s : State) :
    ∀ e, Decidable (AtTick C s e)
  | .deliver .ptsTimeCheckSpu clock =>
    inferInstanceAs (Decidable (0 < clock.mCurrentPresentRelativeTime → _))
  | .deliver .resetMessageQueue _ => inferInstanceAs (Decidable True)
  | .parse _ => inferInstanceAs (Decidable True)

/-- After the tick the item that is due is on the screen, unless it first became due
with too little time left; if none is due, nothing is. -/
def ShowsDue (s : State) (timestampNs : ℤ) : Prop :=
  match showingSpu s timestampNs with
  | none => (update s timestampNs).screen = none
  | some spu =>
    (update s timestampNs).screen.map content = some (content spu) ∨
      (nextDue s spu timestampNs).short = true

instance (s : State) (timestampNs : ℤ) : Decidable (ShowsDue s timestampNs) :=
  match h : showingSpu s timestampNs with
  | none => decidable_of_iff ((update s timestampNs).screen = none) (by rw [ShowsDue, h])
  | some spu =>
    decidable_of_iff
      ((update s timestampNs).screen.map content = some (content spu) ∨
        (nextDue s spu timestampNs).short = true) (by rw [ShowsDue, h])

/-- After the tick `mLastShowingSpu` is what is on the screen. -/
def Describes (s : State) (timestampNs : ℤ) : Prop :=
  (update s timestampNs).mLastShowingSpu.map content =
    (update s timestampNs).screen.map content

instance (s : State) (timestampNs : ℤ) : Decidable (Describes s timestampNs) :=
  inferInstanceAs (Decidable (_ = _))

/-- The item that is due was due at the last tick too, and was long enough then; if
nothing is on the screen any more, as after a reset, it is another object than the
one remembered, and it still has the minimum time left. -/
def Reshown (s : State) (timestampNs : ℤ) : Prop :=
  ∀ spu, showingSpu s timestampNs = some spu → WasDue s spu → s.due.any Due.short = false →
    s.screen = none → IsSent s spu timestampNs

/-- The item that is due, if it was not due at the last tick, has the minimum time
left. -/
def LongEnough (s : State) (timestampNs : ℤ) : Prop :=
  ∀ spu, showingSpu s timestampNs = some spu → ¬ WasDue s spu →
    MINIMUM_REMAIN_DISPLAY_TIME_MS ≤ remainMs spu timestampNs

end ExtSub
end Presentation
end AmlSubtitle
