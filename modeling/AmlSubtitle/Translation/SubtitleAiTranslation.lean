import AmlSubtitle.Lib.Run

/-!
# `ai_translation/SubtitleAiTranslation.cpp`: translating subtitle items

Items to translate wait in `mItemQueue`, their texts in the job queue of the worker
thread.  The worker translates one text after the other and writes each result into
the item in front of `mItemQueue`; a message tells the looper thread, which posts the
item in front to the observer and, when the result is complete, takes it off.

* A step is a section under `mMutex`, or what a thread does between two of them.  The
  threads are those that push items and reset, the worker, and the looper.
* The translation library is not part of the source.  What it does is in the events: it
  hands texts to the callback, and it returns.
* `LooperMessageProcess::handleMessage` takes every other message of the same kind out of
  the looper and sends one that comes ten seconds later (`resent`).  Time is left out: a
  pending message can be the next one at any moment.
* `Item.id`, `Item.origData`, `Job.id`, the two flags of `Detect`, `pushed`, `posts`,
  `discarded` and `outputs` are history; no step reads them, except that an item is named
  by the number of items pushed before it.
* An item is pushed once, and memory does not run out.
-/

namespace AmlSubtitle
namespace SubtitleAiTranslation

/-- A string. -/
abbrev Text := List UInt8

/-! ## Texts -/

/-- `START_FLAG_FOR_TRANSLATED_TEXT`, six times `>`. -/
def START_FLAG_FOR_TRANSLATED_TEXT : Text := List.replicate 6 62

/-- `END_FLAG_FOR_TRANSLATED_TEXT`, six times `<`. -/
def END_FLAG_FOR_TRANSLATED_TEXT : Text := List.replicate 6 60

/-- The text up to the first occurrence of a pattern. -/
def upTo (pattern : Text) : Text → Text
  | [] => []
  | c :: text => if pattern.isPrefixOf (c :: text) then [] else c :: upTo pattern text

/-- The text without an earlier translation. -/
def withoutTranslation (text : Text) : Text :=
  upTo ([10] ++ START_FLAG_FOR_TRANSLATED_TEXT) text

/-- `origAndTranslatedText` of `reportResult`. -/
def origAndTranslatedText (origText translatedText : Text) (complete : Bool) : Text :=
  if translatedText.length > 0 then
    origText ++ [10] ++ START_FLAG_FOR_TRANSLATED_TEXT ++ translatedText ++
      (if complete then END_FLAG_FOR_TRANSLATED_TEXT else [])
  else
    origText

/-- The text `cea608`. -/
def cea608 : Text := [99, 101, 97, 54, 48, 56]

/-- The text `cea708`. -/
def cea708 : Text := [99, 101, 97, 55, 48, 56]

/-! ## Items, jobs and messages -/

/-- `AML_SPUVAR` with the fields the translation reads; `origData` is what `spuData` was
when the item was pushed. -/
structure Item where
  id : ℕ
  origData : Text
  spuData : Option Text
  bufferSize : ℕ
  spuWidth : ℕ
  spuHeight : ℕ
  deriving DecidableEq, Repr

/-- A call of `translateText` in the queue of the worker. -/
structure Job where
  id : ℕ
  originalText : Text
  deriving DecidableEq, Repr

/-- The job of an item. -/
def Item.job (item : Item) : Job := ⟨item.id, item.origData.takeWhile (· ≠ 0)⟩

/-- The item with a result in place of its data. -/
def Item.withText (item : Item) (text : Text) : Item :=
  { item with spuData := some text, bufferSize := text.length }

/-- `Mt_InputString.text_input` while the job is translated. -/
def Job.input (job : Job) : Text := withoutTranslation job.originalText

/-- `MSG_AI_TRANSLATION_HAS_MORE` and `MSG_AI_TRANSLATION_COMPLETE`. -/
inductive What where
  | hasMore
  | complete
  deriving DecidableEq, Repr

/-- A message in the looper; `resent` are those of `LooperMessageProcess::handleMessage`. -/
structure Message where
  what : What
  resent : Bool
  deriving DecidableEq, Repr

/-- It says that a result is complete, and was not sent again. -/
def Message.completes (m : Message) : Bool := decide (m.what = .complete) && !m.resent

/-- A call of the library: whether it has reported a complete text, and whether it has been
told to stop. -/
structure Detect where
  completed : Bool
  refused : Bool
  deriving DecidableEq, Repr

/-- Where the worker is. -/
inductive Worker where
  | idle
  /-- at the head of `translateText` -/
  | started (job : Job)
  /-- in the library -/
  | detecting (job : Job) (d : Detect)
  /-- in front of the lock of `reportResult`, in the callback of a call or behind it -/
  | reporting (job : Job) (text : Text) (complete : Bool) (back : Option Detect)
  deriving DecidableEq, Repr

/-- A text the library gave for an input. -/
structure Output where
  input : Text
  text : Text
  complete : Bool
  deriving DecidableEq, Repr

/-- How an item comes to the observer. -/
inductive Kind where
  /-- by `push2Translate`, untranslated -/
  | direct
  /-- by the looper, more to follow -/
  | hasMore
  /-- by the looper, taken off the queue -/
  | complete
  deriving DecidableEq, Repr

/-- What the observer got. -/
structure Post where
  item : Item
  kind : Kind
  deriving DecidableEq, Repr

/-! ## The state -/

/-- The translation, its worker and its looper.  `running` is `IsThreadRunning`, `ready` is
`Mt_Handler && mIsAiTranslationReady`, and `inHand` the message the looper thread has taken
and not handled yet. -/
structure State where
  running : Bool
  ready : Bool
  mStopTranslation : Bool
  mItemQueue : List Item
  mJobQueue : List Job
  worker : Worker
  mLooper : List Message
  inHand : Option Message
  pushed : ℕ
  posts : List Post
  discarded : List ℕ
  outputs : List Output
  deriving DecidableEq, Repr

/-- Nothing has been pushed; the worker thread runs or does not. -/
def start (running : Bool) : State where
  running := running
  ready := false
  mStopTranslation := false
  mItemQueue := []
  mJobQueue := []
  worker := .idle
  mLooper := []
  inHand := none
  pushed := 0
  posts := []
  discarded := []
  outputs := []

/-- `postResult2Observer`. -/
def State.postResult2Observer (s : State) (item : Item) (kind : Kind) : State :=
  { s with posts := s.posts ++ [⟨item, kind⟩] }

/-! ## Pushing and resetting -/

/-- `isTextSubtitle`. -/
def isTextSubtitle (item : Item) : Prop :=
  item.spuData.isSome ∧ item.bufferSize > 0 ∧ item.spuWidth = 0 ∧ item.spuHeight = 0

instance (item : Item) : Decidable (isTextSubtitle item) := inferInstanceAs (Decidable (_ ∧ _))

/-- The item is to be translated. -/
def IsQueued (s : State) (item : Item) : Prop :=
  isTextSubtitle item ∧ ¬ cea608 <:+: item.job.originalText ∧
    ¬ cea708 <:+: item.job.originalText ∧ s.running

instance (s : State) (item : Item) : Decidable (IsQueued s item) :=
  inferInstanceAs (Decidable (_ ∧ _))

/-- The item as it is when it is pushed. -/
def State.arrival (s : State) (item : Item) (data : Text) : Item :=
  { item with id := s.pushed, origData := data, spuData := some data }

/-- `push2Translate`.  A null item, or one without data, is ignored. -/
def push2Translate (s : State) (item : Option Item) : State :=
  match item with
  | none => s
  | some item =>
    match item.spuData with
    | none => s
    | some data =>
      let item := s.arrival item data
      let s := { s with pushed := s.pushed + 1 }
      if IsQueued s item then
        { s with mItemQueue := s.mItemQueue ++ [item], mJobQueue := s.mJobQueue ++ [item.job] }
      else
        s.postResult2Observer item .direct

/-- `resetForSeek`. -/
def resetForSeek (s : State) : State :=
  { s with
    mStopTranslation := if s.ready then true else s.mStopTranslation
    mItemQueue := []
    discarded := s.discarded ++ s.mItemQueue.map Item.id }

/-! ## The worker -/

/-- `doLoadAaiLanguage`, a job of its own: the library is ready afterwards, or not. -/
def doLoadAaiLanguage (s : State) (ready : Bool) : State :=
  match s.worker with
  | .idle => { s with ready := ready }
  | _ => s

/-- The worker takes a job. -/
def take (s : State) : State :=
  match s.worker, s.mJobQueue with
  | .idle, job :: rest => { s with mJobQueue := rest, worker := .started job }
  | _, _ => s

/-- `translateText` up to the call of the library. -/
def translateText (s : State) : State :=
  match s.worker with
  | .started job =>
    if ¬ s.ready then
      { s with worker := .reporting job (origAndTranslatedText job.originalText [] true) true none }
    else if job.originalText.length = 0 then
      { s with worker := .reporting job (origAndTranslatedText job.originalText [] true) true none }
    else
      { s with mStopTranslation := false, worker := .detecting job ⟨false, false⟩ }
  | _ => s

/-- `onAaiCallback`, up to `reportResult`. -/
def onAaiCallback (s : State) (translatedText : Text) (complete : Bool) : State :=
  match s.worker with
  | .detecting job d =>
    if s.mStopTranslation then
      { s with worker := .detecting job { d with refused := true } }
    else
      { s with
        outputs := s.outputs ++ [⟨job.input, translatedText, complete⟩]
        worker := .reporting job (origAndTranslatedText job.input translatedText complete) complete
          (some { d with completed := d.completed || complete }) }
  | _ => s

/-- `Mt_Params.stream_enable`, which `doLoadAaiLanguage` sets. -/
def stream_enable : Bool := true

/-- `translateText` behind the call of the library, which has returned `IVA_STATUS_OK` or an
error. -/
def detected (s : State) (ok : Bool) (output : Text) : State :=
  match s.worker with
  | .detecting job _ =>
    if ¬ ok then
      { s with worker := .reporting job (origAndTranslatedText job.originalText [] true) true none }
    else if ¬ stream_enable then
      { s with
        worker := .reporting job (origAndTranslatedText job.originalText output true) true none }
    else
      { s with worker := .idle }
  | _ => s

/-- Where the worker is after `reportResult`. -/
def Worker.after (job : Job) : Option Detect → Worker
  | none => .idle
  | some d => .detecting job d

/-- The locked section of `reportResult`. -/
def reportResult (s : State) : State :=
  match s.worker with
  | .reporting job text complete back =>
    let s := { s with worker := Worker.after job back }
    match s.mItemQueue with
    | [] => s
    | it :: rest =>
      { s with
        mItemQueue := it.withText text :: rest
        mLooper := s.mLooper ++ [⟨if complete then .complete else .hasMore, false⟩] }
  | _ => s

/-! ## The looper -/

/-- `LooperMessageProcess::handleMessage` with the `k`-th pending message, up to the lock of
`HandleMessage`. -/
def deliver (s : State) (k : ℕ) : State :=
  match s.inHand, s.mLooper[k]? with
  | none, some message =>
    { s with
      mLooper := (s.mLooper.eraseIdx k).filter (fun m => m.what ≠ message.what) ++
        [⟨message.what, true⟩]
      inHand := some message }
  | _, _ => s

/-- `HandleMessage`. -/
def handle (s : State) : State :=
  match s.inHand with
  | none => s
  | some message =>
    let s := { s with inHand := none }
    match s.mItemQueue with
    | [] => s
    | it :: rest =>
      if s.mStopTranslation then s
      else if it.spuData = none then s
      else if message.what = .complete then
        { s with mItemQueue := rest }.postResult2Observer it .complete
      else
        s.postResult2Observer it .hasMore

/-! ## The system -/

/-- A step of one of the threads. -/
inductive Event where
  | push (item : Option Item)
  | resetForSeek
  | load (ready : Bool)
  | take
  | translate
  | callback (translatedText : Text) (complete : Bool)
  | detected (ok : Bool) (output : Text)
  | report
  | deliver (k : ℕ)
  | handle
  deriving DecidableEq, Repr

def step (s : State) : Event → State
  | .push item => push2Translate s item
  | .resetForSeek => SubtitleAiTranslation.resetForSeek s
  | .load ready => doLoadAaiLanguage s ready
  | .take => SubtitleAiTranslation.take s
  | .translate => translateText s
  | .callback translatedText complete => onAaiCallback s translatedText complete
  | .detected ok output => SubtitleAiTranslation.detected s ok output
  | .report => reportResult s
  | .deliver k => SubtitleAiTranslation.deliver s k
  | .handle => SubtitleAiTranslation.handle s

/-! ## What is asked of a run -/

/-- The text is the result of the job: its own text, where there is no translation, or its
own text with a translation of it. -/
def IsResult (outputs : List Output) (job : Job) (text : Text) (complete : Bool) : Prop :=
  (complete = true ∧ text = job.originalText) ∨
    ∃ o ∈ outputs, o.input = job.input ∧ o.complete = complete ∧
      text = origAndTranslatedText job.input o.text complete

instance (outputs : List Output) (job : Job) (text : Text) (complete : Bool) :
    Decidable (IsResult outputs job text complete) :=
  inferInstanceAs (Decidable (_ ∨ _))

/-- What an item carries is its own: its data as they came, or a result of its own job. -/
def Own (outputs : List Output) (item : Item) : Prop :=
  item.spuData = some item.origData ∨
    ∃ text ∈ item.spuData, ∃ complete, IsResult outputs item.job text complete

instance (outputs : List Output) (item : Item) : Decidable (Own outputs item) :=
  inferInstanceAs (Decidable (_ ∨ _))

/-- What an item carries is the complete result of its own job. -/
def Finished (outputs : List Output) (item : Item) : Prop :=
  ∃ text ∈ item.spuData, IsResult outputs item.job text true

instance (outputs : List Output) (item : Item) : Decidable (Finished outputs item) :=
  inferInstanceAs (Decidable (∃ _ ∈ _, _))

/-- What a post has to carry. -/
def Carries (outputs : List Output) (p : Post) : Prop :=
  match p.kind with
  | .direct => p.item.spuData = some p.item.origData
  | .hasMore => Own outputs p.item
  | .complete => Finished outputs p.item

instance (outputs : List Output) : ∀ p, Decidable (Carries outputs p)
  | ⟨item, .direct⟩ => inferInstanceAs (Decidable (item.spuData = some item.origData))
  | ⟨item, .hasMore⟩ => inferInstanceAs (Decidable (Own outputs item))
  | ⟨item, .complete⟩ => inferInstanceAs (Decidable (Finished outputs item))

namespace State

/-- The items that were posted for good. -/
def finalised (s : State) : List ℕ :=
  (s.posts.filter fun p => p.kind ≠ .hasMore).map fun p => p.item.id

/-- The messages that say a result is complete, those sent again left out. -/
def completes (s : State) : List Message :=
  (s.inHand.toList ++ s.mLooper).filter Message.completes

end State

/-- The job whose complete result the worker still owes. -/
def Worker.owes : Worker → List Job
  | .idle => []
  | .started job => [job]
  | .detecting job d => if d.completed then [] else [job]
  | .reporting job _ _ _ => [job]

/-- The jobs whose complete results are still to come. -/
def State.owes (s : State) : List Job := s.worker.owes ++ s.mJobQueue

/-- **What the claimed pairing says of a state**: each post carries what is its item's own,
the posts are in the order of the pushes, and each pushed item is in one place, which is
not the queue once all jobs are done and all messages handled. -/
structure Paired (s : State) : Prop where
  own : ∀ p ∈ s.posts, Carries s.outputs p
  ordered : (s.posts.map fun p => p.item.id).Pairwise (· ≤ ·)
  once : (s.finalised ++ s.discarded ++ s.mItemQueue.map Item.id).Perm (List.range s.pushed)
  drained : s.owes = [] → s.completes = [] → s.mItemQueue = []

/-- The call of the library that has not returned and is not in the callback. -/
def Worker.inLibrary : Worker → Option Detect
  | .detecting _ d => some d
  | _ => none

/-- What the worker relies on: the library reports one complete text before it returns
without an error, unless it was told to stop, and none before it returns with one. -/
def Reliable (s : State) : Event → Prop
  | .callback _ _ => ∀ d ∈ s.worker.inLibrary, d.completed = false
  | .detected ok _ => ∀ d ∈ s.worker.inLibrary,
      if ok then d.completed = true ∨ d.refused = true else d.completed = false
  | _ => True

instance (s : State) : ∀ e, Decidable (Reliable s e)
  | .callback _ _ => inferInstanceAs (Decidable (∀ d ∈ s.worker.inLibrary, d.completed = false))
  | .detected ok _ => inferInstanceAs (Decidable (∀ d ∈ s.worker.inLibrary,
      if ok then d.completed = true ∨ d.refused = true else d.completed = false))
  | .push _ | .resetForSeek | .load _ | .take | .translate | .report | .deliver _ | .handle =>
    inferInstanceAs (Decidable True)

/-- The steps that do not lead astray.
* An item is posted directly only while none waits; and one is queued behind a reset only
  when neither a job nor the message of a complete result is left from before.
* A result is written only when the message of the complete result before it has been
  handled, or no item waits.
* A message sent again does not take that message out of the looper, and it is not handled
  while an item waits, unless results are being ignored; then no other is. -/
def Safe (s : State) : Event → Prop
  | .push item => ∀ i ∈ item, ∀ data ∈ i.spuData, s.mItemQueue = [] ∧
      (IsQueued s (s.arrival i data) → s.owes = [] ∧ s.completes = []) ∨
        s.mItemQueue ≠ [] ∧ IsQueued s (s.arrival i data)
  | .report => s.mItemQueue ≠ [] → s.completes = []
  | .deliver k => ∀ m ∈ s.mLooper[k]?, m.what = .complete → m.resent = true →
      s.mItemQueue ≠ [] → s.completes = []
  | .handle => ∀ m ∈ s.inHand, m.what = .complete → s.mItemQueue ≠ [] →
      m.resent = s.mStopTranslation
  | _ => True

instance (s : State) : ∀ e, Decidable (Safe s e)
  | .push item => inferInstanceAs (Decidable (∀ i ∈ item, ∀ data ∈ i.spuData, _ ∨ _))
  | .report => inferInstanceAs (Decidable (s.mItemQueue ≠ [] → s.completes = []))
  | .deliver k => inferInstanceAs (Decidable (∀ m ∈ s.mLooper[k]?, _ → _ → _ → _))
  | .handle => inferInstanceAs (Decidable (∀ m ∈ s.inHand, _ → _ → _))
  | .resetForSeek | .load _ | .take | .translate | .callback _ _ | .detected _ _ =>
    inferInstanceAs (Decidable True)

end SubtitleAiTranslation
end AmlSubtitle
