import AmlSubtitle.Lib.Run

/-!
# `utils/AndroidCallbackMessageQueue.cpp`: events on their way to the proxy

Any thread posts an event: under the lock it joins a list, and a message
`MSG_CHECK_SUBDATA` is sent to the looper.  The looper's thread takes a pending message and
calls `handleMessage`, which under the lock takes one event off the list and replaces
every pending message by one, immediate or two seconds away.  Behind the lock it hands the
event to the proxy.

The looper delivers its pending messages in any order here, whatever their delays are, and
threads post between any two steps of the handler.  The looper has been created and the
proxy is set.

* `alive_exec`: the looper has a message pending or the handler is about to look at the
  list, also while the list is empty.
* `exists_handled`: what the proxy was told, the event in the handler's hands and the list
  are together what was posted.
-/

namespace AmlSubtitle
namespace AndroidCallbackMessageQueue

/-! ## Events -/

/-- `EVENT_ON_SUBTITLEDATA_CALLBACK`. -/
def EVENT_ON_SUBTITLEDATA_CALLBACK : ℤ := 0xA00000

/-- `EVENT_ON_SUBTITLEAVAILABLE_CALLBACK`. -/
def EVENT_ON_SUBTITLEAVAILABLE_CALLBACK : ℤ := 0xA00001

/-- `EVENT_ON_VIDEOAFDCHANGE_CALLBACK`. -/
def EVENT_ON_VIDEOAFDCHANGE_CALLBACK : ℤ := 0xA00002

/-- `EVENT_ON_MIXVIDEOEVENT_CALLBACK`. -/
def EVENT_ON_MIXVIDEOEVENT_CALLBACK : ℤ := 0xA00003

/-- `EVENT_ON_SUBTITLE_DIMENSION_CALLBACK`. -/
def EVENT_ON_SUBTITLE_DIMENSION_CALLBACK : ℤ := 0xA00004

/-- `EVENT_ON_SUBTITLE_LANGUAGE_CALLBACK`. -/
def EVENT_ON_SUBTITLE_LANGUAGE_CALLBACK : ℤ := 0xA00005

/-- `EVENT_ON_SUBTITLE_INFO_CALLBACK`. -/
def EVENT_ON_SUBTITLE_INFO_CALLBACK : ℤ := 0xA00006

/-- `SubtitleData`, whose fields are zero where a post leaves them out.  `lang` is the
address of a C string that stays the caller's. -/
structure SubtitleData where
  mem : List UInt8 := []
  type : ℤ
  x : ℤ := 0
  y : ℤ := 0
  width : ℤ := 0
  height : ℤ := 0
  videoWidth : ℤ := 0
  videoHeight : ℤ := 0
  size : ℕ := 0
  isShow : ℤ := 0
  objectSegmentId : ℤ := 0
  lang : ℕ := 0
  deriving DecidableEq, Repr

def onSubtitleDataEvent (event channelId : ℤ) : SubtitleData :=
  { type := EVENT_ON_SUBTITLEDATA_CALLBACK, x := event, y := channelId }

def onSubtitleDimension (width height : ℤ) : SubtitleData :=
  { type := EVENT_ON_SUBTITLE_DIMENSION_CALLBACK, x := width, y := height }

def onSubtitleAvailable (available : ℤ) : SubtitleData :=
  { type := EVENT_ON_SUBTITLEAVAILABLE_CALLBACK, x := available }

def onVideoAfdChange (afd playerid : ℤ) : SubtitleData :=
  { type := EVENT_ON_VIDEOAFDCHANGE_CALLBACK, x := afd, y := playerid }

def onMixVideoEvent (val : ℤ) : SubtitleData :=
  { type := EVENT_ON_MIXVIDEOEVENT_CALLBACK, x := val }

def onSubtitleLanguage (lang : ℕ) : SubtitleData :=
  { type := EVENT_ON_SUBTITLE_LANGUAGE_CALLBACK, lang := lang }

def onSubtitleInfo (what extra : ℤ) : SubtitleData :=
  { type := EVENT_ON_SUBTITLE_INFO_CALLBACK, x := what, y := extra }

/-- The shared memory `postDisplayData` allocates and copies the data to. -/
def sharedMemory (data : Option (List UInt8)) (size : ℕ) : List UInt8 :=
  match data with
  | none => List.replicate (size + 1024) 0
  | some data => data.take size ++ List.replicate 1024 0

/-- `postDisplayData`, where the memory could be allocated.  `type` is the type of a
parser. -/
def postDisplayData (data : Option (List UInt8)) (type x y width height videoWidth videoHeight : ℤ)
    (size : ℕ) (cmd objectSegmentId : ℤ) : SubtitleData :=
  { mem := sharedMemory data size
    type := type
    x := x
    y := y
    width := width
    height := height
    videoWidth := videoWidth
    videoHeight := videoHeight
    size := size
    isShow := cmd
    objectSegmentId := objectSegmentId }

/-! ## What the proxy is told -/

/-- `SubtitleHidlParcel`. -/
structure SubtitleHidlParcel where
  msgType : ℤ
  bodyInt : List ℤ := []
  bodyString : List (List UInt8) := []
  mem : List UInt8 := []
  deriving DecidableEq, Repr

/-- A call of the proxy. -/
inductive Notification where
  | onSubtitleEventNotify (parcel : SubtitleHidlParcel)
  | onSubtitleDisplayNotify (parcel : SubtitleHidlParcel)
  deriving DecidableEq, Repr

/-- The part of `handleMessage` behind the lock.  `cString` is what the C strings of the
callers are at that time. -/
def processing (cString : ℕ → List UInt8) (data : SubtitleData) : Notification :=
  let msgType := data.type
  if msgType = EVENT_ON_SUBTITLEDATA_CALLBACK then
    .onSubtitleEventNotify { msgType, bodyInt := [data.x, data.y] }
  else if msgType = EVENT_ON_SUBTITLEAVAILABLE_CALLBACK then
    .onSubtitleEventNotify { msgType, bodyInt := [data.x] }
  else if msgType = EVENT_ON_VIDEOAFDCHANGE_CALLBACK then
    .onSubtitleEventNotify { msgType, bodyInt := [data.x, data.y] }
  else if msgType = EVENT_ON_SUBTITLE_DIMENSION_CALLBACK then
    .onSubtitleEventNotify { msgType, bodyInt := [data.x, data.y] }
  else if msgType = EVENT_ON_MIXVIDEOEVENT_CALLBACK then
    .onSubtitleEventNotify { msgType, bodyInt := [data.x] }
  else if msgType = EVENT_ON_SUBTITLE_LANGUAGE_CALLBACK then
    .onSubtitleEventNotify { msgType, bodyString := [cString data.lang] }
  else if msgType = EVENT_ON_SUBTITLE_INFO_CALLBACK then
    .onSubtitleEventNotify { msgType, bodyInt := [data.x, data.y] }
  else
    .onSubtitleDisplayNotify
      { msgType
        bodyInt := [data.width, data.height, data.size, data.isShow, data.x, data.y,
          data.videoWidth, data.videoHeight, data.objectSegmentId]
        mem := data.mem }

/-! ## The queue -/

/-- Where the looper's thread is. -/
inductive Handler where
  /-- waiting in the looper -/
  | polling
  /-- in `handleMessage`, in front of the lock -/
  | called
  /-- behind the lock, with what was taken off the list -/
  | unlocked (data : Option SubtitleData)
  deriving DecidableEq, Repr

/-- The queue, its looper with the delay of each pending message, and what the proxy was
told. -/
structure State where
  mSubtitleData : List SubtitleData
  mLooper : List ℤ
  handler : Handler
  notified : List Notification
  deriving DecidableEq, Repr

/-- The looper has just been created. -/
def create : State := ⟨[], [100], .polling, []⟩

/-- Two seconds, in nanoseconds. -/
def twoSeconds : ℤ := 2 * 1000 * 1000 * 1000

/-- A step of one of the threads. -/
inductive Event where
  /-- the locked section of a post -/
  | post (data : SubtitleData)
  /-- the looper takes its `k`-th pending message and calls the handler -/
  | poll (k : ℕ)
  /-- the locked section of the handler -/
  | locked
  /-- the rest of the handler -/
  | process (cString : ℕ → List UInt8)

/-- A step that is not possible in a state leaves it alone. -/
def step (s : State) : Event → State
  | .post data =>
    { s with mSubtitleData := s.mSubtitleData ++ [data], mLooper := s.mLooper ++ [0] }
  | .poll k =>
    if s.handler = .polling ∧ k < s.mLooper.length then
      { s with mLooper := s.mLooper.eraseIdx k, handler := .called }
    else
      s
  | .locked =>
    if s.handler = .called then
      let rest := s.mSubtitleData.tail
      { s with
        mSubtitleData := rest
        mLooper := if rest ≠ [] then [0] else [twoSeconds]
        handler := .unlocked s.mSubtitleData.head? }
    else
      s
  | .process cString =>
    match s.handler with
    | .unlocked (some data) =>
      { s with handler := .polling, notified := s.notified ++ [processing cString data] }
    | .unlocked none => { s with handler := .polling }
    | _ => s

/-- The state after some steps. -/
def exec (es : List Event) : State := es.foldl step create

/-- What some steps have posted. -/
def posted (es : List Event) : List SubtitleData :=
  es.filterMap fun e => match e with
    | .post data => some data
    | _ => none

theorem exec_append_singleton (es : List Event) (e : Event) :
    exec (es ++ [e]) = step (exec es) e := by
  rw [exec, List.foldl_append]
  rfl

theorem posted_append_singleton (es : List Event) (e : Event) :
    posted (es ++ [e]) = posted es ++ posted [e] := List.filterMap_append

/-! ## Wake-ups -/

/-- A message is pending, or a handler has been called that has not been in its locked
section yet. -/
def Alive (s : State) : Prop := s.mLooper ≠ [] ∨ s.handler = .called

/-- Events in the list are not left alone. -/
def Waking (s : State) : Prop := s.mSubtitleData ≠ [] → Alive s

theorem alive_step {s : State} (h : Alive s) (e : Event) : Alive (step s e) := by
  cases e with
  | post data => exact Or.inl (List.append_ne_nil_of_right_ne_nil _ (List.cons_ne_nil 0 []))
  | poll k =>
    by_cases hpoll : s.handler = .polling ∧ k < s.mLooper.length
    · rw [step, if_pos hpoll]
      exact Or.inr rfl
    · rw [step, if_neg hpoll]
      exact h
  | locked =>
    by_cases hcalled : s.handler = .called
    · rw [step, if_pos hcalled]
      refine Or.inl ?_
      dsimp only
      split_ifs <;> exact List.cons_ne_nil _ _
    · rw [step, if_neg hcalled]
      exact h
  | process cString =>
    have hcalled : s.handler ≠ .called → s.mLooper ≠ [] := fun hne => h.resolve_right hne
    rw [step]
    split
    · rename_i hdata
      exact Or.inl (hcalled (by simp [hdata]))
    · rename_i hnone
      exact Or.inl (hcalled (by simp [hnone]))
    · exact h

theorem alive_exec (es : List Event) : Alive (exec es) :=
  Run.invariant (I := Alive) (fun _ e h => alive_step h e) (Or.inl (by decide)) es

theorem waking_exec (es : List Event) : Waking (exec es) := fun _ => alive_exec es

/-! ## Delivery -/

/-- The event in the handler's hands. -/
def Handler.inHand : Handler → List SubtitleData
  | .unlocked (some data) => [data]
  | _ => []

@[simp] theorem inHand_polling : Handler.polling.inHand = [] := rfl

/-- What the proxy is told of an event. -/
def Carries (data : SubtitleData) (n : Notification) : Prop :=
  ∃ cString, n = processing cString data

/-- **What was posted**, in the order it was posted in: what the proxy was told, then the
event in the handler's hands, then the list. -/
theorem exists_handled (es : List Event) : ∃ handled,
    posted es = handled ++ ((exec es).handler.inHand ++ (exec es).mSubtitleData) ∧
      List.Forall₂ Carries handled (exec es).notified := by
  induction es using List.reverseRecOn with
  | nil => exact ⟨[], rfl, List.Forall₂.nil⟩
  | append_singleton es e ih =>
    obtain ⟨handled, hposted, hnotified⟩ := ih
    rw [exec_append_singleton, posted_append_singleton, hposted]
    generalize exec es = s at hnotified
    cases e with
    | post data =>
      refine ⟨handled, ?_, hnotified⟩
      simp [step, posted]
    | poll k =>
      by_cases hpoll : s.handler = .polling ∧ k < s.mLooper.length
      · refine ⟨handled, ?_, ?_⟩ <;> rw [step, if_pos hpoll]
        · rw [hpoll.1]
          exact List.append_nil _
        · exact hnotified
      · rw [step, if_neg hpoll]
        exact ⟨handled, List.append_nil _, hnotified⟩
    | locked =>
      by_cases hcalled : s.handler = .called
      · refine ⟨handled, ?_, ?_⟩ <;> rw [step, if_pos hcalled]
        · rw [hcalled]
          cases s.mSubtitleData <;> exact List.append_nil _
        · exact hnotified
      · rw [step, if_neg hcalled]
        exact ⟨handled, List.append_nil _, hnotified⟩
    | process cString =>
      rw [step]
      split
      · rename_i data hdata
        refine ⟨handled ++ [data], ?_, ?_⟩
        · rw [hdata]
          simp [Handler.inHand, posted]
        · exact List.rel_append hnotified
            (List.Forall₂.cons ⟨cString, rfl⟩ List.Forall₂.nil)
      · rename_i hdata
        refine ⟨handled, ?_, hnotified⟩
        rw [hdata]
        exact List.append_nil _
      · exact ⟨handled, List.append_nil _, hnotified⟩

/-! ## The looper's thread on its own -/

/-- A call of the handler, from the waiting looper to its return. -/
def round (cString : ℕ → List UInt8) : List Event := [.poll 0, .locked, .process cString]

/-- What is left of a call of the handler. -/
def finish (cString : ℕ → List UInt8) : List Event := [.locked, .process cString]

theorem handler_process (s : State) (cString : ℕ → List UInt8) (h : s.handler ≠ .called) :
    (step s (.process cString)).handler = .polling := by
  rw [step]
  split
  · rfl
  · rfl
  · rename_i hsome hnone
    cases hhandler : s.handler with
    | polling => rfl
    | called => exact absurd hhandler h
    | unlocked data =>
      cases data with
      | none => exact absurd hhandler hnone
      | some data => exact absurd hhandler (hsome data)

@[simp] theorem mSubtitleData_process (s : State) (cString : ℕ → List UInt8) :
    (step s (.process cString)).mSubtitleData = s.mSubtitleData := by
  rw [step]
  split <;> rfl

theorem mSubtitleData_locked {s : State} (h : s.handler = .called) :
    (step s .locked).mSubtitleData = s.mSubtitleData.tail := by
  rw [step, if_pos h]

theorem handler_locked (s : State) : (step s .locked).handler ≠ .called := by
  by_cases hcalled : s.handler = .called
  · rw [step, if_pos hcalled]
    exact Handler.noConfusion
  · rw [step, if_neg hcalled]
    exact hcalled

/-- The handler returns. -/
theorem handler_finish (s : State) (cString : ℕ → List UInt8) :
    ((finish cString).foldl step s).handler = .polling :=
  handler_process _ cString (handler_locked s)

/-- A waiting looper takes an event off the list and hands it on. -/
theorem mSubtitleData_round {s : State} (h : Alive s) (hpolling : s.handler = .polling)
    (cString : ℕ → List UInt8) :
    ((round cString).foldl step s).mSubtitleData = s.mSubtitleData.tail := by
  have hlooper : s.mLooper ≠ [] := h.resolve_right (by simp [hpolling])
  have hpoll : s.handler = .polling ∧ 0 < s.mLooper.length :=
    ⟨hpolling, List.length_pos_iff.mpr hlooper⟩
  have hcalled : (step s (.poll 0)).handler = .called := by rw [step, if_pos hpoll]
  have hdata : (step s (.poll 0)).mSubtitleData = s.mSubtitleData := by rw [step, if_pos hpoll]
  calc ((round cString).foldl step s).mSubtitleData
      = (step (step s (.poll 0)) .locked).mSubtitleData := mSubtitleData_process _ cString
    _ = (step s (.poll 0)).mSubtitleData.tail := mSubtitleData_locked hcalled
    _ = s.mSubtitleData.tail := by rw [hdata]

theorem alive_foldl {s : State} (h : Alive s) (es : List Event) : Alive (es.foldl step s) :=
  Run.invariant (I := Alive) (fun _ e h => alive_step h e) h es

/-- Rounds of a waiting looper empty the list. -/
theorem exists_rounds {s : State} (h : Alive s) (hpolling : s.handler = .polling)
    (cString : ℕ → List UInt8) : ∃ es, posted es = [] ∧
      (es.foldl step s).handler = .polling ∧ (es.foldl step s).mSubtitleData = [] := by
  induction hlist : s.mSubtitleData generalizing s with
  | nil => exact ⟨[], rfl, hpolling, hlist⟩
  | cons data rest ih =>
    have hrest := mSubtitleData_round h hpolling cString
    rw [hlist, List.tail_cons] at hrest
    obtain ⟨es, hposted, hhandler, hempty⟩ :=
      ih (alive_foldl h (round cString)) (handler_finish _ cString) hrest
    refine ⟨round cString ++ es, hposted, ?_, ?_⟩ <;> rw [List.foldl_append]
    · exact hhandler
    · exact hempty

/-- The looper's thread, left alone, hands on everything that was posted. -/
theorem exists_all_handled (es : List Event) (cString : ℕ → List UInt8) : ∃ es', posted es' = [] ∧
    List.Forall₂ Carries (posted es) (exec (es ++ es')).notified := by
  obtain ⟨rounds, hposted, hhandler, hempty⟩ :=
    exists_rounds (alive_foldl (alive_exec es) (finish cString)) (handler_finish _ cString) cString
  refine ⟨finish cString ++ rounds, hposted, ?_⟩
  have hexec : exec (es ++ (finish cString ++ rounds)) =
      rounds.foldl step ((finish cString).foldl step (exec es)) := by
    rw [exec, List.foldl_append, List.foldl_append]
    rfl
  obtain ⟨handled, hall, hnotified⟩ := exists_handled (es ++ (finish cString ++ rounds))
  have hposted' : posted (es ++ (finish cString ++ rounds)) = posted es := by
    rw [posted, List.filterMap_append]
    exact (congrArg (posted es ++ ·) hposted).trans (List.append_nil _)
  rw [hposted', hexec, hhandler, hempty, inHand_polling, List.append_nil, List.append_nil] at hall
  rw [hall]
  exact hnotified

end AndroidCallbackMessageQueue
end AmlSubtitle
