import AmlSubtitle.Lib.Run
import AmlSubtitle.Parser.ParserFactory

/-!
# `Subtitle.cpp`: the requests of a subtitle and the thread that carries them out

The calls `setParameter`, `onTypeChanged` and `resetForSeek` leave what they want in one
slot, `mPendingAction`, and in the block `mSubPrams`; the thread `run` reads both in every
pass of its loop.

A pass holds `mMutex` from the moment the thread wakes up to the end of the pass, and so
do `setParameter` and `onTypeChanged`: they wait until the thread waits.  `resetForSeek`
takes no lock and writes the slot whenever it is called.  The phases of a pass are the
stretches between two accesses of the thread to the slot.

* `Act` is what the thread does for a request, and also the request itself.
* `accepted` and `acts` are the requests taken and the things done so far, in order.
* The presentation is there all the time.  The thread ends with the subtitle, which is
  not part of this file.
-/

namespace AmlSubtitle

/-- The values of `mPendingAction` other than `-1`. -/
inductive Action where
  | receivedSubtype
  | resetForSeek
  | setParam
  | resetMediasync
  deriving DecidableEq, Repr

/-- What the thread does for a request. -/
inductive Act where
  /-- The parser is given parameters. -/
  | updateParameter (param : ParserParam)
  /-- The parser makes way for a new one, which is given parameters. -/
  | replaceParser (parser : ParserClass) (params : List ParserParam)
  /-- Parser and presentation are reset. -/
  | resetForSeek
  /-- The parser is told the id of the media sync. -/
  | setPipId (mediaId : ℤ)
  deriving DecidableEq, Repr

/-- A `Subtitle`. -/
structure Subtitle where
  mCurrentSubtitleType : Option SubtitleType
  mPendingAction : Option Action
  mParser : Option ParserClass
  mSubPrams : SubtitleParamType
  mIsExtSub : Bool
  mIdxSubTrack : ℤ
  deriving DecidableEq, Repr

namespace Subtitle

/-- The constructor. -/
def create (isExtSub : Bool) (trackId : ℤ) : Subtitle where
  mCurrentSubtitleType := none
  mPendingAction := none
  mParser := none
  mSubPrams := { SubtitleParamType.create with
    dvbParam := ⟨-1, -1, 0, -1, -1⟩
    arib24Param := ⟨-1, -1, 0, 0⟩
    ttmlParam := ⟨-1, -1, 0⟩
    smpteTtmlParam := ⟨0, 0, 0⟩ }
  mIsExtSub := isExtSub
  mIdxSubTrack := trackId

/-! ## The calls -/

/-- The types whose parameters are handed to the parser that is there. -/
def isParameterType (p : SubtitleParamType) : Bool :=
  p.subType = some .dvb ∨ p.subType = some .dvbTeletext ∨ p.subType = some .dvbTtml ∨
    p.subType = some .closedCaption ∨ p.subType = some .scte27 ∨ p.subType = some .aribB24 ∨
    p.subType = some .smpteTtml

def setParameter (params : SubtitleParamType) (sub : Subtitle) : Subtitle :=
  { sub with
    mSubPrams := params.update
    mPendingAction :=
      if isParameterType params.update then some .setParam else some .receivedSubtype }

/-- The type is rejected when it is the one reported last or no type at all. -/
def onTypeChanged (newType : ℤ) (sub : Subtitle) : Subtitle :=
  match SubtitleType.ofNum newType with
  | none => sub
  | some subType =>
    if sub.mCurrentSubtitleType = some subType then sub
    else { sub with
      mCurrentSubtitleType := some subType
      mSubPrams := { sub.mSubPrams with subType := some subType }
      mPendingAction := some .receivedSubtype }

def resetForSeek (sub : Subtitle) : Subtitle :=
  { sub with mPendingAction := some .resetForSeek }

/-! ## A pass of the thread -/

/-- An external subtitle has no parser yet, or the one for closed captions. -/
def needsExtParser (sub : Subtitle) : Bool :=
  sub.mIsExtSub ∧ (sub.mParser = none ∨ sub.mParser = some .closedCaptionParser)

/-- The head of a pass: an external subtitle gets its parser, and what is in the slot
need not be handled. -/
def createExtParser (sub : Subtitle) : Subtitle :=
  if needsExtParser sub then
    let params := { sub.mSubPrams with
      subType := some .external, idxSubTrackId := sub.mIdxSubTrack }
    { sub with
      mSubPrams := params
      mParser := some (ParserFactory.create params)
      mPendingAction := none }
  else sub

/-- A new parser for the block: what it is given by the factory and by `run`. -/
def replaceParser (p : SubtitleParamType) : Act :=
  .replaceParser (ParserFactory.create p) (ParserFactory.createParams p ++ p.parserParam.toList)

/-- The `switch` of a pass, with what it does. -/
def handle (sub : Subtitle) : List Act × Subtitle :=
  match sub.mPendingAction with
  | none => ([], sub)
  | some .setParam =>
    match sub.mParser with
    | none =>
      ((ParserFactory.createParams sub.mSubPrams ++ sub.mSubPrams.parserParam.toList).map
          .updateParameter,
        { sub with mParser := some (ParserFactory.create sub.mSubPrams) })
    | some _ => (sub.mSubPrams.parserParam.toList.map .updateParameter, sub)
  | some .receivedSubtype =>
    ([replaceParser sub.mSubPrams],
      { sub with mParser := some (ParserFactory.create sub.mSubPrams) })
  | some .resetMediasync =>
    match sub.mParser with
    | none => ([], sub)
    | some _ => ([.setPipId sub.mSubPrams.mediaId], sub)
  | some .resetForSeek => ([.resetForSeek], sub)

/-- The end of the `switch`. -/
def clear (sub : Subtitle) : Subtitle := { sub with mPendingAction := none }

/-- The block asks for a parser although nothing has been said about its type. -/
def wantsDefault (p : SubtitleParamType) : Bool :=
  p.closedCaptionParam.channelID >>> (8 : ℕ) = 1 ∨ 0 < p.playerId

/-- The tail of a pass: a subtitle that still has no parser gets one. -/
def createDefaultParser (sub : Subtitle) : List Act × Subtitle :=
  if sub.mParser = none ∧ wantsDefault sub.mSubPrams then
    ((ParserFactory.createParams sub.mSubPrams).map .updateParameter,
      { sub with mParser := some (ParserFactory.create sub.mSubPrams) })
  else ([], sub)

/-! ## Runs -/

/-- Where the thread is. -/
inductive Phase where
  /-- The thread waits for the condition and leaves the mutex to others. -/
  | waiting
  /-- The thread has the mutex and has been through the head of the pass. -/
  | woken
  /-- The thread has read the slot and done what it says. -/
  | handled
  /-- The thread has cleared the slot. -/
  | cleared
  deriving DecidableEq, Repr

/-- A subtitle with its thread, the requests it has taken and what has been done. -/
structure State where
  sub : Subtitle
  phase : Phase
  accepted : List Act
  acts : List Act
  deriving DecidableEq, Repr

def init (isExtSub : Bool) (trackId : ℤ) : State := ⟨create isExtSub trackId, .waiting, [], []⟩

/-- `SubtitleService::ttControl`: the block that the service hands to `setParameter`. -/
def ttControl (p : SubtitleParamType) (cmd : TeletextEvent) (magazine pageNo regionId : ℤ) :
    SubtitleParamType :=
  let ttx := p.teletextParam
  let ttx := match cmd with
    | .goToPage => { ttx with magazine := magazine, pageNo := pageNo, regionId := regionId }
    | .goToSubtitle => { ttx with magazine := magazine, pageNo := pageNo, regionId := regionId }
    | .setRegionId => { ttx with regionId := regionId }
    | _ => ttx
  { p with teletextParam := { ttx with event := cmd }, subType := some .dvbTeletext }

/-- The calls and the steps of the thread. -/
inductive Event where
  | setParameter (params : SubtitleParamType)
  | ttControl (params : SubtitleParamType) (cmd : TeletextEvent) (magazine pageNo regionId : ℤ)
  | onTypeChanged (newType : ℤ)
  | resetForSeek
  | wake
  | handle
  | clear
  | createDefault
  deriving DecidableEq, Repr

/-- What `setParameter` asks for. -/
def askedBy (params : SubtitleParamType) : Act :=
  match params.update.parserParam with
  | some param => .updateParameter param
  | none => replaceParser params.update

namespace State

/-- A call of `setParameter` that has the mutex. -/
def setParameter (params : SubtitleParamType) (s : State) : State :=
  { s with sub := s.sub.setParameter params, accepted := s.accepted ++ [askedBy params] }

/-- The type is not the one reported last, and it is one. -/
def AcceptsType (s : State) (newType : ℤ) : Prop :=
  ∃ subType ∈ SubtitleType.ofNum newType, s.sub.mCurrentSubtitleType ≠ some subType

instance (s : State) (newType : ℤ) : Decidable (s.AcceptsType newType) :=
  inferInstanceAs (Decidable (∃ subType ∈ SubtitleType.ofNum newType, _))

/-- A call of `onTypeChanged` that has the mutex. -/
def onTypeChanged (newType : ℤ) (s : State) : State :=
  let sub := s.sub.onTypeChanged newType
  { s with
    sub := sub
    accepted :=
      if s.AcceptsType newType then s.accepted ++ [replaceParser sub.mSubPrams] else s.accepted }

/-- An event that cannot happen now, because the mutex is taken or the thread is
somewhere else, changes nothing. -/
def step (s : State) : Event → State
  | .setParameter params => if s.phase = .waiting then s.setParameter params else s
  | .ttControl params cmd magazine pageNo regionId =>
    if s.phase = .waiting then
      s.setParameter (ttControl params cmd magazine pageNo regionId)
    else s
  | .onTypeChanged newType => if s.phase = .waiting then s.onTypeChanged newType else s
  | .resetForSeek =>
    { s with sub := s.sub.resetForSeek, accepted := s.accepted ++ [.resetForSeek] }
  | .wake =>
    if s.phase = .waiting then { s with sub := s.sub.createExtParser, phase := .woken } else s
  | .handle =>
    if s.phase = .woken then
      { s with sub := s.sub.handle.2, phase := .handled, acts := s.acts ++ s.sub.handle.1 }
    else s
  | .clear => if s.phase = .handled then { s with sub := s.sub.clear, phase := .cleared } else s
  | .createDefault =>
    if s.phase = .cleared then
      { s with
        sub := s.sub.createDefaultParser.2
        phase := .waiting
        acts := s.acts ++ s.sub.createDefaultParser.1 }
    else s

end State

end Subtitle
end AmlSubtitle
