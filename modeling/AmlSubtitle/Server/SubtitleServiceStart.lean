import AmlSubtitle.Server.SubtitleService
import AmlSubtitle.Subtitle.Subtitle

/-!
# `SubtitleService.cpp`: starting and stopping the subtitle of a service

`startSubtitle` marks the service as started before it knows whether there is a data
source for the type it is asked for.  When there is none it returns `false` and leaves the
mark behind: the service has no subtitle then, and it cannot be started again before
somebody stops it.

* `SubtitleService`: a service with its subtitle and the parameters it keeps for it.
* `toService_startSubtitle`, `toService_stopSubtitle`: what the calls do to data source
  and receiver is what `Service.startSubtitle` and `Service.stopSubtitle` do.
* `failsCleanly_iff`: when a start that fails leaves the service as it was.
-/

namespace AmlSubtitle
namespace SubtitleServer

/-- The subtitle of a service: whether its thread has been started, and the data source
it listens to. -/
structure SubtitleHandle where
  sub : Subtitle
  scheduled : Bool
  mDataSource : Option DataSource
  deriving DecidableEq, Repr

/-- `SUBTITLE_DUMP_SOURCE`. -/
def SUBTITLE_DUMP_SOURCE : ℕ := 0

/-- A `SubtitleService`, with what its data source has been told. -/
structure SubtitleService extends Service where
  mSubtiles : Option SubtitleHandle
  mSubParam : SubtitleParamType
  mDumpMaps : ℕ
  sourceDump : Bool
  sourceParam : Option ParserParam
  deriving DecidableEq, Repr

/-- The arguments of `startSubtitle`, and the name a data source is given. -/
structure StartCall where
  fds : List ℤ
  trackId : ℤ
  type : ℤ
  id : ℕ
  deriving DecidableEq, Repr

/-- There is a data source for the type. -/
def StartCall.Valid (call : StartCall) : Prop := dataSourceFactoryCreate call.type ≠ none

instance (call : StartCall) : Decidable call.Valid := inferInstanceAs (Decidable (_ ≠ _))

/-- The parameters that a data source is told: those of the type, but not those for
closed captions. -/
def sourceParamOf (p : SubtitleParamType) : Option ParserParam :=
  if p.subType = some .closedCaption then none else p.parserParam

namespace SubtitleService

/-- The constructor. -/
def create : SubtitleService where
  toService := Service.create
  mSubtiles := none
  mSubParam := .create
  mDumpMaps := 0
  sourceDump := false
  sourceParam := none

/-- The parameters go to the subtitle at once, unless it is an external one or there is
another type of television subtitle to come. -/
def setsParameter (ss : SubtitleService) (call : StartCall) : Bool :=
  call.fds.length = 0 ∧ (ss.mSubParam.isValidDtvParams = true ∨ ss.mSubParam.dtvSubType ≤ 0)

/-- The subtitle that a start makes. -/
def newSubtitle (ss : SubtitleService) (call : StartCall) : Subtitle :=
  let subtitle := Subtitle.create (0 < call.fds.length) call.trackId
  if ss.setsParameter call then subtitle.setParameter ss.mSubParam else subtitle

def startSubtitle (ss : SubtitleService) (call : StartCall) : Bool × SubtitleService :=
  if ss.mStarted then
    (false, ss)
  else
    let ss := { ss with mStarted := true }
    match dataSourceFactoryCreate call.type with
    | none => (false, ss)
    | some sourceClass =>
      let datasource : DataSource := ⟨call.id, sourceClass⟩
      (true, { ss with
        mDataSource := some datasource
        sourceDump := ss.mDumpMaps.testBit SUBTITLE_DUMP_SOURCE
        sourceParam := sourceParamOf ss.mSubParam
        mSubtiles := some ⟨ss.newSubtitle call, true, some datasource⟩
        mFmqReceiver := ss.mFmqReceiver.map (·.registClient datasource) })

def stopSubtitle (ss : SubtitleService) : Bool × SubtitleService :=
  if ss.mStarted then
    (true, { ss with
      mStarted := false
      mFmqReceiver := match ss.mFmqReceiver, ss.mDataSource with
        | some receiver, some source => some (receiver.unregisterClient source)
        | receiver, _ => receiver
      mDataSource := none
      sourceDump := false
      sourceParam := none
      mSubtiles := none
      mSubParam := { ss.mSubParam with
        subType := none
        dtvSubType := DTV_SUB_INVALID
        dvbParam := { ss.mSubParam.dvbParam with ancillaryId := 0, compositionId := 0 }
        arib24Param := { ss.mSubParam.arib24Param with languageCodeId := 0 } } })
  else
    (false, ss)

/-! ## Data source and receiver -/

variable (ss : SubtitleService) (call : StartCall)

/-- What a start does to data source and receiver. -/
theorem toService_startSubtitle :
    ((ss.startSubtitle call).1, (ss.startSubtitle call).2.toService) =
      ss.toService.startSubtitle call.type call.id := by
  unfold startSubtitle Service.startSubtitle
  by_cases hstarted : ss.mStarted
  · rw [if_pos hstarted, if_pos hstarted]
  · rw [if_neg hstarted, if_neg hstarted]
    cases dataSourceFactoryCreate call.type with
    | none => rfl
    | some sourceClass => rfl

/-- What a stop does to data source and receiver. -/
theorem toService_stopSubtitle :
    (ss.stopSubtitle.1, ss.stopSubtitle.2.toService) = ss.toService.stopSubtitle := by
  unfold stopSubtitle Service.stopSubtitle
  by_cases hstarted : ss.mStarted
  · rw [if_pos hstarted]
    exact (if_pos hstarted).symm
  · rw [if_neg hstarted, if_neg hstarted]

/-! ## Starts that fail -/

variable {ss call}

/-- A service that is started stays as it is. -/
theorem startSubtitle_of_started (h : ss.mStarted = true) :
    ss.startSubtitle call = (false, ss) := if_pos h

/-- The type is looked at after the service has been marked. -/
theorem startSubtitle_of_not_valid (h : ss.mStarted = false) (hvalid : ¬ call.Valid) :
    ss.startSubtitle call = (false, { ss with mStarted := true }) := by
  unfold startSubtitle
  rw [if_neg (by rw [h]; exact Bool.false_ne_true), not_not.mp hvalid]

theorem startSubtitle_of_valid (h : ss.mStarted = false) (hvalid : call.Valid) :
    (ss.startSubtitle call).1 = true := by
  obtain ⟨sourceClass, hclass⟩ := Option.ne_none_iff_exists'.mp hvalid
  unfold startSubtitle
  rw [if_neg (by rw [h]; exact Bool.false_ne_true), hclass]

/-- **A start fails when the service is started or the type has no data source.** -/
theorem startSubtitle_eq_false_iff :
    (ss.startSubtitle call).1 = false ↔ ss.mStarted = true ∨ ¬ call.Valid := by
  cases h : ss.mStarted with
  | true => simp [startSubtitle_of_started h]
  | false =>
    by_cases hvalid : call.Valid
    · simp [startSubtitle_of_valid h hvalid, hvalid]
    · simp [startSubtitle_of_not_valid h hvalid, hvalid]

/-- Whatever is started next, the service stays as it is. -/
theorem foldl_startSubtitle_of_started (h : ss.mStarted = true) (calls : List StartCall) :
    calls.foldl (fun ss call => (ss.startSubtitle call).2) ss = ss := by
  induction calls with
  | nil => rfl
  | cons call calls ih => rw [List.foldl_cons, startSubtitle_of_started h, ih]

/-- A service that has been stopped can be started. -/
theorem startSubtitle_stopSubtitle (hvalid : call.Valid) :
    (ss.stopSubtitle.2.startSubtitle call).1 = true := by
  refine startSubtitle_of_valid ?_ hvalid
  unfold stopSubtitle
  by_cases h : ss.mStarted
  · rw [if_pos h]
  · rw [if_neg h]
    exact Bool.eq_false_iff.mpr h

/-- **A failed start leaves the service as it was**: one that was not started has no
mark and no subtitle of the failed start, and the next start of a type with a data source
succeeds. -/
structure FailsCleanly (ss : SubtitleService) (call : StartCall) : Prop where
  unchanged : (ss.startSubtitle call).1 = false → (ss.startSubtitle call).2 = ss
  restartable : (ss.startSubtitle call).1 = false → ss.mStarted = false →
    ∀ later : StartCall, later.Valid → ((ss.startSubtitle call).2.startSubtitle later).1 = true

/-- **Exactly the start of a type without a data source does not fail cleanly**, in a
service that is not started. -/
theorem failsCleanly_iff (ss : SubtitleService) (call : StartCall) :
    ss.FailsCleanly call ↔ ss.mStarted = true ∨ call.Valid := by
  constructor
  · intro h
    by_contra hno
    obtain ⟨hstarted, hvalid⟩ := not_or.mp hno
    have hfalse := Bool.eq_false_iff.mpr hstarted
    have hsame := h.unchanged (startSubtitle_eq_false_iff.mpr (Or.inr hvalid))
    rw [startSubtitle_of_not_valid hfalse hvalid] at hsame
    exact hstarted (congrArg (·.mStarted) hsame).symm
  · rintro (hstarted | hvalid)
    · refine ⟨fun _ => ?_, fun _ hfalse => ?_⟩
      · rw [startSubtitle_of_started hstarted]
      · rw [hstarted] at hfalse
        cases hfalse
    · have hfails : (ss.startSubtitle call).1 = false → ss.mStarted = true := fun hfalse =>
        (startSubtitle_eq_false_iff.mp hfalse).resolve_right (not_not.mpr hvalid)
      refine ⟨fun hfalse => ?_, fun hfalse hstopped => ?_⟩
      · rw [startSubtitle_of_started (hfails hfalse)]
      · rw [hfails hfalse] at hstopped
        cases hstopped

/-- **A new service asked for a type it does not know is stuck**: the start fails, the
service counts as started, and the start of a known type fails behind it. -/
theorem not_failsCleanly_create : ¬ create.FailsCleanly ⟨[], 0, 6, 0⟩ := fun h => by
  have hlater := h.restartable (by decide) (by decide) ⟨[], 0, 4, 1⟩ (by decide)
  revert hlater
  decide

end SubtitleService

end SubtitleServer
end AmlSubtitle
