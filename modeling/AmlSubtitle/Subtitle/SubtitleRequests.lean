import AmlSubtitle.Subtitle.Subtitle

/-!
# The requests of a subtitle are carried out once and in order

There is one slot for what a call wants.  A second call before the thread has been through
its `switch` takes the place of the first; so does a `resetForSeek` between the `switch`
and the line that clears the slot, and the head of the pass in which an external subtitle
gets its parser.  And a parser for closed captions that is made for a parameter command is
given the parameters twice, once by the factory.

* `Delivered`: what has been taken is what has been done and what waits in the slot.
* `Safe`: none of the above happens in the step.
* `delivered_iff`: the runs through `Delivered` states are those of `Safe` steps.
-/

namespace AmlSubtitle
namespace Subtitle

namespace State

/-- What waits in the slot. -/
def pending (sub : Subtitle) : List Act :=
  match sub.mPendingAction with
  | none => []
  | some .setParam => sub.mSubPrams.parserParam.toList.map .updateParameter
  | some .receivedSubtype => [replaceParser sub.mSubPrams]
  | some .resetForSeek => [.resetForSeek]
  | some .resetMediasync => [.setPipId sub.mSubPrams.mediaId]

/-- **Every request taken has been carried out once and in order, or waits in the slot.**
Behind the `switch` of a pass nothing waits. -/
def Delivered (s : State) : Prop :=
  s.acts ++ (if s.phase = .handled then [] else pending s.sub) = s.accepted

instance (s : State) : Decidable s.Delivered := inferInstanceAs (Decidable (_ = _))

/-- The steps that carry out every request. -/
def Safe (s : State) : Event → Prop
  | .setParameter _ => s.phase = .waiting → s.sub.mPendingAction = none
  | .ttControl .. => s.phase = .waiting → s.sub.mPendingAction = none
  | .onTypeChanged newType =>
    s.phase = .waiting → s.AcceptsType newType → s.sub.mPendingAction = none
  | .resetForSeek => s.phase ≠ .handled ∧ s.sub.mPendingAction = none
  | .wake => s.phase = .waiting → needsExtParser s.sub = true → s.sub.mPendingAction = none
  | .handle => s.phase = .woken → s.sub.mPendingAction = some .setParam →
      s.sub.mParser = none → s.sub.mSubPrams.subType ≠ some .closedCaption
  | .clear => True
  | .createDefault => True

/-! ## What waits -/

theorem pending_eq_nil {sub : Subtitle} (h : sub.mPendingAction = none) : pending sub = [] := by
  rw [pending, h]

/-- The two lists of parameter types, of `setParameter` and of `run`, are the same. -/
theorem isParameterType_iff (p : SubtitleParamType) :
    isParameterType p = true ↔ ∃ param, p.parserParam = some param := by
  unfold isParameterType SubtitleParamType.parserParam
  rw [decide_eq_true_iff]
  constructor
  · rintro (h | h | h | h | h | h | h) <;> rw [h] <;> exact ⟨_, rfl⟩
  · rintro ⟨param, h⟩
    split at h
    case h_8 => cases h
    all_goals
      rename_i htype
      simp [htype]

/-- The factory hands parameters to a parser for closed captions only. -/
theorem createParams_eq_nil {p : SubtitleParamType} {param : ParserParam}
    (hparam : p.parserParam = some param) (h : p.subType ≠ some .closedCaption) :
    ParserFactory.createParams p = [] := by
  unfold SubtitleParamType.parserParam at hparam
  unfold ParserFactory.createParams ParserFactory.create
  split at hparam
  case h_6 htype => exact absurd htype h
  case h_8 => cases hparam
  all_goals
    rename_i htype
    rw [htype]
    rfl

theorem createParams_closedCaption {p : SubtitleParamType} (h : p.subType = some .closedCaption) :
    ParserFactory.createParams p = [.closedCaption p.closedCaptionParam] := by
  unfold ParserFactory.createParams ParserFactory.create
  rw [h]
  rfl

/-! ## The invariant -/

/-- What holds in a run of safe steps. -/
structure Sound (s : State) : Prop where
  delivered : s.Delivered
  setParam : s.sub.mPendingAction = some .setParam → isParameterType s.sub.mSubPrams = true
  mediasync : s.sub.mPendingAction ≠ some .resetMediasync
  /-- A subtitle without a parser is about to get one or does not want one yet. -/
  default : s.sub.mParser = none → wantsDefault s.sub.mSubPrams = false ∨
    (s.phase = .waiting ∨ s.phase = .woken) ∧
      (s.sub.mPendingAction = some .setParam ∨ s.sub.mPendingAction = some .receivedSubtype)

variable {s : State}

/-- A slot that is taken holds one request. -/
theorem Sound.length_pending (h : s.Sound) (hslot : s.sub.mPendingAction ≠ none) :
    (pending s.sub).length = 1 := by
  unfold pending
  split
  case h_1 hnone => exact absurd hnone hslot
  case h_2 haction =>
    obtain ⟨param, hparam⟩ := (isParameterType_iff _).mp (h.setParam haction)
    rw [hparam]
    rfl
  all_goals rfl

theorem Delivered.of_ne (h : s.Delivered) (hphase : s.phase ≠ .handled) :
    s.acts ++ pending s.sub = s.accepted := by
  rw [Delivered, if_neg hphase] at h
  exact h

theorem Delivered.of_handled (h : s.Delivered) (hphase : s.phase = .handled) :
    s.acts = s.accepted := by
  rw [Delivered, if_pos hphase, List.append_nil] at h
  exact h

theorem sound_init (isExtSub : Bool) (trackId : ℤ) : (init isExtSub trackId).Sound where
  delivered := rfl
  setParam h := by cases h
  mediasync h := by cases h
  default _ := Or.inl (by cases isExtSub <;> rfl)

/-! ## The calls -/

/-- Setting parameters leaves what it asks for in the slot. -/
theorem pending_setParameter (params : SubtitleParamType) (sub : Subtitle) :
    pending (sub.setParameter params) = [askedBy params] := by
  unfold pending Subtitle.setParameter askedBy
  by_cases h : isParameterType params.update = true
  · obtain ⟨param, hparam⟩ := (isParameterType_iff _).mp h
    rw [if_pos h, hparam]
    rfl
  · rw [if_neg h]
    cases hparam : params.update.parserParam with
    | none => rfl
    | some param => exact absurd ((isParameterType_iff _).mpr ⟨param, hparam⟩) h

theorem sound_setParameter (h : s.Sound) (hphase : s.phase = .waiting)
    (hslot : s.sub.mPendingAction = none) (params : SubtitleParamType) :
    (s.setParameter params).Sound := by
  have hdone := h.delivered.of_ne (by rw [hphase]; decide)
  rw [pending_eq_nil hslot, List.append_nil] at hdone
  refine ⟨?_, fun hset => ?_, fun hsync => ?_, fun _ => Or.inr ⟨Or.inl hphase, ?_⟩⟩
  · rw [Delivered, if_neg (by rw [setParameter, hphase]; decide), setParameter, hdone,
      pending_setParameter]
  · by_contra hno
    rw [setParameter, Subtitle.setParameter] at hset hno
    rw [if_neg hno] at hset
    cases hset
  · rw [setParameter, Subtitle.setParameter] at hsync
    dsimp only at hsync
    split at hsync <;> cases hsync
  · rw [setParameter, Subtitle.setParameter]
    dsimp only
    split
    · exact Or.inl rfl
    · exact Or.inr rfl

/-- A type that is not accepted leaves the subtitle alone. -/
theorem onTypeChanged_of_not_accepts {newType : ℤ} (h : ¬ s.AcceptsType newType) :
    s.onTypeChanged newType = s := by
  have hsub : s.sub.onTypeChanged newType = s.sub := by
    unfold Subtitle.onTypeChanged
    split
    · rfl
    · rename_i subType htype
      by_cases hsame : s.sub.mCurrentSubtitleType = some subType
      · rw [if_pos hsame]
      · exact absurd ⟨subType, htype, hsame⟩ h
  rw [onTypeChanged, if_neg h, hsub]

theorem onTypeChanged_of_accepts {newType : ℤ} (h : s.AcceptsType newType) :
    ∃ subType, s.onTypeChanged newType = { s with
      sub := { s.sub with
        mCurrentSubtitleType := some subType
        mSubPrams := { s.sub.mSubPrams with subType := some subType }
        mPendingAction := some .receivedSubtype }
      accepted := s.accepted ++
        [replaceParser { s.sub.mSubPrams with subType := some subType }] } := by
  obtain ⟨subType, htype, hother⟩ := id h
  have hsub : s.sub.onTypeChanged newType = { s.sub with
      mCurrentSubtitleType := some subType
      mSubPrams := { s.sub.mSubPrams with subType := some subType }
      mPendingAction := some .receivedSubtype } := by
    unfold Subtitle.onTypeChanged
    rw [Option.mem_def.mp htype]
    exact if_neg hother
  refine ⟨subType, ?_⟩
  rw [onTypeChanged, if_pos h, hsub]

theorem sound_onTypeChanged (h : s.Sound) (hphase : s.phase = .waiting) {newType : ℤ}
    (haccepts : s.AcceptsType newType) (hslot : s.sub.mPendingAction = none) :
    (s.onTypeChanged newType).Sound := by
  have hdone := h.delivered.of_ne (by rw [hphase]; decide)
  rw [pending_eq_nil hslot, List.append_nil] at hdone
  obtain ⟨subType, heq⟩ := onTypeChanged_of_accepts haccepts
  rw [heq]
  refine ⟨?_, nofun, nofun,
    fun _ => Or.inr ⟨Or.inl hphase, Or.inr rfl⟩⟩
  rw [Delivered, if_neg (by rw [hphase]; decide)]
  dsimp only
  rw [hdone]
  rfl

theorem sound_resetForSeek (h : s.Sound) (hphase : s.phase ≠ .handled)
    (hslot : s.sub.mPendingAction = none) : (s.step .resetForSeek).Sound := by
  have hdone := h.delivered.of_ne hphase
  rw [pending_eq_nil hslot, List.append_nil] at hdone
  refine ⟨?_, nofun, nofun, fun hparser => ?_⟩
  · rw [step, Delivered, if_neg hphase, hdone]
    rfl
  · rcases h.default hparser with hwants | ⟨-, haction⟩
    · exact Or.inl hwants
    · rw [hslot] at haction
      rcases haction with haction | haction <;> cases haction

/-! ## The pass -/

theorem createExtParser_of_not (sub : Subtitle) (h : ¬ needsExtParser sub = true) :
    sub.createExtParser = sub := if_neg h

theorem sound_wake (h : s.Sound) (hphase : s.phase = .waiting)
    (hslot : needsExtParser s.sub = true → s.sub.mPendingAction = none) :
    Sound { s with sub := s.sub.createExtParser, phase := .woken } := by
  have hdone := h.delivered.of_ne (by rw [hphase]; decide)
  by_cases hext : needsExtParser s.sub = true
  · rw [pending_eq_nil (hslot hext), List.append_nil] at hdone
    have heq : s.sub.createExtParser.mPendingAction = none ∧
        s.sub.createExtParser.mParser ≠ none := by
      rw [Subtitle.createExtParser, if_pos hext]
      exact ⟨rfl, Option.some_ne_none _⟩
    refine ⟨?_, fun hset => ?_, fun hsync => ?_, fun hparser => absurd hparser heq.2⟩
    · rw [Delivered, if_neg (by nofun), pending_eq_nil heq.1, List.append_nil]
      exact hdone
    · rw [heq.1] at hset
      cases hset
    · rw [heq.1] at hsync
      cases hsync
  · rw [createExtParser_of_not _ hext]
    refine ⟨?_, h.setParam, h.mediasync, fun hparser => ?_⟩
    · rw [Delivered, if_neg (by nofun)]
      exact hdone
    · exact (h.default hparser).imp_right fun hslot => ⟨Or.inr rfl, hslot.2⟩

/-- **The `switch` carries out what waits**, unless it makes a parser for closed
captions on behalf of a parameter command. -/
theorem handle_fst (h : s.Sound) (hclosed : s.sub.mPendingAction = some .setParam →
    s.sub.mParser = none → s.sub.mSubPrams.subType ≠ some .closedCaption) :
    s.sub.handle.1 = pending s.sub := by
  unfold Subtitle.handle pending
  cases haction : s.sub.mPendingAction with
  | none => rfl
  | some action =>
    cases action with
    | receivedSubtype => rfl
    | resetForSeek => rfl
    | resetMediasync => exact absurd haction h.mediasync
    | setParam =>
      obtain ⟨param, hparam⟩ := (isParameterType_iff _).mp (h.setParam haction)
      cases hparser : s.sub.mParser with
      | some parser => rfl
      | none =>
        dsimp only
        rw [createParams_eq_nil hparam (hclosed haction hparser), List.nil_append]

/-- The `switch` leaves slot and block alone. -/
theorem handle_snd (sub : Subtitle) :
    sub.handle.2.mPendingAction = sub.mPendingAction ∧ sub.handle.2.mSubPrams = sub.mSubPrams := by
  unfold Subtitle.handle
  split
  · exact ⟨rfl, rfl⟩
  · split <;> exact ⟨rfl, rfl⟩
  · exact ⟨rfl, rfl⟩
  · split <;> exact ⟨rfl, rfl⟩
  · exact ⟨rfl, rfl⟩

/-- A parser is there behind a `switch` that carries out a parameter command or a change
of the type. -/
theorem handle_mParser {sub : Subtitle} (h : sub.handle.2.mParser = none) :
    sub.mParser = none ∧ sub.mPendingAction ≠ some .setParam ∧
      sub.mPendingAction ≠ some .receivedSubtype := by
  unfold Subtitle.handle at h
  split at h
  · rename_i haction
    rw [haction]
    exact ⟨h, nofun, nofun⟩
  · split at h
    · cases h
    · rename_i hparser
      rw [hparser] at h
      cases h
  · cases h
  · rename_i haction
    rw [haction]
    split at h <;> exact ⟨h, nofun, nofun⟩
  · rename_i haction
    rw [haction]
    exact ⟨h, nofun, nofun⟩

theorem sound_handle (h : s.Sound) (hphase : s.phase = .woken)
    (hclosed : s.sub.mPendingAction = some .setParam → s.sub.mParser = none →
      s.sub.mSubPrams.subType ≠ some .closedCaption) :
    Sound { s with
      sub := s.sub.handle.2
      phase := .handled
      acts := s.acts ++ s.sub.handle.1 } := by
  obtain ⟨hslot, hblock⟩ := handle_snd s.sub
  refine ⟨?_, fun hset => ?_, fun hsync => ?_, fun hparser => ?_⟩
  · rw [Delivered, if_pos rfl, List.append_nil, handle_fst h hclosed]
    exact h.delivered.of_ne (by rw [hphase]; decide)
  · dsimp only at hset ⊢
    rw [hslot] at hset
    rw [hblock]
    exact h.setParam hset
  · dsimp only at hsync
    rw [hslot] at hsync
    exact h.mediasync hsync
  · obtain ⟨hnone, hset, hsub⟩ := handle_mParser hparser
    dsimp only
    rw [hblock]
    rcases h.default hnone with hwants | ⟨-, haction | haction⟩
    · exact Or.inl hwants
    · exact absurd haction hset
    · exact absurd haction hsub

theorem sound_clear (h : s.Sound) (hphase : s.phase = .handled) :
    Sound { s with sub := s.sub.clear, phase := .cleared } := by
  refine ⟨?_, nofun, nofun, fun hparser => ?_⟩
  · rw [Delivered, if_neg (by nofun), pending_eq_nil rfl, List.append_nil]
    exact h.delivered.of_handled hphase
  · rcases h.default hparser with hwants | ⟨hno, -⟩
    · exact Or.inl hwants
    · rw [hphase] at hno
      rcases hno with hno | hno <;> cases hno

/-- The tail of a pass finds a parser or a block that does not want one. -/
theorem sound_createDefault (h : s.Sound) (hphase : s.phase = .cleared) :
    Sound { s with
      sub := s.sub.createDefaultParser.2
      phase := .waiting
      acts := s.acts ++ s.sub.createDefaultParser.1 } := by
  have hdefault : s.sub.mParser = none → wantsDefault s.sub.mSubPrams = false := fun hparser => by
    rcases h.default hparser with hwants | ⟨hno, -⟩
    · exact hwants
    · rw [hphase] at hno
      rcases hno with hno | hno <;> cases hno
  have heq : s.sub.createDefaultParser = ([], s.sub) := by
    refine if_neg fun hno => ?_
    rw [hdefault hno.1] at hno
    exact Bool.false_ne_true hno.2
  rw [heq, List.append_nil]
  refine ⟨?_, h.setParam, h.mediasync, fun hparser => Or.inl (hdefault hparser)⟩
  rw [Delivered, if_neg (by nofun)]
  exact h.delivered.of_ne (by rw [hphase]; decide)

/-! ## Safe steps -/

/-- **A safe step keeps the invariant.** -/
theorem sound_step (s : State) (e : Event) (h : s.Sound) (hsafe : s.Safe e) :
    (s.step e).Sound := by
  cases e with
  | setParameter params =>
    rw [step]
    split
    · rename_i hphase
      exact sound_setParameter h hphase (hsafe hphase) params
    · exact h
  | ttControl params cmd magazine pageNo regionId =>
    rw [step]
    split
    · rename_i hphase
      exact sound_setParameter h hphase (hsafe hphase) _
    · exact h
  | onTypeChanged newType =>
    rw [step]
    split
    · rename_i hphase
      by_cases haccepts : s.AcceptsType newType
      · exact sound_onTypeChanged h hphase haccepts (hsafe hphase haccepts)
      · rw [onTypeChanged_of_not_accepts haccepts]
        exact h
    · exact h
  | resetForSeek => exact sound_resetForSeek h hsafe.1 hsafe.2
  | wake =>
    rw [step]
    split
    · rename_i hphase
      exact sound_wake h hphase (hsafe hphase)
    · exact h
  | handle =>
    rw [step]
    split
    · rename_i hphase
      exact sound_handle h hphase (hsafe hphase)
    · exact h
  | clear =>
    rw [step]
    split
    · rename_i hphase
      exact sound_clear h hphase
    · exact h
  | createDefault =>
    rw [step]
    split
    · rename_i hphase
      exact sound_createDefault h hphase
    · exact h

/-! ## Steps that are not safe -/

/-- As many things have been done and wait as requests have been taken. -/
theorem Delivered.length (h : s.Delivered) (hphase : s.phase ≠ .handled) :
    s.acts.length + (pending s.sub).length = s.accepted.length := by
  rw [← h.of_ne hphase, List.length_append]

/-- Taking a request while another one waits leaves one of the two undone. -/
theorem not_delivered_of_taken {t : State} (h : s.Sound) (hphase : s.phase ≠ .handled)
    (hslot : s.sub.mPendingAction ≠ none) (htphase : t.phase ≠ .handled)
    (hpending : (pending t.sub).length = 1) (hacts : t.acts = s.acts) {act : Act}
    (haccepted : t.accepted = s.accepted ++ [act]) : ¬ t.Delivered := fun ht => by
  have hbefore := h.delivered.length hphase
  have hafter := ht.length htphase
  rw [h.length_pending hslot] at hbefore
  rw [hpending, hacts, haccepted, List.length_append, List.length_singleton] at hafter
  omega

theorem not_delivered_setParameter (h : s.Sound) (hphase : s.phase = .waiting)
    (hslot : s.sub.mPendingAction ≠ none) (params : SubtitleParamType) :
    ¬ (s.setParameter params).Delivered := by
  have hne : s.phase ≠ .handled := by
    rw [hphase]
    decide
  refine not_delivered_of_taken h hne hslot hne ?_ rfl rfl
  rw [setParameter, pending_setParameter]
  rfl

theorem not_delivered_onTypeChanged (h : s.Sound) (hphase : s.phase = .waiting) {newType : ℤ}
    (haccepts : s.AcceptsType newType) (hslot : s.sub.mPendingAction ≠ none) :
    ¬ (s.onTypeChanged newType).Delivered := by
  have hne : s.phase ≠ .handled := by
    rw [hphase]
    decide
  obtain ⟨subType, heq⟩ := onTypeChanged_of_accepts haccepts
  rw [heq]
  exact not_delivered_of_taken h hne hslot hne rfl rfl rfl

/-- A reset for a seek is lost behind the `switch`. -/
theorem not_delivered_resetForSeek (h : s.Sound)
    (hbusy : ¬ (s.phase ≠ .handled ∧ s.sub.mPendingAction = none)) :
    ¬ (s.step .resetForSeek).Delivered := by
  by_cases hphase : s.phase = .handled
  · intro hafter
    have hdone := hafter.of_handled hphase
    rw [step, h.delivered.of_handled hphase] at hdone
    have hlength := congrArg List.length hdone
    rw [List.length_append, List.length_singleton] at hlength
    omega
  · exact not_delivered_of_taken h hphase (fun hslot => hbusy ⟨hphase, hslot⟩) hphase rfl rfl rfl

theorem not_delivered_wake (h : s.Sound) (hphase : s.phase = .waiting)
    (hext : needsExtParser s.sub = true) (hslot : s.sub.mPendingAction ≠ none) :
    ¬ Delivered { s with sub := s.sub.createExtParser, phase := .woken } := fun hafter => by
  have hbefore := h.delivered.length (by rw [hphase]; decide)
  rw [h.length_pending hslot] at hbefore
  have hlength := hafter.length nofun
  have hnone : s.sub.createExtParser.mPendingAction = none := by
    rw [Subtitle.createExtParser, if_pos hext]
  rw [pending_eq_nil hnone, List.length_nil] at hlength
  dsimp only at hlength
  omega

/-- The parameters for closed captions come twice, from the factory and from `run`. -/
theorem not_delivered_handle (h : s.Sound) (hphase : s.phase = .woken)
    (hset : s.sub.mPendingAction = some .setParam) (hparser : s.sub.mParser = none)
    (hclosed : s.sub.mSubPrams.subType = some .closedCaption) :
    ¬ Delivered { s with
      sub := s.sub.handle.2
      phase := .handled
      acts := s.acts ++ s.sub.handle.1 } := fun hafter => by
  have hbefore := h.delivered.length (by rw [hphase]; decide)
  rw [h.length_pending (by rw [hset]; nofun)] at hbefore
  have hdone := congrArg List.length (hafter.of_handled rfl)
  have hparam : s.sub.mSubPrams.parserParam =
      some (.closedCaption s.sub.mSubPrams.closedCaptionParam) := by
    rw [SubtitleParamType.parserParam, hclosed]
  have htwice : s.sub.handle.1.length = 2 := by
    unfold Subtitle.handle
    rw [hset]
    dsimp only
    rw [hparser]
    dsimp only
    rw [createParams_closedCaption hclosed, hparam]
    rfl
  dsimp only at hdone
  rw [List.length_append, htwice] at hdone
  omega

/-- **A step that is not safe breaks the promise at once.** -/
theorem not_delivered_step (s : State) (e : Event) (h : s.Sound) (hsafe : ¬ s.Safe e) :
    ¬ (s.step e).Delivered := by
  cases e with
  | setParameter params =>
    obtain ⟨hphase, hslot⟩ := Classical.not_imp.mp hsafe
    rw [step, if_pos hphase]
    exact not_delivered_setParameter h hphase hslot params
  | ttControl params cmd magazine pageNo regionId =>
    obtain ⟨hphase, hslot⟩ := Classical.not_imp.mp hsafe
    rw [step, if_pos hphase]
    exact not_delivered_setParameter h hphase hslot _
  | onTypeChanged newType =>
    obtain ⟨hphase, hslot⟩ := Classical.not_imp.mp hsafe
    obtain ⟨haccepts, hslot⟩ := Classical.not_imp.mp hslot
    rw [step, if_pos hphase]
    exact not_delivered_onTypeChanged h hphase haccepts hslot
  | resetForSeek => exact not_delivered_resetForSeek h hsafe
  | wake =>
    obtain ⟨hphase, hslot⟩ := Classical.not_imp.mp hsafe
    obtain ⟨hext, hslot⟩ := Classical.not_imp.mp hslot
    rw [step, if_pos hphase]
    exact not_delivered_wake h hphase hext hslot
  | handle =>
    obtain ⟨hphase, hno⟩ := Classical.not_imp.mp hsafe
    obtain ⟨hset, hno⟩ := Classical.not_imp.mp hno
    obtain ⟨hparser, hclosed⟩ := Classical.not_imp.mp hno
    rw [step, if_pos hphase]
    exact not_delivered_handle h hphase hset hparser (not_not.mp hclosed)
  | clear => exact absurd trivial hsafe
  | createDefault => exact absurd trivial hsafe

/-! ## Runs -/

/-- A pass of the thread. -/
def pass : List Event := [.wake, .handle, .clear, .createDefault]

/-- A pass takes no request and leaves the slot empty. -/
theorem foldl_pass (h : s.phase = .waiting) :
    (pass.foldl step s).phase = .waiting ∧ (pass.foldl step s).accepted = s.accepted ∧
      pending (pass.foldl step s).sub = [] := by
  have hpass : pass.foldl step s =
      { sub := (clear s.sub.createExtParser.handle.2).createDefaultParser.2
        phase := .waiting
        accepted := s.accepted
        acts := s.acts ++ s.sub.createExtParser.handle.1 ++
          (clear s.sub.createExtParser.handle.2).createDefaultParser.1 } := by
    rw [pass, List.foldl_cons, step, if_pos h, List.foldl_cons, step, if_pos rfl, List.foldl_cons,
      step, if_pos rfl, List.foldl_cons, step, if_pos rfl, List.foldl_nil]
  rw [hpass]
  refine ⟨rfl, rfl, pending_eq_nil ?_⟩
  unfold createDefaultParser
  split <;> rfl

/-- **Requests are carried out once and in order exactly in the runs of safe steps**, and
in such a run a pass of the thread carries out all that has been taken before it. -/
theorem delivered_iff (isExtSub : Bool) (trackId : ℤ) (events : List Event) :
    ((∀ s, Run.Reached step (init isExtSub trackId) events s → s.Delivered) ↔
      Run.Meets step Safe (init isExtSub trackId) events) ∧
    (Run.Meets step Safe (init isExtSub trackId) (events ++ pass) →
      (events.foldl step (init isExtSub trackId)).phase = .waiting →
      ((events ++ pass).foldl step (init isExtSub trackId)).acts =
        (events.foldl step (init isExtSub trackId)).accepted) := by
  have hinit := sound_init isExtSub trackId
  refine ⟨Run.forall_reached_iff (fun s h => h.delivered) sound_step not_delivered_step hinit
    events, fun hsafe hwaiting => ?_⟩
  have hlast := Run.invariant_of_meets sound_step hinit hsafe (Run.reached_last _ _)
  rw [List.foldl_append] at hlast ⊢
  obtain ⟨hphase, haccepted, hpending⟩ := foldl_pass hwaiting
  have hdone := hlast.delivered.of_ne (by rw [hphase]; decide)
  rw [hpending, List.append_nil, haccepted] at hdone
  exact hdone

/-- Two commands of the remote control before the thread wakes up. -/
def twoCommands : List Event :=
  [.ttControl .create .goToPage 1 0 0, .ttControl .create .goToPage 2 0 0] ++ pass

/-- **The first of two commands is lost.** -/
theorem not_delivered_twoCommands :
    ¬ ∀ s, Run.Reached step (init false 0) twoCommands s → s.Delivered := fun h => by
  have hlast := h _ (Run.reached_last _ _)
  revert hlast
  decide

end State

end Subtitle
end AmlSubtitle
