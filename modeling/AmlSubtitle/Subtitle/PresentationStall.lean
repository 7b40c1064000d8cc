import AmlSubtitle.Subtitle.PresentationOrder

/-!
# Whether the presentation can stall

The handler removes every pending check from the looper and has to schedule the
next one itself.  When an item waits in the queue, or fades and is to be cleared,
and no check is scheduled, nothing happens until the parser adds another item.

That comes about in two ways (`Lull`):

* `LullPurge`: the ten minutes rule empties the queue and the handler returns,
  without looking at the item that is fading;
* `LullKeep`: the front item is shown and is one to keep showing, so the fading part
  of the handler schedules nothing, and items stay queued behind it.

`noStall_checkSpu_iff` says that there is no other way, and `noStall_run` that a run
without them never stalls.
-/

namespace AmlSubtitle
namespace Presentation

open Words Spu Run

/-- Nothing waits to be shown or cleared. -/
def Quiet (s : State) : Prop :=
  s.mEmittedShowingSpu = [] ∧ ∀ spu ∈ s.mEmittedFaddingSpu, spu.isKeepShowing = true

/-- A check is scheduled. -/
def Scheduled (s : State) : Prop := ∃ m ∈ s.mLooper, m.what = .ptsTimeCheckSpu

/-- What waits is going to be looked at. -/
def NoStall (s : State) : Prop := Quiet s ∨ Scheduled s

instance (s : State) : Decidable (Quiet s) := inferInstanceAs (Decidable (_ ∧ _))

instance (s : State) : Decidable (Scheduled s) :=
  inferInstanceAs (Decidable (∃ m ∈ s.mLooper, m.what = .ptsTimeCheckSpu))

instance (s : State) : Decidable (NoStall s) := inferInstanceAs (Decidable (_ ∨ _))

/-- The queue whose front the handler looks at: with the item taken from the parser
and without the external cues that are over. -/
def lookedAt (s : State) (timestamp : ℤ) : List Spu :=
  (takeSpu (s.removeMessages .ptsTimeCheckSpu) timestamp).mEmittedShowingSpu.dropWhile
    (isOutOfDate timestamp)

/-- The state the handler looks at it in, all that it throws away being gone. -/
def thinned (s : State) (timestamp : ℤ) : State :=
  throwFarAhead (throwOutOfDate (takeSpu (s.removeMessages .ptsTimeCheckSpu) timestamp) timestamp)
    timestamp

/-- What stays queued when `spu` is shown in front of `list`. -/
def afterCombine (spu : Spu) : List Spu → List Spu
  | [] => []
  | secondSpu :: rest => if (combineSamePtsSubtitle spu secondSpu).isSome then rest
    else secondSpu :: rest

/-- Everything queued is ten minutes ahead, and an item is fading. -/
def LullPurge (s : State) (timestamp : ℤ) : Prop :=
  lookedAt s timestamp ≠ [] ∧ (∀ spu ∈ lookedAt s timestamp, isFarAhead timestamp spu = true) ∧
    ∃ spu ∈ s.mEmittedFaddingSpu, spu.isKeepShowing = false

/-- The front item is due and one to keep showing, and more stays queued. -/
def LullKeep (s : State) (timestamp : ℤ) : Prop :=
  ∃ spu rest, lookedAt s timestamp = spu :: rest ∧
    isDue (repair spu timestamp) timestamp ∧ spu.isKeepShowing = true ∧
      afterCombine (repair spu timestamp) ((lookedAt s timestamp).filter
        fun it => !isFarAhead timestamp it).tail ≠ []

/-- A check after which something waits and nothing is scheduled. -/
def Lull (s : State) (timestamp : ℤ) : Prop := LullPurge s timestamp ∨ LullKeep s timestamp

/-! ## The parts of the handler -/

theorem scheduled_sendMessageDelayed (s : State) (delay : ℤ) :
    Scheduled (s.sendMessageDelayed delay .ptsTimeCheckSpu) :=
  ⟨⟨.ptsTimeCheckSpu, delay⟩, List.mem_append_right _ (List.mem_singleton_self _), rfl⟩

theorem not_scheduled_removeMessages (s : State) :
    ¬ Scheduled (s.removeMessages .ptsTimeCheckSpu) := by
  rintro ⟨m, hm, hwhat⟩
  exact absurd hwhat (by simpa using (List.mem_filter.mp hm).2)

theorem combineNext_showing (s : State) (spu : Spu) :
    (combineNext s spu).1.mEmittedShowingSpu = afterCombine spu s.mEmittedShowingSpu := by
  obtain ⟨secondSpu, rest, both, hqueue, hboth, h⟩ | ⟨hnone, h⟩ := combineNext_cases s spu
  · rw [h, hqueue, afterCombine, hboth]
    rfl
  · rw [h]
    cases hqueue : s.mEmittedShowingSpu with
    | nil => rfl
    | cons secondSpu rest =>
      rw [afterCombine, hnone secondSpu rest hqueue]
      rfl

theorem combineSamePtsSubtitle_isKeepShowing {spu1 spu2 both : Spu}
    (h : combineSamePtsSubtitle spu1 spu2 = some both) :
    both.isKeepShowing = spu1.isKeepShowing := by
  unfold combineSamePtsSubtitle at h
  split_ifs at h
  rw [← Option.some.inj h]

theorem combineNext_isKeepShowing (s : State) (spu : Spu) :
    (combineNext s spu).2.isKeepShowing = spu.isKeepShowing := by
  obtain ⟨secondSpu, rest, both, -, hboth, h⟩ | ⟨-, h⟩ := combineNext_cases s spu
  · rw [h]
    exact combineSamePtsSubtitle_isKeepShowing hboth
  · rw [h]

theorem repair_isKeepShowing (spu : Spu) (timestamp : ℤ) :
    (repair spu timestamp).isKeepShowing = spu.isKeepShowing := by
  unfold repair compareBitAndSyncPts
  dsimp only
  split_ifs <;> rfl

theorem fixFading_isKeepShowing (spu : Spu) (timestamp : ℤ) :
    (fixFading spu timestamp).isKeepShowing = spu.isKeepShowing := by
  unfold fixFading
  split_ifs <;> rfl

/-- The item shown is the one that fades from now on. -/
theorem showSpu_fading {s : State} (h : s.mEmittedFaddingSpu.length ≤ 1) (spu : Spu)
    (timestamp : ℤ) :
    ∃ shown, (showSpu s spu timestamp).mEmittedFaddingSpu = [shown] ∧
      shown.isKeepShowing = spu.isKeepShowing := by
  refine ⟨fixFading (combineNext s spu).2 timestamp, ?_, ?_⟩
  · rw [showSpu_eq, pushFading]
    cases hfading : s.mEmittedFaddingSpu with
    | nil => simp [hfading]
    | cons cached rest =>
      rw [hfading, List.length_cons] at h
      have hrest : rest = [] := List.length_eq_zero_iff.mp (by omega)
      simp [hfading, hrest]
  · rw [fixFading_isKeepShowing, combineNext_isKeepShowing]

/-- The fading part schedules a check when the fading item is to be cleared. -/
theorem noStall_fade {s : State} (h : s.mEmittedFaddingSpu.length ≤ 1) (timestamp : ℤ) :
    NoStall (fade s timestamp) ↔
      (s.mEmittedShowingSpu ≠ [] → Scheduled s ∨
        ∃ spu ∈ s.mEmittedFaddingSpu, spu.isKeepShowing = false) := by
  unfold fade
  cases hfading : s.mEmittedFaddingSpu with
  | nil =>
    simp only [NoStall, Quiet, hfading, List.not_mem_nil, false_imp_iff, implies_true, and_true,
      false_and, exists_false, or_false]
    tauto
  | cons spu rest =>
    rw [hfading, List.length_cons] at h
    have hrest : rest = [] := List.length_eq_zero_iff.mp (by omega)
    by_cases hkeep : spu.isKeepShowing = true
    · simp only [NoStall, Quiet, hfading, hrest, hkeep, if_true, List.mem_singleton, forall_eq,
        and_true, exists_eq_left, Bool.true_eq_false, or_false]
      tauto
    · have hnot : spu.isKeepShowing = false := by simpa using hkeep
      simp only [hkeep]
      refine iff_of_true (Or.inr (scheduled_sendMessageDelayed _ _)) fun _ => Or.inr ?_
      exact ⟨spu, List.mem_cons_self, hnot⟩

/-- When nothing was scheduled, the item shown decides whether a check is. -/
theorem noStall_showSpu {s : State} (h : s.mEmittedFaddingSpu.length ≤ 1) (hs : ¬ Scheduled s)
    (spu : Spu) (timestamp : ℤ) :
    NoStall (fade (showSpu s spu timestamp) timestamp) ↔
      ¬ (spu.isKeepShowing = true ∧ afterCombine spu s.mEmittedShowingSpu ≠ []) := by
  obtain ⟨shown, hfading, hkeep⟩ := showSpu_fading h spu timestamp
  have hsched : ¬ Scheduled (showSpu s spu timestamp) := by
    rw [Scheduled, showSpu_eq, pushFading_looper, present_looper, combineNext_looper]
    exact hs
  have hshowing : (showSpu s spu timestamp).mEmittedShowingSpu =
      afterCombine spu s.mEmittedShowingSpu := by
    rw [showSpu_eq, pushFading_showing, present_showing, combineNext_showing]
  rw [noStall_fade (by rw [hfading]; exact le_rfl), hshowing, hfading, or_iff_right hsched]
  simp only [List.mem_singleton, exists_eq_left, hkeep]
  rw [← Bool.not_eq_true]
  tauto

/-! ## The handler -/

theorem not_scheduled_takeSpu (s : State) (timestamp : ℤ) :
    ¬ Scheduled (takeSpu (s.removeMessages .ptsTimeCheckSpu) timestamp) := by
  rw [Scheduled, takeSpu_looper]
  exact not_scheduled_removeMessages s

/-- When the external cues that are over were the whole queue, a check is
scheduled. -/
theorem scheduled_throwOutOfDate (s : State) (timestamp : ℤ) :
    Scheduled (throwOutOfDate s timestamp) ↔
      Scheduled s ∨ s.mEmittedShowingSpu.dropWhile (isOutOfDate timestamp) = [] := by
  unfold throwOutOfDate
  dsimp only
  split
  · rename_i hempty
    exact iff_of_true (scheduled_sendMessageDelayed _ _) (Or.inr hempty)
  · rename_i hleft
    exact ⟨Or.inl, fun h => h.resolve_right hleft⟩

@[simp] theorem thinned_showing (s : State) (timestamp : ℤ) :
    (thinned s timestamp).mEmittedShowingSpu =
      (lookedAt s timestamp).filter fun it => !isFarAhead timestamp it := by
  rw [thinned, throwFarAhead_showing, throwOutOfDate_showing, lookedAt]

@[simp] theorem thinned_fading (s : State) (timestamp : ℤ) :
    (thinned s timestamp).mEmittedFaddingSpu = s.mEmittedFaddingSpu := by
  rw [thinned, throwFarAhead_fading, throwOutOfDate_fading, takeSpu_fading]
  rfl

theorem scheduled_thinned (s : State) (timestamp : ℤ) :
    Scheduled (thinned s timestamp) ↔ lookedAt s timestamp = [] := by
  have h := scheduled_throwOutOfDate (takeSpu (s.removeMessages .ptsTimeCheckSpu) timestamp)
    timestamp
  rw [or_iff_right (not_scheduled_takeSpu s timestamp)] at h
  exact h

/-- The ten minutes rule has emptied the queue. -/
theorem noStall_thinned {s : State} {timestamp : ℤ}
    (hempty : (thinned s timestamp).mEmittedShowingSpu = []) :
    NoStall (thinned s timestamp) ↔ ¬ Lull s timestamp := by
  have hfar := hempty
  rw [thinned_showing] at hfar
  have hall : ∀ spu ∈ lookedAt s timestamp, isFarAhead timestamp spu = true := by
    intro spu hspu
    simpa using List.filter_eq_nil_iff.mp hfar spu hspu
  have hkeep : ¬ LullKeep s timestamp := by
    rintro ⟨spu, rest, -, -, -, hrest⟩
    rw [hfar] at hrest
    exact hrest rfl
  rw [NoStall, Quiet, hempty, Lull, or_iff_left hkeep, LullPurge, scheduled_thinned,
    thinned_fading]
  by_cases hlook : lookedAt s timestamp = []
  · simp [hlook]
  · rw [and_iff_right hlook, and_iff_right hall, or_iff_left hlook, and_iff_right rfl]
    simp

/-- The front item is looked at. -/
theorem noStall_showFront {s : State} (h : s.mEmittedFaddingSpu.length ≤ 1) {timestamp : ℤ}
    {spu : Spu} {rest : List Spu} (hqueue : lookedAt s timestamp = spu :: rest)
    (hleft : (thinned s timestamp).mEmittedShowingSpu ≠ []) :
    NoStall (fade (showFront (thinned s timestamp) spu (isFarAhead timestamp spu) timestamp)
      timestamp) ↔ ¬ Lull s timestamp := by
  have hpurge : ¬ LullPurge s timestamp := by
    rintro ⟨-, hall, -⟩
    rw [thinned_showing] at hleft
    exact hleft (List.filter_eq_nil_iff.mpr fun it hit => by simp [hall it hit])
  rw [Lull, or_iff_right hpurge]
  obtain ⟨hdue, hshow⟩ | ⟨hdue, hwait⟩ :=
    showFront_cases (thinned s timestamp) spu (isFarAhead timestamp spu) timestamp
  · -- the item shown is the one fading now, so it decides whether a check is scheduled
    have hqueued : lookedAt s timestamp ≠ [] := by rw [hqueue]; exact List.cons_ne_nil _ _
    rw [hshow, noStall_showSpu, repair_isKeepShowing, LullKeep]
    · simp [hqueue, hdue]
    · simpa using h
    · exact fun hsched => hqueued ((scheduled_thinned s timestamp).mp hsched)
  · rw [hwait]
    refine iff_of_true ?_ ?_
    · rw [noStall_fade (by simpa using h)]
      exact fun _ => Or.inl (scheduled_sendMessageDelayed _ _)
    · rintro ⟨spu', rest', hqueue', hdue', -⟩
      rw [hqueue] at hqueue'
      rw [← (List.cons.inj hqueue').1] at hdue'
      exact hdue hdue'

/-- **When a check leaves something waiting.** -/
theorem noStall_checkSpu_iff {s : State} (h : s.mEmittedFaddingSpu.length ≤ 1) (timestamp : ℤ) :
    NoStall (checkSpu s timestamp) ↔ ¬ Lull s timestamp := by
  obtain ⟨hempty, hcheck⟩ | ⟨-, hempty, hcheck⟩ | ⟨spu, rest, hqueue, hleft, hcheck⟩ :=
    checkSpu_cases s timestamp
  · have hlook : lookedAt s timestamp = [] := by rw [lookedAt, hempty, List.dropWhile_nil]
    rw [hcheck, noStall_fade (by rw [takeSpu_fading]; exact h)]
    refine iff_of_true (fun hne => absurd hempty hne) ?_
    rintro (⟨hne, -⟩ | ⟨spu, rest, hqueue, -⟩)
    · exact hne hlook
    · rw [hlook] at hqueue
      exact absurd hqueue (by simp)
  · rw [hcheck]
    exact noStall_thinned hempty
  · rw [hcheck]
    rw [throwOutOfDate_showing] at hqueue
    exact noStall_showFront h hqueue hleft

/-! ## Every run -/

theorem takeSpu_setLooper (s : State) (messages : List Message) (timestamp : ℤ) :
    (takeSpu { s with mLooper := messages } timestamp).mEmittedShowingSpu =
      (takeSpu s timestamp).mEmittedShowingSpu := by
  unfold takeSpu
  cases s.mDecodedSpu with
  | nil => rfl
  | cons item rest =>
    unfold limitMemory enqueue
    dsimp only [State.record]
    split_ifs <;> rfl

theorem lookedAt_setLooper (s : State) (messages : List Message) (timestamp : ℤ) :
    lookedAt { s with mLooper := messages } timestamp = lookedAt s timestamp := by
  rw [lookedAt, lookedAt, State.removeMessages, State.removeMessages]
  exact congrArg _ ((takeSpu_setLooper s _ timestamp).trans (takeSpu_setLooper s _ timestamp).symm)

/-- What is pending in the looper has no part in a lull. -/
theorem lull_setLooper (s : State) (messages : List Message) (timestamp : ℤ) :
    Lull { s with mLooper := messages } timestamp ↔ Lull s timestamp := by
  simp only [Lull, LullPurge, LullKeep, lookedAt_setLooper]

/-- The event delivers a check while the video clock runs. -/
def IsCheck (s : State) (e : Event) (timestamp : ℤ) : Prop :=
  ∃ k clock, e = .deliver k clock ∧ s.mLooper[k]?.map Message.what = some .ptsTimeCheckSpu ∧
    0 < clock.mCurrentPresentRelativeTime ∧ clock.timestamp = timestamp

theorem noStall_exec_iff {s : State} (h : s.mEmittedFaddingSpu.length ≤ 1) {e : Event}
    {timestamp : ℤ} (hcheck : IsCheck s e timestamp) :
    NoStall (exec s e) ↔ ¬ Lull s timestamp := by
  obtain ⟨k, clock, rfl, hwhat, hclock, rfl⟩ := hcheck
  obtain ⟨hnone, -⟩ | ⟨m, hm, ⟨hwait, -⟩ | ⟨-, hstream⟩⟩ := exec_deliver_cases s k clock
  · rw [hnone] at hwhat
    exact absurd hwhat (by simp)
  · omega
  · rw [hm, Option.map_some, Option.some_inj] at hwhat
    rw [hstream, hwhat, handleStreamSub, noStall_checkSpu_iff (by exact h), lull_setLooper]

/-- An event that is not a check in a lull leaves nothing waiting. -/
theorem noStall_exec {s : State} (h : s.mEmittedFaddingSpu.length ≤ 1) (hs : NoStall s) {e : Event}
    (hlull : ∀ timestamp, IsCheck s e timestamp → ¬ Lull s timestamp) : NoStall (exec s e) := by
  cases e with
  | addDecodedItem item => exact Or.inr (scheduled_sendMessageDelayed _ _)
  | resetForSeek =>
    refine hs.imp (fun hq => hq) ?_
    rintro ⟨m, hm, hwhat⟩
    exact ⟨m, List.mem_append_left _ hm, hwhat⟩
  | deliver k clock =>
    obtain ⟨-, hnone⟩ | ⟨m, hm, ⟨-, hwait⟩ | ⟨hclock, hstream⟩⟩ := exec_deliver_cases s k clock
    · rw [hnone]
      exact hs
    · rw [hwait]
      exact Or.inr (scheduled_sendMessageDelayed _ _)
    · cases hwhat : m.what with
      | ptsTimeCheckSpu =>
        have hcheck : IsCheck s (.deliver k clock) clock.timestamp :=
          ⟨k, clock, rfl, by rw [hm, Option.map_some, hwhat], hclock, rfl⟩
        exact (noStall_exec_iff h hcheck).mpr (hlull _ hcheck)
      | resetMessageQueue =>
        rw [hstream, hwhat]
        exact Or.inl ⟨rfl, by simp [handleStreamSub]⟩

/-- **When the presentation stalls.**  In every state of every run, a check leaves
something waiting with no check scheduled exactly in a lull; and in a run without
lulls nothing waits, in any state, without a check being scheduled. -/
theorem noStall_run (clock : Clock) (es : List Event) :
    (∀ t, Reached exec (start clock) es t → ∀ e timestamp, IsCheck t e timestamp →
        (NoStall (exec t e) ↔ ¬ Lull t timestamp)) ∧
      (Meets exec (fun s e => ∀ timestamp, IsCheck s e timestamp → ¬ Lull s timestamp)
          (start clock) es →
        ∀ t, Reached exec (start clock) es t → NoStall t) := by
  constructor
  · rintro t ⟨p, -, rfl⟩ e timestamp hcheck
    exact noStall_exec_iff (ordered_foldl clock p).fading hcheck
  · intro hmeets t ht
    have hinv := invariant_of_meets (I := fun s => Ordered s ∧ NoStall s)
      (fun s e hs hlull => ⟨hs.1.exec e, noStall_exec hs.1.fading hs.2 hlull⟩)
      ⟨ordered_foldl clock [], Or.inr ⟨_, List.mem_singleton_self _, rfl⟩⟩ hmeets ht
    exact hinv.2

/-- The first check of a run. -/
theorem noStall_run_first_check :
    NoStall (exec (start ⟨0, 1000000⟩) (.deliver 0 ⟨0, 1000000⟩)) ↔
      ¬ Lull (start ⟨0, 1000000⟩) 1000000 :=
  (noStall_run ⟨0, 1000000⟩ []).1 _ (reached_self _ _) _ _
    ⟨0, ⟨0, 1000000⟩, rfl, rfl, by decide, rfl⟩

/-- A text item of one byte. -/
def textItem (pts : ℤ) (isKeepShowing : Bool) : Spu where
  id := 0
  bufferSize := 1
  isSimpleText := true
  pts := pts
  isImmediatePresent := false
  isExtSub := false
  isKeepShowing := isKeepShowing
  objectSegmentId := 0
  mDelay := pts + 180000
  spuData := some [65]
  subtitleType := .ssa

/-- The clock at a number of seconds. -/
def seconds (n : ℤ) : Clock := ⟨0, n * 1000000000⟩

/-- An item to keep showing is due at 10 s with another queued for 20 s: after the
check at 10 s the other waits and no check is scheduled.  And the item shown at
610 s is fading when the clock is set back to 10 s with another queued for 710 s:
the check at 10 s throws that one away and schedules nothing for the first. -/
theorem stall_keep_and_purge :
    (¬ NoStall ([.addDecodedItem (textItem 900000 true), .addDecodedItem (textItem 1800000 false),
        .deliver 0 (seconds 9), .deliver 0 (seconds 9), .deliver 0 (seconds 10)].foldl exec
          (start (seconds 1)))) ∧
      ¬ NoStall ([.addDecodedItem (textItem 54900000 false),
        .addDecodedItem (textItem 63900000 false),
        .deliver 0 (seconds 600), .deliver 0 (seconds 610), .deliver 0 (seconds 10)].foldl exec
          (start (seconds 1))) := by
  decide

end Presentation
end AmlSubtitle
