import AmlSubtitle.Subtitle.Presentation

/-!
# The order of the emitted items

The handler tests only the front of `mEmittedShowingSpu`, so the list has to be
sorted by time stamp.  Items are sorted in, but the time stamp of the front item is
rewritten afterwards, in place.  That does no harm for two reasons.  An item whose
missing time stamp is replaced by the clock is due at once and leaves the list
(`isDue_of_no_pts`); an item that stays has at most been cut down to 32 bits, which
makes its time stamp smaller.
-/

namespace AmlSubtitle
namespace Presentation

open Words Spu Run

/-- The queue is sorted, and at most one item is fading. -/
structure Ordered (s : State) : Prop where
  sorted : s.mEmittedShowingSpu.Pairwise PtsLe
  fading : s.mEmittedFaddingSpu.length ≤ 1

/-! ## Time stamps written in place -/

/-- An item with the clock's own time stamp is within the tolerance. -/
theorem isDue_of_clock_pts {spu : Spu} {timestamp : ℤ}
    (h : spu.pts = convertNs2DvbTime timestamp) : isDue spu timestamp := by
  have hlow := Int.tmod_lt_of_pos timestamp (show (0 : ℤ) < 1000000 by decide)
  have hhigh := Int.tmod_lt_of_pos (-timestamp) (show (0 : ℤ) < 1000000 by decide)
  rw [Int.neg_tmod] at hhigh
  refine Or.inr (Or.inr ?_)
  have hdiff : timestamp + tolerance - convertDvbTime2Ns spu.pts =
      tolerance + timestamp.tmod 1000000 := by
    rw [h, convertDvbTime2Ns_convertNs2DvbTime]
    omega
  have hsmall : (asUnsigned 64 (tolerance + timestamp.tmod 1000000) : ℤ) =
      tolerance + timestamp.tmod 1000000 :=
    asUnsigned_of_nonneg (by rw [tolerance]; omega) (by rw [tolerance]; omega)
  rw [ptsShowDiff, hdiff]
  rw [tolerance] at hsmall ⊢
  omega

/-- The clock has as many bits as itself, so the cut leaves its time stamp alone. -/
theorem compareBitAndSyncPts_of_pts_eq {spu : Spu} {vPts : ℤ} (h : spu.pts = vPts) :
    compareBitAndSyncPts spu vPts = spu := by
  unfold compareBitAndSyncPts
  split
  · rfl
  · rw [if_neg (by rw [h]; exact fun hbits => hbits.2 hbits.1)]

/-- A repaired item that is not due has not got a larger time stamp. -/
theorem repair_pts_le {spu : Spu} {timestamp : ℤ} (h : ¬ isDue (repair spu timestamp) timestamp) :
    (repair spu timestamp).pts ≤ spu.pts := by
  have hpts : ∀ spu' : Spu, (if spu'.mDelay ≤ 0 then
      { spu' with mDelay := spu'.pts + ADDJUST_NO_PTS_MS * DVB_TIME_MULTI } else spu').pts =
      spu'.pts := fun spu' => by split <;> rfl
  unfold repair at h ⊢
  dsimp only at h ⊢
  by_cases hnone : spu.pts.tdiv DVB_TIME_MULTI ≤ 0 ∧ ¬ spu.isImmediatePresent
  · rw [if_pos hnone] at h
    refine absurd (isDue_of_clock_pts ?_) h
    rw [hpts, compareBitAndSyncPts_of_pts_eq rfl]
  · rw [if_neg hnone, hpts]
    exact compareBitAndSyncPts_pts_le _ _

/-! ## The parts of the handler -/

theorem sorted_enqueue {s : State} (h : s.mEmittedShowingSpu.Pairwise PtsLe) (spu : Spu)
    (timestamp : ℤ) : (enqueue s spu timestamp).mEmittedShowingSpu.Pairwise PtsLe := by
  unfold enqueue
  split
  · exact sortPts_sorted _
  · exact h

theorem sorted_limitMemory {s : State} (h : s.mEmittedShowingSpu.Pairwise PtsLe) (spu : Spu) :
    (limitMemory s spu).mEmittedShowingSpu.Pairwise PtsLe := by
  unfold limitMemory
  split
  · exact h.sublist (List.drop_sublist _ _)
  · exact h

theorem Ordered.takeSpu {s : State} (h : Ordered s) (timestamp : ℤ) :
    Ordered (takeSpu s timestamp) := by
  refine ⟨?_, by rw [takeSpu_fading]; exact h.fading⟩
  unfold Presentation.takeSpu
  split
  · exact h.sorted
  · refine sorted_limitMemory (sorted_enqueue ?_ _ _) _
    exact h.sorted

theorem Ordered.throwOutOfDate {s : State} (h : Ordered s) (timestamp : ℤ) :
    Ordered (throwOutOfDate s timestamp) := by
  refine ⟨?_, by rw [throwOutOfDate_fading]; exact h.fading⟩
  rw [throwOutOfDate_showing]
  exact h.sorted.sublist (List.dropWhile_sublist _)

theorem Ordered.throwFarAhead {s : State} (h : Ordered s) (timestamp : ℤ) :
    Ordered (throwFarAhead s timestamp) :=
  ⟨h.sorted.sublist List.filter_sublist, h.fading⟩

theorem Ordered.fade {s : State} (h : Ordered s) (timestamp : ℤ) : Ordered (fade s timestamp) := by
  unfold Presentation.fade
  split
  · exact h
  · rename_i spu rest hfading
    have hlen := h.fading
    have hrest : rest.length ≤ 1 := by
      rw [hfading, List.length_cons] at hlen
      omega
    split_ifs
    · exact h
    all_goals exact ⟨h.sorted, by assumption⟩

theorem sorted_combineNext {s : State} (h : s.mEmittedShowingSpu.Pairwise PtsLe) (spu : Spu) :
    (combineNext s spu).1.mEmittedShowingSpu.Pairwise PtsLe := by
  unfold combineNext
  split
  · exact h
  · rename_i secondSpu rest hqueue
    split
    · rw [hqueue] at h
      exact h.of_cons
    · exact h

theorem length_pushFading {s : State} (h : s.mEmittedFaddingSpu.length ≤ 1) (spu : Spu) :
    (pushFading s spu).mEmittedFaddingSpu.length ≤ 1 := by
  unfold pushFading
  split
  · exact le_rfl
  · rename_i cachedSpu rest hfading
    rw [hfading, List.length_cons] at h
    simp only [State.record, List.length_append, List.length_singleton]
    exact h

theorem Ordered.showSpu {s : State} (h : Ordered s) (spu : Spu) (timestamp : ℤ) :
    Ordered (showSpu s spu timestamp) := by
  rw [showSpu_eq]
  refine ⟨?_, length_pushFading ?_ _⟩
  · rw [pushFading_showing, present_showing]
    exact sorted_combineNext h.sorted spu
  · rw [present_fading, combineNext_fading]
    exact h.fading

/-- Showing or waiting keeps the order.  The front item keeps its place since its
time stamp has not grown. -/
theorem Ordered.showFront {s : State} (h : Ordered s) {spu : Spu} {purged : Bool} {timestamp : ℤ}
    (hfront : purged = false → ∃ rest, s.mEmittedShowingSpu = spu :: rest) :
    Ordered (showFront s spu purged timestamp) := by
  have htail := h.sorted.sublist (List.tail_sublist _)
  obtain ⟨-, hshow⟩ | ⟨hdue, hwait⟩ := showFront_cases s spu purged timestamp
  · rw [hshow]
    have hpop : ∀ acts, Ordered
        ({ s with mEmittedShowingSpu := s.mEmittedShowingSpu.tail }.record acts) :=
      fun _ => ⟨htail, h.fading⟩
    exact (hpop _).showSpu _ _
  · rw [hwait]
    refine ⟨?_, h.fading⟩
    cases purged with
    | true => exact h.sorted
    | false =>
      obtain ⟨rest, hrest⟩ := hfront rfl
      have hsorted := h.sorted
      rw [hrest] at htail hsorted
      show (repair spu timestamp :: s.mEmittedShowingSpu.tail).Pairwise PtsLe
      rw [hrest]
      refine List.pairwise_cons.mpr ⟨fun b hb => ?_, htail⟩
      exact (repair_pts_le hdue).trans ((List.pairwise_cons.mp hsorted).1 b hb)

theorem Ordered.checkSpu {s : State} (h : Ordered s) (timestamp : ℤ) :
    Ordered (checkSpu s timestamp) := by
  have hclear : Ordered (s.removeMessages .ptsTimeCheckSpu) := ⟨h.sorted, h.fading⟩
  have htake := hclear.takeSpu timestamp
  have hfar := (htake.throwOutOfDate timestamp).throwFarAhead timestamp
  obtain ⟨-, hcheck⟩ | ⟨-, -, hcheck⟩ | ⟨spu, rest, hqueue, -, hcheck⟩ := checkSpu_cases s timestamp
  · rw [hcheck]
    exact htake.fade timestamp
  · rw [hcheck]
    exact hfar
  · rw [hcheck]
    refine (hfar.showFront fun hnot => ?_).fade timestamp
    rw [throwFarAhead_of_head hqueue, hnot]
    exact ⟨_, rfl⟩

/-! ## Every run -/

theorem Ordered.exec {s : State} (h : Ordered s) (e : Event) : Ordered (exec s e) := by
  cases e with
  | addDecodedItem item => exact ⟨h.sorted, h.fading⟩
  | resetForSeek => exact ⟨h.sorted, h.fading⟩
  | deliver k clock =>
    have htaken : Ordered { s with mLooper := s.mLooper.eraseIdx k } := ⟨h.sorted, h.fading⟩
    obtain ⟨-, hnone⟩ | ⟨m, -, ⟨-, hwait⟩ | ⟨-, hstream⟩⟩ := exec_deliver_cases s k clock
    · rw [hnone]
      exact h
    · rw [hwait]
      exact ⟨h.sorted, h.fading⟩
    · rw [hstream]
      cases m.what with
      | ptsTimeCheckSpu => exact htaken.checkSpu _
      | resetMessageQueue => exact ⟨List.Pairwise.nil, Nat.zero_le _⟩

theorem ordered_foldl (clock : Clock) (es : List Event) :
    Ordered (es.foldl exec (start clock)) :=
  invariant (I := Ordered) (fun _ e h => h.exec e) ⟨List.Pairwise.nil, Nat.zero_le _⟩ es

/-- **The queue is sorted.**  After every event of every run the queue is sorted by
time stamp, and at most one item is fading. -/
theorem ordered_run (clock : Clock) (es : List Event) :
    (es.foldl exec (start clock)).mEmittedShowingSpu.Pairwise PtsLe ∧
      (es.foldl exec (start clock)).mEmittedFaddingSpu.length ≤ 1 :=
  ⟨(ordered_foldl clock es).sorted, (ordered_foldl clock es).fading⟩

end Presentation
end AmlSubtitle
