import AmlSubtitle.Subtitle.PresentationLoss

/-!
# How long an item is shown

Between the parser and the fading list the time stamp and the end time of an item are
rewritten, each on its own: by `repair` as often as the item is looked at at the front of the
queue, and by `fixFading` when it is shown.

* `holds_checkSpu`: a property of the queued items and one of the fading item that a check
  keeps, since it keeps them for the item it looks at.
* `Lasts`: what `repair` keeps.  An item whose time stamp is cut to 32 bits has to have its
  end time in the same range of 32 bits (`Cut`), and a time stamp of less than a millisecond
  counts as none.
* `keepsDuration_run`: in a run where that is so whenever the item is looked at, the item has
  its duration when it is fading.
-/

namespace AmlSubtitle
namespace Presentation

open Words Spu Run

/-! ## Properties of the items -/

/-- The queued items have one property, and the fading items another. -/
structure Holds (Q F : Spu → Prop) (s : State) : Prop where
  queued : ∀ spu ∈ s.mEmittedShowingSpu, Q spu
  fading : ∀ spu ∈ s.mEmittedFaddingSpu, F spu

section Parts

variable {Q F : Spu → Prop} {s : State} {timestamp : ℤ}

theorem Holds.takeSpu (h : Holds Q F s)
    (hitem : ∀ item rest, s.mDecodedSpu = item :: rest → Q (adjustFarPts item timestamp)) :
    Holds Q F (takeSpu s timestamp) := by
  refine ⟨?_, by rw [takeSpu_fading]; exact h.fading⟩
  unfold Presentation.takeSpu
  cases hqueue : s.mDecodedSpu with
  | nil => exact h.queued
  | cons item rest =>
    have hqueued : ∀ spu ∈ (enqueue ({ s with mDecodedSpu := rest }.record [.took item])
        (adjustFarPts item timestamp) timestamp).mEmittedShowingSpu, Q spu := by
      unfold enqueue
      split
      · intro spu hspu
        rcases List.mem_append.mp ((sortPts_perm _).mem_iff.mp hspu) with hold | hnew
        · exact h.queued spu hold
        · rw [List.mem_singleton.mp hnew]
          exact hitem item rest hqueue
      · exact h.queued
    dsimp only
    unfold limitMemory
    split
    · exact fun spu hspu => hqueued spu (List.mem_of_mem_drop hspu)
    · exact hqueued

theorem Holds.thinned
    (h : Holds Q F (Presentation.takeSpu (s.removeMessages .ptsTimeCheckSpu) timestamp)) :
    Holds Q F (thinned s timestamp) := by
  refine ⟨fun spu hspu => h.queued spu ?_, ?_⟩
  · rw [thinned_showing] at hspu
    exact (List.dropWhile_sublist _).subset (List.mem_of_mem_filter hspu)
  · have hfading := h.fading
    rw [takeSpu_fading] at hfading
    rw [thinned_fading]
    exact hfading

/-- Merging changes the text of the item, and no time. -/
theorem combineNext_item (s : State) (spu : Spu) : ∃ data size,
    (combineNext s spu).2 = { spu with spuData := data, bufferSize := size } := by
  obtain ⟨secondSpu, rest, both, -, hboth, h⟩ | ⟨-, h⟩ := combineNext_cases s spu
  · rw [h]
    unfold combineSamePtsSubtitle at hboth
    split_ifs at hboth
    exact ⟨_, _, (Option.some.inj hboth).symm⟩
  · rw [h]
    exact ⟨spu.spuData, spu.bufferSize, rfl⟩

theorem combineNext_subset (s : State) (spu : Spu) :
    (combineNext s spu).1.mEmittedShowingSpu ⊆ s.mEmittedShowingSpu := by
  obtain ⟨secondSpu, rest, both, hqueue, -, h⟩ | ⟨-, h⟩ := combineNext_cases s spu
  · rw [h, hqueue]
    exact List.subset_cons_self _ _
  · rw [h]
    exact List.Subset.refl _

theorem Holds.showSpu (h : Holds Q F s) {spu : Spu}
    (hspu : ∀ data size,
      F (fixFading { spu with spuData := data, bufferSize := size } timestamp)) :
    Holds Q F (showSpu s spu timestamp) := by
  rw [showSpu_eq]
  refine ⟨fun it hit => ?_, fun it hit => ?_⟩
  · rw [pushFading_showing, present_showing] at hit
    exact h.queued it (combineNext_subset s spu hit)
  · obtain ⟨data, size, hitem⟩ := combineNext_item s spu
    rw [hitem] at hit
    have hfading : (present (combineNext s spu).1 { spu with
        spuData := data, bufferSize := size }).mEmittedFaddingSpu = s.mEmittedFaddingSpu := by
      rw [present_fading, combineNext_fading]
    unfold pushFading at hit
    split at hit
    · rw [List.mem_singleton.mp hit]
      exact hspu data size
    · rename_i cachedSpu rest hlist
      rcases List.mem_append.mp hit with hold | hnew
      · refine h.fading it ?_
        rw [← hfading, hlist]
        exact List.mem_cons_of_mem _ hold
      · rw [List.mem_singleton.mp hnew]
        exact hspu data size

theorem Holds.fade (h : Holds Q F s) : Holds Q F (fade s timestamp) := by
  unfold Presentation.fade
  split
  · exact h
  · rename_i spu rest hlist
    have hrest : ∀ it ∈ rest, F it := fun it hit =>
      h.fading it (hlist ▸ List.mem_cons_of_mem _ hit)
    split_ifs
    · exact h
    all_goals first
      | exact ⟨h.queued, hrest⟩
      | exact ⟨h.queued, h.fading⟩

/-- **A check** keeps what it keeps for the item it looks at. -/
theorem holds_checkSpu
    (h : Holds Q F (takeSpu (s.removeMessages .ptsTimeCheckSpu) timestamp))
    (hlook : ∀ spu rest, lookedAt s timestamp = spu :: rest → Q spu →
      Q (repair spu timestamp) ∧ ∀ data size, F (fixFading { repair spu timestamp with
        spuData := data, bufferSize := size } timestamp)) :
    Holds Q F (checkSpu s timestamp) := by
  obtain ⟨-, hcheck⟩ | ⟨-, -, hcheck⟩ | ⟨spu, rest, hqueue, -, hcheck⟩ :=
    checkSpu_cases s timestamp
  · rw [hcheck]
    exact h.fade
  · rw [hcheck]
    exact h.thinned
  · rw [throwOutOfDate_showing] at hqueue
    have hspu : Q spu := by
      refine h.queued spu ((List.dropWhile_sublist (isOutOfDate timestamp)).subset ?_)
      rw [hqueue]
      exact List.mem_cons_self
    obtain ⟨hrepair, hshown⟩ := hlook spu rest hqueue hspu
    rw [hcheck]
    refine Holds.fade ?_
    obtain ⟨-, hshow⟩ | ⟨-, hwait⟩ :=
      showFront_cases (thinned s timestamp) spu (isFarAhead timestamp spu) timestamp
    · refine (congrArg (Holds Q F) hshow).mpr (Holds.showSpu ⟨fun it hit => ?_, ?_⟩ hshown)
      · exact h.thinned.queued it (List.mem_of_mem_tail hit)
      · exact h.thinned.fading
    · refine (congrArg (Holds Q F) hwait).mpr ⟨fun it hit => ?_, h.thinned.fading⟩
      change it ∈ (if isFarAhead timestamp spu then (Presentation.thinned s
        timestamp).mEmittedShowingSpu else _) at hit
      split at hit
      · exact h.thinned.queued it hit
      · rcases List.mem_cons.mp hit with rfl | htail
        · exact hrepair
        · exact h.thinned.queued it (List.mem_of_mem_tail htail)

end Parts

/-! ## Times -/

/-- The time stamp and the end time of an item are cut to 32 bits. -/
def Cut (spu : Spu) (timestamp : ℤ) : Prop :=
  (0 < spu.pts ∧ 0 < convertNs2DvbTime timestamp) ∧
    isMore32Bit spu.pts = true ∧ isMore32Bit (convertNs2DvbTime timestamp) = false

instance (spu : Spu) (timestamp : ℤ) : Decidable (Cut spu timestamp) :=
  inferInstanceAs (Decidable (_ ∧ _))

/-- The times of an item, when it has `duration` ticks to last. -/
structure Lasts (duration : ℤ) (spu : Spu) : Prop where
  pts : 0 ≤ spu.pts
  pos : 0 < duration
  delay : spu.mDelay = spu.pts + duration

/-- How long an item is shown: five seconds, when it has less than one. -/
def shownFor (duration : ℤ) : ℤ :=
  if duration < 1000 * DVB_TIME_MULTI then ADDJUST_VERY_SMALL_PTS_MS * DVB_TIME_MULTI
  else duration

/-- An item that is looked at has a time stamp, and when it is cut, both its times lose the
same. -/
def LooksRight (spu : Spu) (timestamp : ℤ) : Prop :=
  (DVB_TIME_MULTI ≤ spu.pts ∨ spu.isImmediatePresent = true) ∧
    (Cut spu timestamp → spu.pts / 2 ^ 32 = spu.mDelay / 2 ^ 32)

instance (spu : Spu) (timestamp : ℤ) : Decidable (LooksRight spu timestamp) :=
  inferInstanceAs (Decidable (_ ∧ (_ → _)))

theorem compareBitAndSyncPts_eq (spu : Spu) (timestamp : ℤ) :
    compareBitAndSyncPts spu (convertNs2DvbTime timestamp) =
      if Cut spu timestamp then { spu with pts := spu.pts % 2 ^ 32, mDelay := spu.mDelay % 2 ^ 32 }
      else spu := by
  unfold compareBitAndSyncPts
  by_cases hpos : spu.pts ≤ 0 ∨ convertNs2DvbTime timestamp ≤ 0
  · rw [if_pos hpos, if_neg]
    rintro ⟨⟨hpts, hclock⟩, -⟩
    omega
  · rw [if_neg hpos]
    refine if_congr ⟨fun h => ⟨by omega, h.1, by simpa using h.2⟩, fun h => ⟨h.2.1, ?_⟩⟩ rfl rfl
    simp [h.2.2]

/-- A cut in one range of 32 bits leaves the difference of the times. -/
theorem Lasts.compareBitAndSyncPts {duration : ℤ} {spu : Spu} {timestamp : ℤ}
    (h : Lasts duration spu) (hcut : Cut spu timestamp → spu.pts / 2 ^ 32 = spu.mDelay / 2 ^ 32) :
    Lasts duration (compareBitAndSyncPts spu (convertNs2DvbTime timestamp)) := by
  rw [compareBitAndSyncPts_eq]
  split
  · rename_i hpart
    have hsame := hcut hpart
    have hdelay := h.delay
    refine ⟨Int.emod_nonneg _ (by norm_num), h.pos, ?_⟩
    show spu.mDelay % 2 ^ 32 = spu.pts % 2 ^ 32 + duration
    omega
  · exact h

/-- What is written to an item that is looked at leaves its duration. -/
theorem Lasts.repair {duration : ℤ} {spu : Spu} {timestamp : ℤ} (h : Lasts duration spu)
    (hright : LooksRight spu timestamp) : Lasts duration (repair spu timestamp) := by
  have hstamp : ¬ (spu.pts.tdiv DVB_TIME_MULTI ≤ 0 ∧ ¬ spu.isImmediatePresent) := by
    rintro ⟨hnone, hnot⟩
    rcases hright.1 with hpts | himm
    · have hone : 1 ≤ spu.pts.tdiv DVB_TIME_MULTI := by
        rw [Int.tdiv_eq_ediv_of_nonneg h.pts]
        exact (Int.le_ediv_iff_mul_le (by decide)).mpr (by rw [one_mul]; exact hpts)
      omega
    · exact hnot himm
  have hcut := h.compareBitAndSyncPts hright.2
  have hpts := hcut.pts
  have hpos := hcut.pos
  have hdelay := hcut.delay
  unfold Presentation.repair
  dsimp only
  rw [if_neg hstamp, if_neg (by omega)]
  exact hcut

/-- An item that is shown lasts as long as it did, but five seconds if that was less than
one. -/
theorem Lasts.fixFading {duration : ℤ} {spu : Spu} (h : Lasts duration spu) (timestamp : ℤ) :
    (fixFading spu timestamp).mDelay - (fixFading spu timestamp).pts = shownFor duration := by
  obtain ⟨hpts, hpos, hdelay⟩ := h
  have hlong : ¬ (spu.isImmediatePresent ∧ (spu.mDelay = 0 ∨ spu.mDelay = spu.pts)) := by
    rintro ⟨-, hzero | hsame⟩ <;> omega
  have hdiff : spu.mDelay - spu.pts = duration := by omega
  unfold Presentation.fixFading shownFor
  rw [if_neg hlong, hdiff]
  by_cases hshort : duration < 1000 * DVB_TIME_MULTI
  · rw [if_pos (Or.inr (Or.inr hshort)), if_pos hshort]
    dsimp only
    omega
  · rw [if_neg (by rintro (hzero | hback | hshort') <;> omega), if_neg hshort]
    exact hdiff

/-! ## The numbers of the items -/

/-- A check takes the first item of the parser's queue. -/
theorem checkSpu_decoded (s : State) (timestamp : ℤ) :
    (checkSpu s timestamp).mDecodedSpu = s.mDecodedSpu.tail ∧
      (checkSpu s timestamp).added = s.added := by
  have hgo := (checkSpu_spec s timestamp).1
  rw [hgo.decoded, hgo.added]
  obtain ⟨hnone, htake⟩ | ⟨item, rest, hqueue, htake, -⟩ :=
    takeSpu_cases (s.removeMessages .ptsTimeCheckSpu) timestamp
  · rw [htake]
    change s.mDecodedSpu = [] at hnone
    exact ⟨by simp [hnone], rfl⟩
  · rw [htake.decoded, htake.added]
    change s.mDecodedSpu = item :: rest at hqueue
    exact ⟨by simp [hqueue], rfl⟩

/-- An item with a number below those of the items to be taken. -/
def Older (decoded : List Spu) (added : ℕ) (spu : Spu) : Prop :=
  spu.id < added ∧ ∀ item ∈ decoded, spu.id < item.id

/-- Items are taken in the order they are numbered in. -/
structure Numbered (s : State) : Prop where
  sorted : s.mDecodedSpu.Pairwise fun a b => a.id < b.id
  added : ∀ item ∈ s.mDecodedSpu, item.id < s.added
  emitted : Holds (Older s.mDecodedSpu s.added) (Older s.mDecodedSpu s.added) s

theorem Older.of_subset {decoded decoded' : List Spu} {added : ℕ} {spu : Spu}
    (h : Older decoded added spu) (hsub : decoded' ⊆ decoded) : Older decoded' added spu :=
  ⟨h.1, fun item hitem => h.2 item (hsub hitem)⟩

theorem Numbered.checkSpu {s : State} (h : Numbered s) (timestamp : ℤ) :
    Numbered (checkSpu s timestamp) := by
  obtain ⟨hdecoded, hadded⟩ := checkSpu_decoded s timestamp
  have htail : s.mDecodedSpu.tail ⊆ s.mDecodedSpu := List.tail_subset _
  refine ⟨?_, ?_, ?_⟩
  · rw [hdecoded]
    exact h.sorted.sublist (List.tail_sublist _)
  · rw [hdecoded, hadded]
    exact fun item hitem => h.added item (htail hitem)
  · rw [hdecoded, hadded]
    have hbefore : Holds (Older s.mDecodedSpu.tail s.added) (Older s.mDecodedSpu.tail s.added)
        (s.removeMessages .ptsTimeCheckSpu) :=
      ⟨fun spu hspu => (h.emitted.queued spu hspu).of_subset htail,
        fun spu hspu => (h.emitted.fading spu hspu).of_subset htail⟩
    refine holds_checkSpu (hbefore.takeSpu fun item rest hqueue => ?_)
      fun spu rest _ hspu => ⟨?_, fun data size => ?_⟩
    · change s.mDecodedSpu = item :: rest at hqueue
      have hsorted := h.sorted
      rw [hqueue] at hsorted ⊢
      rw [Older, adjustFarPts_id]
      exact ⟨h.added item (hqueue ▸ List.mem_cons_self), (List.pairwise_cons.mp hsorted).1⟩
    · rw [Older, repair_id]
      exact hspu
    · rw [Older, fixFading_id]
      show (repair spu timestamp).id < _ ∧ _
      rw [repair_id]
      exact hspu

theorem Numbered.exec {s : State} (h : Numbered s) (e : Event) : Numbered (exec s e) := by
  cases e with
  | addDecodedItem item =>
    have hdrop := List.drop_subset (s.mDecodedSpu.length + 1 - INTERNAL_MAX_NUMBER_SPU_ITEM)
      s.mDecodedSpu
    have holder : ∀ spu, Older s.mDecodedSpu s.added spu →
        Older (Presentation.exec s (.addDecodedItem item)).mDecodedSpu (s.added + 1) spu := by
      intro spu hspu
      refine ⟨Nat.lt_succ_of_lt hspu.1, fun it hit => ?_⟩
      rcases List.mem_append.mp hit with hold | hnew
      · exact hspu.2 it (hdrop hold)
      · rw [List.mem_singleton.mp hnew]
        exact hspu.1
    refine ⟨?_, fun it hit => ?_, fun spu hspu => holder spu (h.emitted.queued spu hspu),
      fun spu hspu => holder spu (h.emitted.fading spu hspu)⟩
    · refine List.pairwise_append.mpr ⟨h.sorted.sublist (List.drop_sublist _ _),
        List.pairwise_singleton _ _, fun it hit new hnew => ?_⟩
      rw [List.mem_singleton.mp hnew]
      exact h.added it (hdrop hit)
    · show it.id < s.added + 1
      rcases List.mem_append.mp hit with hold | hnew
      · exact Nat.lt_succ_of_lt (h.added it (hdrop hold))
      · rw [List.mem_singleton.mp hnew]
        exact Nat.lt_succ_self _
  | resetForSeek =>
    exact ⟨List.Pairwise.nil, fun _ hit => absurd hit List.not_mem_nil,
      fun spu hspu => (h.emitted.queued spu hspu).of_subset (List.nil_subset _),
      fun spu hspu => (h.emitted.fading spu hspu).of_subset (List.nil_subset _)⟩
  | deliver k clock =>
    have hsent : Numbered { s with mLooper := s.mLooper.eraseIdx k } :=
      ⟨h.sorted, h.added, h.emitted.queued, h.emitted.fading⟩
    obtain ⟨-, hexec⟩ | ⟨m, -, ⟨-, hexec⟩ | ⟨-, hexec⟩⟩ := exec_deliver_cases s k clock
    · rw [hexec]
      exact h
    · rw [hexec]
      exact ⟨h.sorted, h.added, h.emitted.queued, h.emitted.fading⟩
    · rw [hexec]
      cases m.what with
      | ptsTimeCheckSpu => exact hsent.checkSpu _
      | resetMessageQueue =>
        exact ⟨h.sorted, h.added, fun _ hit => absurd hit List.not_mem_nil,
          fun _ hit => absurd hit List.not_mem_nil⟩

theorem numbered_foldl (clock : Clock) (es : List Event) :
    Numbered (es.foldl exec (start clock)) :=
  invariant (fun _ e h => h.exec e) ⟨List.Pairwise.nil, fun _ hit => absurd hit List.not_mem_nil,
    fun _ hit => absurd hit List.not_mem_nil, fun _ hit => absurd hit List.not_mem_nil⟩ es

/-! ## Every run -/

/-- Item `k`, which has been taken, still has `duration` ticks to last while it is queued, and
is shown for as long when it is fading. -/
structure Keeps (k : ℕ) (duration : ℤ) (s : State) : Prop where
  item : Holds (fun spu => spu.id = k → Lasts duration spu)
    (fun spu => spu.id = k → spu.mDelay - spu.pts = shownFor duration) s
  taken : ∀ item ∈ s.mDecodedSpu, item.id ≠ k
  added : k < s.added

/-- Whenever a check looks at item `k`, it looks right. -/
def LooksRightAt (k : ℕ) (s : State) (e : Event) : Prop :=
  ∀ timestamp, IsCheck s e timestamp → ∀ spu rest, lookedAt s timestamp = spu :: rest →
    spu.id = k → LooksRight spu timestamp

section Run

variable {k : ℕ} {duration : ℤ} {s : State} {timestamp : ℤ}

/-- What follows the taking of an item. -/
theorem keeps_checkSpu
    (h : Holds (fun spu => spu.id = k → Lasts duration spu)
      (fun spu => spu.id = k → spu.mDelay - spu.pts = shownFor duration)
      (takeSpu (s.removeMessages .ptsTimeCheckSpu) timestamp))
    (htaken : ∀ item ∈ s.mDecodedSpu.tail, item.id ≠ k) (hadded : k < s.added)
    (hlook : ∀ spu rest, lookedAt s timestamp = spu :: rest → spu.id = k →
      LooksRight spu timestamp) : Keeps k duration (checkSpu s timestamp) := by
  obtain ⟨hdecoded, hsame⟩ := checkSpu_decoded s timestamp
  refine ⟨?_, by rw [hdecoded]; exact htaken, by rw [hsame]; exact hadded⟩
  refine holds_checkSpu h fun spu rest hqueue hspu => ?_
  have hrepair : spu.id = k → Lasts duration (repair spu timestamp) := fun hid =>
    (hspu hid).repair (hlook spu rest hqueue hid)
  refine ⟨fun hid => hrepair (by rw [← repair_id spu timestamp]; exact hid),
    fun data size hid => ?_⟩
  rw [fixFading_id] at hid
  have hlasts := hrepair (by rw [← repair_id spu timestamp]; exact hid)
  have htext : Lasts duration { repair spu timestamp with spuData := data, bufferSize := size } :=
    ⟨hlasts.pts, hlasts.pos, hlasts.delay⟩
  exact htext.fixFading timestamp

/-- **One step.** -/
theorem Keeps.exec (h : Keeps k duration s) {e : Event} (hright : LooksRightAt k s e) :
    Keeps k duration (exec s e) := by
  cases e with
  | addDecodedItem item =>
    refine ⟨⟨h.item.queued, h.item.fading⟩, fun it hit => ?_, Nat.lt_succ_of_lt h.added⟩
    rcases List.mem_append.mp hit with hold | hnew
    · exact h.taken it (List.mem_of_mem_drop hold)
    · rw [List.mem_singleton.mp hnew]
      exact (Nat.ne_of_lt h.added).symm
  | resetForSeek =>
    exact ⟨⟨h.item.queued, h.item.fading⟩, fun _ hit => absurd hit List.not_mem_nil, h.added⟩
  | deliver i clock =>
    have hsent : Keeps k duration { s with mLooper := s.mLooper.eraseIdx i } :=
      ⟨⟨h.item.queued, h.item.fading⟩, h.taken, h.added⟩
    obtain ⟨-, hexec⟩ | ⟨m, hm, ⟨-, hexec⟩ | ⟨hclock, hexec⟩⟩ := exec_deliver_cases s i clock
    · rw [hexec]
      exact h
    · rw [hexec]
      exact ⟨⟨h.item.queued, h.item.fading⟩, h.taken, h.added⟩
    · rw [hexec]
      cases hwhat : m.what with
      | ptsTimeCheckSpu =>
        refine keeps_checkSpu (Holds.takeSpu ⟨hsent.item.queued, hsent.item.fading⟩ ?_)
          (fun it hit => h.taken it (List.mem_of_mem_tail hit)) h.added ?_
        · intro item rest hqueue hid
          rw [adjustFarPts_id] at hid
          change s.mDecodedSpu = item :: rest at hqueue
          exact absurd hid (h.taken item (hqueue ▸ List.mem_cons_self))
        · rw [lookedAt_setLooper]
          exact hright _ ⟨i, clock, rfl, by rw [hm, Option.map_some, hwhat], hclock, rfl⟩
      | resetMessageQueue =>
        exact ⟨⟨fun _ hit => absurd hit List.not_mem_nil, fun _ hit => absurd hit List.not_mem_nil⟩,
          h.taken, h.added⟩

/-- The check that takes the item. -/
theorem keeps_of_taken (h : Numbered s) {e : Event} (hcheck : IsCheck s e timestamp) {item : Spu}
    {rest : List Spu} (hitem : s.mDecodedSpu = item :: rest) (hpts : 0 < item.pts)
    (hdelay : item.pts < item.mDelay) (hnear : adjustFarPts item timestamp = item)
    (hright : LooksRightAt item.id s e) :
    Keeps item.id (item.mDelay - item.pts) (exec s e) := by
  obtain ⟨i, clock, rfl, hwhat, hclock, rfl⟩ := id hcheck
  obtain ⟨hnone, -⟩ | ⟨m, hm, ⟨hwait, -⟩ | ⟨-, hexec⟩⟩ := exec_deliver_cases s i clock
  · rw [hnone] at hwhat
    exact absurd hwhat (by simp)
  · omega
  · rw [hm, Option.map_some, Option.some_inj] at hwhat
    rw [hexec, hwhat]
    -- no other item has the number of this one
    have hother : ∀ spu, Older s.mDecodedSpu s.added spu → spu.id ≠ item.id := fun spu hspu =>
      Nat.ne_of_lt (hspu.2 item (hitem ▸ List.mem_cons_self))
    have hsorted := h.sorted
    rw [hitem] at hsorted
    refine keeps_checkSpu (Holds.takeSpu ⟨fun spu hspu hid => ?_, fun spu hspu hid => ?_⟩ ?_) ?_
      (h.added item (hitem ▸ List.mem_cons_self)) ?_
    · exact absurd hid (hother spu (h.emitted.queued spu hspu))
    · exact absurd hid (hother spu (h.emitted.fading spu hspu))
    · intro first rest' hqueue _
      change s.mDecodedSpu = first :: rest' at hqueue
      rw [← (List.cons.inj (hitem.symm.trans hqueue)).1, hnear]
      exact ⟨hpts.le, by omega, by omega⟩
    · intro it hit
      change it ∈ s.mDecodedSpu.tail at hit
      rw [hitem] at hit
      exact (Nat.ne_of_lt ((List.pairwise_cons.mp hsorted).1 it hit)).symm
    · rw [lookedAt_setLooper]
      exact hright _ hcheck

end Run

/-- **The duration is kept.**  In every run, from the check on that takes an item, if the item
looks right whenever it is looked at, then it is shown for as long as the parser gave it, or
for five seconds where that is less than one. -/
theorem keepsDuration_run (clock : Clock) (before after : List Event) {e : Event} {timestamp : ℤ}
    {item : Spu} {rest : List Spu} (hcheck : IsCheck (before.foldl exec (start clock)) e timestamp)
    (hitem : (before.foldl exec (start clock)).mDecodedSpu = item :: rest)
    (hpts : 0 < item.pts) (hdelay : item.pts < item.mDelay)
    (hnear : adjustFarPts item timestamp = item)
    (hright : Meets exec (LooksRightAt item.id) (before.foldl exec (start clock)) (e :: after)) :
    ∀ t, Reached exec (exec (before.foldl exec (start clock)) e) after t →
      ∀ spu ∈ t.mEmittedFaddingSpu, spu.id = item.id →
        spu.mDelay - spu.pts = shownFor (item.mDelay - item.pts) := by
  intro t ht
  have hkeeps := keeps_of_taken (numbered_foldl clock before) hcheck hitem hpts hdelay hnear
    hright.1
  exact (invariant_of_meets (fun s e (hs : Keeps item.id _ s) hC => hs.exec hC) hkeeps hright.2
    ht).item.fading

/-- An item of two seconds, taken at 9 s and shown at 10 s. -/
theorem keepsDuration_run_two_seconds :
    ∃ spu ∈ ([.addDecodedItem (textItem 900000 false), .deliver 0 (seconds 9),
      .deliver 0 (seconds 10)].foldl exec (start (seconds 1))).mEmittedFaddingSpu,
        spu.id = 0 ∧ spu.mDelay - spu.pts = 180000 := by
  obtain ⟨spu, hspu, hid⟩ : ∃ spu ∈ ([.addDecodedItem (textItem 900000 false),
      .deliver 0 (seconds 9), .deliver 0 (seconds 10)].foldl exec
        (start (seconds 1))).mEmittedFaddingSpu, spu.id = 0 := by decide
  have hitem : ([.addDecodedItem (textItem 900000 false)].foldl exec
      (start (seconds 1))).mDecodedSpu = [textItem 900000 false] := rfl
  refine ⟨spu, hspu, hid, keepsDuration_run (seconds 1) [.addDecodedItem (textItem 900000 false)]
    [.deliver 0 (seconds 10)] ⟨0, seconds 9, rfl, rfl, by decide, rfl⟩ hitem (by decide)
    (by decide) (by decide) ⟨?_, ?_, trivial⟩ _ (reached_last _ _) spu hspu hid⟩
  · rintro timestamp ⟨k, clock, hevent, -, -, rfl⟩ spu rest hqueue -
    rw [← (Event.deliver.inj hevent).2] at hqueue ⊢
    have hall : ∀ it ∈ lookedAt (exec (start (seconds 1))
        (.addDecodedItem (textItem 900000 false))) (seconds 9).timestamp,
          LooksRight it (seconds 9).timestamp := by decide
    exact hall spu (hqueue ▸ List.mem_cons_self)
  · rintro timestamp ⟨k, clock, hevent, -, -, rfl⟩ spu rest hqueue -
    rw [← (Event.deliver.inj hevent).2] at hqueue ⊢
    have hall : ∀ it ∈ lookedAt (exec (exec (start (seconds 1))
        (.addDecodedItem (textItem 900000 false))) (.deliver 0 (seconds 9)))
          (seconds 10).timestamp, LooksRight it (seconds 10).timestamp := by decide
    exact hall spu (hqueue ▸ List.mem_cons_self)

/-- An item with a second on each side of `2^33`, queued when the clock falls back to a clock
of 32 bits, is shown for five seconds. -/
theorem not_keepsDuration_straddling : ¬ ∀ (clock : Clock) (before after : List Event) (e : Event)
    (timestamp : ℤ) (item : Spu) (rest : List Spu),
    IsCheck (before.foldl exec (start clock)) e timestamp →
      (before.foldl exec (start clock)).mDecodedSpu = item :: rest → 0 < item.pts →
        item.pts < item.mDelay → adjustFarPts item timestamp = item →
          ∀ t, Reached exec (exec (before.foldl exec (start clock)) e) after t →
            ∀ spu ∈ t.mEmittedFaddingSpu, spu.id = item.id →
              spu.mDelay - spu.pts = shownFor (item.mDelay - item.pts) := by
  intro h
  have hall := h (seconds 1) [.addDecodedItem (textItem (2 ^ 33 - 90000) false)]
    [.deliver 0 (seconds 47721)] (.deliver 0 (seconds 95441)) _ _ []
    ⟨0, seconds 95441, rfl, rfl, by decide, rfl⟩ rfl (by decide) (by decide) (by decide) _
    (reached_last _ _)
  exact absurd hall (by decide)

end Presentation
end AmlSubtitle
