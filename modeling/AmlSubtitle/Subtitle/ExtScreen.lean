import AmlSubtitle.Subtitle.ExtPresentation

/-!
# What an external subtitle has on the screen

The renderer is told something only when another object is due than the one
remembered, and three branches of `handleExtSub` let the screen and the memory go
apart: a reset clears the one and not the other, an item with too little time left is
remembered and not shown, and the end of an item clears both.

* `Inv` is what every run keeps: the objects of the cues are different ones, the
  remembered item is the one that was due at the last tick, and unless that had too
  little time left the screen shows it or, after a reset, nothing.
* `computeShowingSpuList_eq_filter_iff` says when the scan of the cues finds all that
  are to be on the screen.
* `showsDue_iff` and `describes_iff` say of one tick when the screen shows what is due
  and when the remembered item is what the screen shows.
* `followsDue_iff` is the statement about runs.
-/

namespace AmlSubtitle
namespace Presentation
namespace ExtSub

open Spu

/-! ## The item that is due -/

theorem computeShowingSpuList_subset (list : List Spu) (timestamp : ℤ) :
    computeShowingSpuList list timestamp ⊆ list := by
  induction list with
  | nil => exact List.nil_subset _
  | cons it list ih =>
    have hshowing : (if timestamp ≥ convertDvbTime2Ns it.pts ∧
        timestamp ≤ convertDvbTime2Ns it.mDelay then [it] else []) ⊆ it :: list := by
      split_ifs
      · exact List.cons_subset_cons it (List.nil_subset _)
      · exact List.nil_subset _
    rw [computeShowingSpuList]
    split
    · exact hshowing
    · exact List.append_subset.mpr ⟨hshowing, List.Subset.trans ih (List.subset_cons_self it list)⟩

/-! ## The cues that are found -/

/-- A cue is to be on the screen at a clock value. -/
def IsShowing (timestamp : ℤ) (it : Spu) : Prop :=
  convertDvbTime2Ns it.pts ≤ timestamp ∧ timestamp ≤ convertDvbTime2Ns it.mDelay

instance (timestamp : ℤ) : DecidablePred (IsShowing timestamp) :=
  fun _ => inferInstanceAs (Decidable (_ ∧ _))

/-- The cues behind the first one whose end is ahead, which the loop does not come to. -/
def notScanned (list : List Spu) (timestamp : ℤ) : List Spu :=
  (list.dropWhile fun it => decide (convertDvbTime2Ns it.mDelay ≤ timestamp)).tail

/-- One round of the loop. -/
theorem computeShowingSpuList_cons (it : Spu) (list : List Spu) (timestamp : ℤ) :
    computeShowingSpuList (it :: list) timestamp =
      [it].filter (IsShowing timestamp ·) ++
        if timestamp < convertDvbTime2Ns it.mDelay then []
        else computeShowingSpuList list timestamp := by
  have hshowing : (if timestamp ≥ convertDvbTime2Ns it.pts ∧
      timestamp ≤ convertDvbTime2Ns it.mDelay then [it] else []) =
        [it].filter (IsShowing timestamp ·) := by
    rw [List.filter_singleton]
    exact (Bool.cond_decide _ _ _).symm
  rw [computeShowingSpuList, hshowing]
  split_ifs
  · rw [List.append_nil]
  · rfl

/-- **The scan finds the cues that are to be on the screen** if and only if none of
them is behind the first cue whose end is ahead: the list is in the order of the
starts, and the ends are in any. -/
theorem computeShowingSpuList_eq_filter_iff (list : List Spu) (timestamp : ℤ) :
    computeShowingSpuList list timestamp = list.filter (IsShowing timestamp ·) ↔
      ∀ it ∈ notScanned list timestamp, ¬ IsShowing timestamp it := by
  induction list with
  | nil => exact iff_of_true rfl (by rintro _ ⟨⟩)
  | cons it list ih =>
    have hfilter : (it :: list).filter (IsShowing timestamp ·) =
        [it].filter (IsShowing timestamp ·) ++ list.filter (IsShowing timestamp ·) :=
      List.filter_append [it] list
    rw [computeShowingSpuList_cons, hfilter, List.append_cancel_left_eq, notScanned,
      List.dropWhile_cons]
    by_cases hend : convertDvbTime2Ns it.mDelay ≤ timestamp
    · rw [if_neg (not_lt.mpr hend), if_pos (decide_eq_true hend)]
      exact ih
    · rw [if_pos (not_le.mp hend), if_neg (by rwa [decide_eq_true_eq]), List.tail_cons, eq_comm,
        List.filter_eq_nil_iff]
      exact forall₂_congr fun a _ => not_congr decide_eq_true_iff

/-- A cue from one second to ten. -/
def cue : Spu where
  id := 0
  bufferSize := 3
  isSimpleText := true
  pts := 90000
  isImmediatePresent := false
  isExtSub := true
  isKeepShowing := false
  objectSegmentId := 0
  mDelay := 900000
  spuData := some [72, 105, 0]
  subtitleType := .external

/-- The first cue is still to be seen when the second one comes on: at two seconds the
scan stops at the first, although both are to be on the screen. -/
theorem not_filter_overlapping :
    [cue, { cue with id := 1, pts := 135000 }].Pairwise PtsLe ∧
      computeShowingSpuList [cue, { cue with id := 1, pts := 135000 }] 2000000000 ≠
        [cue, { cue with id := 1, pts := 135000 }].filter (IsShowing 2000000000 ·) := by
  decide

/-! ## The item that is shown -/

/-- The item made of a list is one of the list, or a new object. -/
theorem getShowingSpuFromList_cases {list : List Spu} {object : ℕ} {spu : Spu}
    (h : getShowingSpuFromList list object = some spu) : spu ∈ list ∨ spu.id = object := by
  cases list with
  | nil => cases h
  | cons front rest =>
    rw [getShowingSpuFromList] at h
    split_ifs at h with htext hrest
    · exact Or.inl (List.mem_of_getLast? h)
    · exact Or.inr (Option.some.inj h ▸ rfl)
    · exact Or.inl (Option.some.inj h ▸ List.mem_cons_self)

theorem showingSpu_cases {s : State} {timestampNs : ℤ} {spu : Spu}
    (h : showingSpu s timestampNs = some spu) :
    spu ∈ s.mEmittedShowingSpu ∨ spu.id = s.objects :=
  (getShowingSpuFromList_cases h).imp_left
    fun hmem => computeShowingSpuList_subset _ _ hmem

/-! ## Several cues at once -/

/-- Of the cues found due, all but the last end at the very clock value. -/
theorem end_of_computeShowingSpuList {list : List Spu} {timestamp : ℤ} {a b : Spu}
    {rest : List Spu} (h : computeShowingSpuList list timestamp = a :: b :: rest) :
    convertDvbTime2Ns a.mDelay = timestamp := by
  induction list with
  | nil => cases h
  | cons it list ih =>
    rw [computeShowingSpuList] at h
    split at h
    · split_ifs at h
      simp at h
    · rename_i hend
      split_ifs at h with hdue
      · rw [List.singleton_append, List.cons.injEq] at h
        rw [← h.1]
        exact le_antisymm (not_lt.mp hend) hdue.2
      · exact ih h

theorem remainMs_of_end {spu : Spu} {timestampNs : ℤ}
    (h : convertDvbTime2Ns spu.mDelay = timestampNs) : remainMs spu timestampNs = 0 := by
  rw [remainMs, ← h, ns2ms_convertDvbTime2Ns, sub_self]

/-- **The text made of several cues is never shown**: it has the end of the first of
them, and that is now. -/
theorem not_isSent_of_several {s : State} {timestampNs : ℤ} {a b spu : Spu} {rest : List Spu}
    (h : computeShowingSpuList s.mEmittedShowingSpu timestampNs = a :: b :: rest)
    (htext : a.isSimpleText = true) (hspu : showingSpu s timestampNs = some spu) :
    ¬ IsSent s spu timestampNs := by
  have hcue : newCue a (a :: b :: rest) s.objects = spu := by
    rw [showingSpu, h, getShowingSpuFromList, htext] at hspu
    exact Option.some.inj hspu
  have hremain : remainMs spu timestampNs = 0 := by
    rw [← hcue]
    show remainMs a timestampNs = 0
    exact remainMs_of_end (end_of_computeShowingSpuList h)
  rintro ⟨-, hlong⟩
  rw [hremain] at hlong
  exact absurd hlong (by decide)

/-! ## Collecting -/

theorem foldl_sortPts_perm (decoded list : List Spu) :
    (decoded.foldl (fun spuList spu => sortPts (spuList ++ [fixDelay spu])) list).Perm
      (list ++ decoded.map fixDelay) := by
  induction decoded generalizing list with
  | nil => rw [List.map_nil, List.append_nil]; rfl
  | cons spu decoded ih =>
    refine (ih _).trans ?_
    rw [List.map_cons, List.append_cons]
    exact (sortPts_perm _).append_right _

theorem foldl_sortPts_sorted (decoded : List Spu) {list : List Spu} (h : list.Pairwise PtsLe) :
    (decoded.foldl (fun spuList spu => sortPts (spuList ++ [fixDelay spu])) list).Pairwise
      PtsLe := by
  induction decoded generalizing list with
  | nil => exact h
  | cons spu decoded ih => exact ih (sortPts_sorted _)

/-- The objects on the list after collecting are those there were. -/
theorem collect_ids (s : State) :
    ((collect s).mEmittedShowingSpu.map Spu.id).Perm
      ((s.mEmittedShowingSpu ++ s.mDecodedSpu).map Spu.id) := by
  have hperm := (foldl_sortPts_perm s.mDecodedSpu s.mEmittedShowingSpu).map Spu.id
  rw [List.map_append, List.map_map] at hperm
  rw [List.map_append]
  exact hperm

theorem mem_collect {s : State} {c : Spu} (h : c ∈ (collect s).mEmittedShowingSpu) :
    c ∈ s.mEmittedShowingSpu ∨ ∃ d ∈ s.mDecodedSpu, fixDelay d = c := by
  have hmem := (foldl_sortPts_perm s.mDecodedSpu s.mEmittedShowingSpu).mem_iff.mp h
  exact (List.mem_append.mp hmem).imp_right List.mem_map.mp

/-! ## The invariant -/

/-- What holds between the cues, the remembered item, the screen and the history. -/
structure Inv (s : State) : Prop where
  sorted : s.mEmittedShowingSpu.Pairwise PtsLe
  nodup : ((s.mEmittedShowingSpu ++ s.mDecodedSpu).map Spu.id).Nodup
  id_lt : ∀ c ∈ s.mEmittedShowingSpu ++ s.mDecodedSpu, c.id < s.objects
  last_due : s.mLastShowingSpu = s.due.map Due.item
  last_lt : ∀ l, s.mLastShowingSpu = some l → l.id < s.objects
  last_cue : ∀ l, s.mLastShowingSpu = some l → ∀ c ∈ s.mEmittedShowingSpu, c.id = l.id → c = l
  last_decoded : ∀ l, s.mLastShowingSpu = some l → ∀ d ∈ s.mDecodedSpu, d.id ≠ l.id
  screen_none : s.due = none → s.screen = none
  screen_due : ∀ d, s.due = some d → d.short = false →
    s.screen = none ∨ s.screen.map content = some (content d.item)

theorem inv_start : Inv start where
  sorted := List.Pairwise.nil
  nodup := List.nodup_nil
  id_lt _ hc := absurd hc List.not_mem_nil
  last_due := rfl
  last_lt := by rintro _ ⟨⟩
  last_cue := by rintro _ ⟨⟩
  last_decoded := by rintro _ ⟨⟩
  screen_none _ := rfl
  screen_due := by rintro _ ⟨⟩

/-- A cue that is read is a new object. -/
theorem Inv.parse {s : State} (h : Inv s) (item : Spu) : Inv (ExtSub.parse s item) := by
  unfold ExtSub.parse
  split
  · refine { h with nodup := ?_, id_lt := ?_, last_lt := ?_, last_decoded := ?_ }
    · show ((s.mEmittedShowingSpu ++ (s.mDecodedSpu ++ [{ item with id := s.objects }])).map
        Spu.id).Nodup
      rw [← List.append_assoc, List.map_append]
      refine h.nodup.append (List.nodup_singleton _) ?_
      rw [List.map_singleton, List.disjoint_singleton]
      intro hmem
      obtain ⟨c, hc, hid⟩ := List.mem_map.mp hmem
      exact absurd hid (h.id_lt c hc).ne
    · intro c hc
      show c.id < s.objects + 1
      rw [← List.append_assoc] at hc
      rcases List.mem_append.mp hc with hc | hc
      · exact Nat.lt_succ_of_lt (h.id_lt c hc)
      · rw [List.mem_singleton.mp hc]
        exact Nat.lt_succ_self _
    · exact fun l hl => Nat.lt_succ_of_lt (h.last_lt l hl)
    · intro l hl d hd
      rcases List.mem_append.mp hd with hd | hd
      · exact h.last_decoded l hl d hd
      · rw [List.mem_singleton.mp hd]
        exact (h.last_lt l hl).ne'
  · exact h

theorem Inv.collect {s : State} (h : Inv s) : Inv (ExtSub.collect s) where
  sorted := foldl_sortPts_sorted _ h.sorted
  nodup := by
    rw [show (ExtSub.collect s).mDecodedSpu = [] from rfl, List.append_nil]
    exact (collect_ids s).nodup_iff.mpr h.nodup
  id_lt c hc := by
    rw [show (ExtSub.collect s).mDecodedSpu = [] from rfl, List.append_nil] at hc
    show c.id < s.objects
    rcases mem_collect hc with hc | ⟨d, hd, rfl⟩
    · exact h.id_lt c (List.mem_append_left _ hc)
    · exact h.id_lt d (List.mem_append_right _ hd)
  last_due := h.last_due
  last_lt := h.last_lt
  last_cue l hl c hc hid := by
    rcases mem_collect hc with hc | ⟨d, hd, rfl⟩
    · exact h.last_cue l hl c hc hid
    · exact absurd hid (h.last_decoded l hl d hd)
  last_decoded _ _ _ hd := nomatch hd
  screen_none := h.screen_none
  screen_due := h.screen_due

theorem Inv.reset {s : State} (h : Inv s) : Inv { s with screen := none } :=
  { h with screen_none := fun _ => rfl, screen_due := fun _ _ _ => Or.inl rfl }

/-! ## One tick -/

section Tick

variable {s : State} {timestampNs : ℤ} {spu : Spu}

theorem update_of_some (hspu : showingSpu s timestampNs = some spu) :
    update s timestampNs =
      { s with
        screen := if IsSent s spu timestampNs then some spu else s.screen
        mLastShowingSpu := some spu
        due := some (nextDue s spu timestampNs)
        objects := s.objects + 1 } := by
  rw [update, hspu]

/-- With nothing due, the screen is cleared unless it is clear. -/
theorem update_of_none (h : Inv s) (hnone : showingSpu s timestampNs = none) :
    update s timestampNs = { s with screen := none, mLastShowingSpu := none, due := none } := by
  rw [update, hnone]
  dsimp only
  split_ifs with hlast
  · rfl
  · have hlast := not_not.mp hlast
    have hdue : s.due = none := Option.map_eq_none_iff.mp (h.last_due.symm.trans hlast)
    rw [hlast, h.screen_none hdue]

theorem nextDue_short_of_wasDue (hwas : WasDue s spu) :
    (nextDue s spu timestampNs).short = s.due.any Due.short :=
  if_pos hwas

theorem nextDue_short_of_not_wasDue (hwas : ¬ WasDue s spu) :
    (nextDue s spu timestampNs).short =
      decide (remainMs spu timestampNs < MINIMUM_REMAIN_DISPLAY_TIME_MS) :=
  if_neg hwas

/-- What was due at the last tick is what is remembered. -/
theorem wasDue_of_last (h : Inv s) (hlast : s.mLastShowingSpu = some spu) : WasDue s spu := by
  have hmap := congrArg (Option.map content) (h.last_due.symm.trans hlast)
  rwa [Option.map_map] at hmap

/-- **An item that was not due before is another object than the one remembered.** -/
theorem last_id_ne_of_not_wasDue (h : Inv s) (hspu : showingSpu s timestampNs = some spu)
    (hwas : ¬ WasDue s spu) : s.mLastShowingSpu.map Spu.id ≠ some spu.id := by
  intro hid
  obtain ⟨l, hl, hid⟩ := Option.map_eq_some_iff.mp hid
  rcases showingSpu_cases hspu with hmem | hnew
  · rw [← h.last_cue l hl spu hmem hid.symm] at hl
    exact hwas (wasDue_of_last h hl)
  · exact absurd (hid.trans hnew) (h.last_lt l hl).ne

/-- An item newly due is shown when it has the minimum time left. -/
theorem isSent_iff_of_not_wasDue (h : Inv s) (hspu : showingSpu s timestampNs = some spu)
    (hwas : ¬ WasDue s spu) :
    IsSent s spu timestampNs ↔ MINIMUM_REMAIN_DISPLAY_TIME_MS ≤ remainMs spu timestampNs :=
  and_iff_right (last_id_ne_of_not_wasDue h hspu hwas)

/-- An item that was due before and long enough: it is on the screen, or nothing is. -/
theorem screen_of_wasDue (h : Inv s) (hwas : WasDue s spu)
    (hlong : s.due.any Due.short = false) :
    s.screen = none ∨ s.screen.map content = some (content spu) := by
  obtain ⟨d, hd, hcontent⟩ := Option.map_eq_some_iff.mp hwas
  rw [hd] at hlong
  rw [← hcontent]
  exact h.screen_due d hd hlong

/-- Conversely, what the screen shows is what was due at the last tick. -/
theorem wasDue_of_screen (h : Inv s) (hlong : s.due.any Due.short = false)
    (hscreen : s.screen.map content = some (content spu)) : WasDue s spu := by
  cases hdue : s.due with
  | none =>
    rw [h.screen_none hdue] at hscreen
    cases hscreen
  | some d =>
    rw [hdue] at hlong
    rcases h.screen_due d hdue hlong with hgone | hshown
    · rw [hgone] at hscreen
      cases hscreen
    · rw [WasDue, hdue]
      exact hshown.symm.trans hscreen

theorem screen_of_isSent (hspu : showingSpu s timestampNs = some spu)
    (hsent : IsSent s spu timestampNs) :
    (update s timestampNs).screen.map content = some (content spu) := by
  rw [update_of_some hspu]
  dsimp only
  rw [if_pos hsent]
  rfl

theorem screen_of_not_isSent (hspu : showingSpu s timestampNs = some spu)
    (hsent : ¬ IsSent s spu timestampNs) : (update s timestampNs).screen = s.screen := by
  rw [update_of_some hspu]
  exact if_neg hsent

/-- An item that is on the screen stays there while it is due. -/
theorem screen_of_screen (hspu : showingSpu s timestampNs = some spu)
    (hscreen : s.screen.map content = some (content spu)) :
    (update s timestampNs).screen.map content = some (content spu) := by
  by_cases hsent : IsSent s spu timestampNs
  · exact screen_of_isSent hspu hsent
  · rw [screen_of_not_isSent hspu hsent]
    exact hscreen

/-- A tick keeps the invariant. -/
theorem Inv.update (h : Inv s) (hdecoded : s.mDecodedSpu = []) :
    Inv (ExtSub.update s timestampNs) := by
  cases hspu : showingSpu s timestampNs with
  | none =>
    rw [update_of_none h hspu]
    refine { h with last_due := rfl, last_lt := ?_, last_cue := ?_, last_decoded := ?_,
                    screen_none := fun _ => rfl, screen_due := ?_ } <;> rintro _ ⟨⟩
  | some spu =>
    have hsome := update_of_some hspu
    have hscreen : (nextDue s spu timestampNs).short = false →
        (ExtSub.update s timestampNs).screen = none ∨
          (ExtSub.update s timestampNs).screen.map content = some (content spu) := by
      intro hshort
      by_cases hsent : IsSent s spu timestampNs
      · exact Or.inr (screen_of_isSent hspu hsent)
      rw [screen_of_not_isSent hspu hsent]
      by_cases hwas : WasDue s spu
      · exact screen_of_wasDue h hwas ((nextDue_short_of_wasDue hwas).symm.trans hshort)
      · rw [nextDue_short_of_not_wasDue hwas, decide_eq_false_iff_not, not_lt] at hshort
        exact absurd ((isSent_iff_of_not_wasDue h hspu hwas).mpr hshort) hsent
    rw [hsome] at hscreen ⊢
    refine { h with id_lt := ?_, last_due := rfl, last_lt := ?_, last_cue := ?_,
                    last_decoded := ?_, screen_none := ?_, screen_due := ?_ }
    · exact fun c hc => Nat.lt_succ_of_lt (h.id_lt c hc)
    · rintro l ⟨⟩
      rcases showingSpu_cases hspu with hmem | hnew
      · exact Nat.lt_succ_of_lt (h.id_lt spu (List.mem_append_left _ hmem))
      · exact hnew ▸ Nat.lt_succ_self _
    · rintro l ⟨⟩ c hc hid
      rcases showingSpu_cases hspu with hmem | hnew
      · have hnodup := h.nodup
        rw [hdecoded, List.append_nil] at hnodup
        exact List.inj_on_of_nodup_map hnodup hc hmem hid
      · exact absurd (hid.trans hnew) (h.id_lt c (List.mem_append_left _ hc)).ne
    · intro l _ d hd
      rw [show s.mDecodedSpu = [] from hdecoded] at hd
      cases hd
    · rintro ⟨⟩
    · rintro d ⟨⟩ hshort
      exact hscreen hshort

/-- **One tick, the screen.**  It shows what is due if and only if an item that was due
before and is gone from the screen is given to the renderer again. -/
theorem showsDue_iff (h : Inv s) : ShowsDue s timestampNs ↔ Reshown s timestampNs := by
  cases hspu : showingSpu s timestampNs with
  | none =>
    refine iff_of_true ?_ (fun spu hsome => ?_)
    · rw [ShowsDue, hspu, update_of_none h hspu]
    · rw [hspu] at hsome
      cases hsome
  | some spu =>
    have hshows : ShowsDue s timestampNs ↔
        (ExtSub.update s timestampNs).screen.map content = some (content spu) ∨
          (nextDue s spu timestampNs).short = true := by
      rw [ShowsDue, hspu]
    have hreshown : Reshown s timestampNs ↔ (WasDue s spu → s.due.any Due.short = false →
        s.screen = none → IsSent s spu timestampNs) := by
      rw [Reshown, hspu]
      exact ⟨fun hall => hall spu rfl, fun hone spu' heq => Option.some.inj heq ▸ hone⟩
    rw [hshows, hreshown]
    by_cases hwas : WasDue s spu
    · rw [nextDue_short_of_wasDue hwas]
      constructor
      · rintro (hscreen | hshort) - hlong hgone
        · by_contra hsent
          rw [screen_of_not_isSent hspu hsent, hgone] at hscreen
          cases hscreen
        · rw [hlong] at hshort
          cases hshort
      · intro hsent
        cases hlong : s.due.any Due.short with
        | true => exact Or.inr rfl
        | false =>
          refine Or.inl ?_
          rcases screen_of_wasDue h hwas hlong with hgone | hscreen
          · exact screen_of_isSent hspu (hsent hwas hlong hgone)
          · exact screen_of_screen hspu hscreen
    · refine iff_of_true ?_ (fun hwas' => absurd hwas' hwas)
      rw [nextDue_short_of_not_wasDue hwas, decide_eq_true_iff]
      refine (le_or_gt MINIMUM_REMAIN_DISPLAY_TIME_MS (remainMs spu timestampNs)).imp_left ?_
      exact fun hlong =>
        screen_of_isSent hspu ((isSent_iff_of_not_wasDue h hspu hwas).mpr hlong)

/-- **One tick, the memory.**  Where every item so far was long enough, the screen
shows what is due and is what is remembered if and only if, besides, an item newly due
has the minimum time left. -/
theorem describes_iff (h : Inv s) (hlong : s.due.any Due.short = false) :
    (ShowsDue s timestampNs ∧ Describes s timestampNs) ↔
      (Reshown s timestampNs ∧ LongEnough s timestampNs) := by
  rw [showsDue_iff h]
  refine and_congr_right fun hreshown => ?_
  cases hspu : showingSpu s timestampNs with
  | none =>
    refine iff_of_true ?_ (fun spu hsome => ?_)
    · rw [Describes, update_of_none h hspu]
    · rw [hspu] at hsome
      cases hsome
  | some spu =>
    have hdescribes : Describes s timestampNs ↔
        (ExtSub.update s timestampNs).screen.map content = some (content spu) := by
      rw [Describes, show (ExtSub.update s timestampNs).mLastShowingSpu = some spu by
        rw [update_of_some hspu]]
      exact eq_comm
    have hlongEnough : LongEnough s timestampNs ↔ (¬ WasDue s spu →
        MINIMUM_REMAIN_DISPLAY_TIME_MS ≤ remainMs spu timestampNs) := by
      rw [LongEnough, hspu]
      exact ⟨fun hall => hall spu rfl, fun hone spu' heq => Option.some.inj heq ▸ hone⟩
    rw [hdescribes, hlongEnough]
    by_cases hwas : WasDue s spu
    · refine iff_of_true ?_ (fun hwas' => absurd hwas hwas')
      rcases screen_of_wasDue h hwas hlong with hgone | hscreen
      · exact screen_of_isSent hspu (hreshown spu hspu hwas hlong hgone)
      · exact screen_of_screen hspu hscreen
    · rw [← isSent_iff_of_not_wasDue h hspu hwas]
      refine ⟨fun hscreen _ => ?_, fun hsent => screen_of_isSent hspu (hsent hwas)⟩
      by_contra hsent
      rw [screen_of_not_isSent hspu hsent] at hscreen
      exact hwas (wasDue_of_screen h hlong hscreen)

end Tick

/-! ## Runs -/

theorem Inv.step {s : State} (h : Inv s) (e : Event) : Inv (ExtSub.step s e) := by
  cases e with
  | parse item => exact h.parse item
  | deliver what clock =>
    rw [ExtSub.step]
    split
    · exact h
    · cases what with
      | ptsTimeCheckSpu => exact h.collect.update rfl
      | resetMessageQueue => exact h.reset

theorem atTick_congr {C D : State → ℤ → Prop} {s : State} (e : Event)
    (h : ∀ timestampNs, C (collect s) timestampNs ↔ D (collect s) timestampNs) :
    AtTick C s e ↔ AtTick D s e := by
  cases e with
  | parse item => exact Iff.rfl
  | deliver what clock =>
    cases what with
    | ptsTimeCheckSpu => exact imp_congr_right fun _ => h _
    | resetMessageQueue => exact Iff.rfl

/-- Where the items that become due are long enough, none that is due was not. -/
theorem long_update {s : State} {timestampNs : ℤ} (hlong : s.due.any Due.short = false)
    (henough : LongEnough s timestampNs) : (update s timestampNs).due.any Due.short = false := by
  cases hspu : showingSpu s timestampNs with
  | none =>
    rw [update, hspu]
    dsimp only
    split_ifs <;> rfl
  | some spu =>
    rw [update_of_some hspu]
    show (nextDue s spu timestampNs).short = false
    by_cases hwas : WasDue s spu
    · rw [nextDue_short_of_wasDue hwas]
      exact hlong
    · rw [nextDue_short_of_not_wasDue hwas, decide_eq_false_iff_not, not_lt]
      exact henough spu hspu hwas

theorem long_step {s : State} {e : Event} (hlong : s.due.any Due.short = false)
    (henough : AtTick (fun s t => Reshown s t ∧ LongEnough s t) s e) :
    (step s e).due.any Due.short = false := by
  cases e with
  | parse item =>
    rw [step, ExtSub.parse]
    split <;> exact hlong
  | deliver what clock =>
    rw [step]
    split
    · exact hlong
    · rename_i hstarted
      cases what with
      | ptsTimeCheckSpu => exact long_update hlong (henough (not_le.mp hstarted)).2
      | resetMessageQueue => exact hlong

/-- **The screen of an external subtitle.**  In a run each tick leaves what is due on
the screen, an item first due with too little time left excepted, if and only if no
tick finds an item still due that a reset has taken off the screen; and it leaves the
remembered item on the screen as well if and only if, besides, every item that becomes
due has the minimum time left. -/
theorem followsDue_iff (es : List Event) :
    (Run.Meets step (AtTick ShowsDue) start es ↔ Run.Meets step (AtTick Reshown) start es) ∧
      (Run.Meets step (AtTick fun s t => ShowsDue s t ∧ Describes s t) start es ↔
        Run.Meets step (AtTick fun s t => Reshown s t ∧ LongEnough s t) start es) := by
  constructor
  · exact Run.meets_congr (I := Inv) (fun _ e h _ => h.step e)
      (fun _ e h => atTick_congr e fun _ => showsDue_iff h.collect) inv_start es
  · exact Run.meets_congr (I := fun s => Inv s ∧ s.due.any Due.short = false)
      (fun _ e h henough => ⟨h.1.step e, long_step h.2 henough⟩)
      (fun _ e h => atTick_congr e fun _ => describes_iff h.1.collect h.2) ⟨inv_start, rfl⟩ es

/-- The cue is shown at two seconds; after a seek it is still due at three, and
nothing is on the screen. -/
theorem not_followsDue_reset :
    ¬ Run.Meets step (AtTick ShowsDue) start
        [.parse cue, .deliver .ptsTimeCheckSpu ⟨0, 2000000000⟩,
          .deliver .resetMessageQueue ⟨0, 2000000000⟩,
          .deliver .ptsTimeCheckSpu ⟨0, 3000000000⟩] ∧
      ¬ Run.Meets step (AtTick fun s t => ShowsDue s t ∧ Describes s t) start
        [.parse cue, .deliver .ptsTimeCheckSpu ⟨0, 2000000000⟩,
          .deliver .resetMessageQueue ⟨0, 2000000000⟩,
          .deliver .ptsTimeCheckSpu ⟨0, 3000000000⟩] := by
  decide

end ExtSub
end Presentation
end AmlSubtitle
