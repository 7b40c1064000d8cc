import AmlSubtitle.Subtitle.PresentationStall

/-!
# When a shown item fades

The item shown last is at the head of `mEmittedFaddingSpu`, and every check of
`handleStreamSub` compares its end with the clock, in unsigned numbers of 64 bits.

* `isFaded_iff`: the comparison says that the end is reached, or that it lies farther ahead
  than the tolerance for jumps of the clock.
* `checkSpu_eq_fade`: a check that does not return early ends with that comparison, of the
  item that is at the head by then.  It has been there before, or it has just been shown in
  place of the one that was (`beforeFade_fading`).
* `fadesRightly_iff`: so an item fades when it should, unless the check throws away all that
  is queued.  Then it returns before the comparison.
-/

namespace AmlSubtitle
namespace Presentation

open Words Spu Run

/-! ## The comparison -/

/-- The end of an item, in nanoseconds. -/
def endNs (spu : Spu) : ℤ := convertDvbTime2Ns spu.mDelay

/-- The end of an item can be converted: the product is an `int64_t`. -/
def Fits (spu : Spu) : Prop := -2 ^ 63 ≤ ms2ns spu.mDelay ∧ ms2ns spu.mDelay < 2 ^ 63

instance (spu : Spu) : Decidable (Fits spu) := inferInstanceAs (Decidable (_ ∧ _))

/-- `ahead_delay_tor`. -/
def aheadDelayTor (spu : Spu) : ℤ := (if spu.isExtSub then 5 else 100) * 1000 * 1000 * 1000

theorem Fits.endNs_bounds {spu : Spu} (h : Fits spu) :
    -2 ^ 63 ≤ 90 * endNs spu ∧ 90 * endNs spu < 2 ^ 63 := by
  have hdiv : ms2ns spu.mDelay = 90 * endNs spu + (ms2ns spu.mDelay).tmod 90 :=
    (Int.mul_tdiv_add_tmod (ms2ns spu.mDelay) 90).symm
  obtain ⟨hlow, hhigh⟩ := h
  rcases le_total 0 (ms2ns spu.mDelay) with hsign | hsign
  · have hnonneg := Int.tdiv_nonneg hsign (show (0 : ℤ) ≤ 90 by decide)
    have htmod := Int.tmod_nonneg 90 hsign
    change 0 ≤ endNs spu at hnonneg
    omega
  · have hnonneg := Int.tdiv_nonneg (show 0 ≤ -ms2ns spu.mDelay by omega)
      (show (0 : ℤ) ≤ 90 by decide)
    have htmod := Int.tmod_nonneg 90 (show 0 ≤ -ms2ns spu.mDelay by omega)
    rw [Int.neg_tdiv] at hnonneg
    rw [Int.neg_tmod] at htmod
    change 0 ≤ -endNs spu at hnonneg
    omega

/-- **The comparison of unsigned numbers.**  What has ended wraps around, where the first test
does not see it, and so lies far ahead for the second. -/
theorem isFaded_iff {spu : Spu} {timestamp : ℤ} (hfits : Fits spu) (hpos : 0 < timestamp)
    (hlt : timestamp < 2 ^ 63) :
    isFaded spu timestamp ↔
      endNs spu ≤ timestamp ∨ timestamp + aheadDelayTor spu < endNs spu := by
  obtain ⟨hlow, hhigh⟩ := hfits.endNs_bounds
  have htor : (((if spu.isExtSub then 5 else 100) * 1000 * 1000 * 1000 : ℕ) : ℤ) =
      aheadDelayTor spu := by
    unfold aheadDelayTor
    split <;> rfl
  have htorle : 0 ≤ aheadDelayTor spu ∧ aheadDelayTor spu ≤ 100000000000 := by
    unfold aheadDelayTor
    split <;> omega
  have hnow : (asUnsigned 64 timestamp : ℤ) = timestamp :=
    asUnsigned_of_nonneg hpos.le (by omega)
  unfold isFaded
  dsimp only
  rw [show convertDvbTime2Ns spu.mDelay = endNs spu from rfl]
  rcases lt_or_ge (endNs spu) 0 with hneg | hnonneg
  · -- an end before zero is a number of more than 63 bits
    have hend : (asUnsigned 64 (endNs spu) : ℤ) = 2 ^ 64 + endNs spu :=
      asUnsigned_of_neg (by omega) hneg
    have hahead : (asUnsigned 64 (asUnsigned 64 (endNs spu) - timestamp) : ℤ) =
        2 ^ 64 + endNs spu - timestamp := by
      rw [hend]
      exact asUnsigned_of_nonneg (by omega) (by omega)
    exact iff_of_true (Or.inr ⟨by omega, by omega⟩) (Or.inl (by omega))
  · have hend : (asUnsigned 64 (endNs spu) : ℤ) = endNs spu :=
      asUnsigned_of_nonneg hnonneg (by omega)
    have hfive : (asUnsigned 64 (asUnsigned 64 (endNs spu) * 5) : ℤ) = endNs spu * 5 := by
      rw [hend]
      exact asUnsigned_of_nonneg (by omega) (by omega)
    rcases lt_or_ge timestamp (endNs spu) with hahead | hover
    · have hdiff : (asUnsigned 64 (asUnsigned 64 (endNs spu) - timestamp) : ℤ) =
          endNs spu - timestamp := by
        rw [hend]
        exact asUnsigned_of_nonneg (by omega) (by omega)
      constructor
      · rintro (⟨hle, -⟩ | ⟨-, hfar⟩)
        · omega
        · exact Or.inr (by omega)
      · rintro (hle | hfar)
        · omega
        · exact Or.inr ⟨by omega, by omega⟩
    · refine iff_of_true ?_ (Or.inl hover)
      rcases lt_or_ge timestamp (endNs spu * 5) with hnear | hlong
      · exact Or.inl ⟨by omega, by omega⟩
      · -- the difference wraps around
        have hdiff : (asUnsigned 64 (asUnsigned 64 (endNs spu) - timestamp) : ℤ) =
            2 ^ 64 + (endNs spu - timestamp) := by
          rw [hend]
          exact asUnsigned_of_neg (by omega) (by omega)
        exact Or.inr ⟨by omega, by omega⟩

/-! ## The fading part of a check -/

/-- All that is queued is thrown away, and the handler returns. -/
def Skips (s : State) (timestamp : ℤ) : Prop :=
  (takeSpu (s.removeMessages .ptsTimeCheckSpu) timestamp).mEmittedShowingSpu ≠ [] ∧
    (thinned s timestamp).mEmittedShowingSpu = []

instance (s : State) (timestamp : ℤ) : Decidable (Skips s timestamp) :=
  inferInstanceAs (Decidable (_ ∧ _))

/-- The state in which the handler comes to the fading part, or returns before it. -/
def beforeFade (s : State) (timestamp : ℤ) : State :=
  if (takeSpu (s.removeMessages .ptsTimeCheckSpu) timestamp).mEmittedShowingSpu = [] then
    takeSpu (s.removeMessages .ptsTimeCheckSpu) timestamp
  else if (thinned s timestamp).mEmittedShowingSpu = [] then
    thinned s timestamp
  else
    match lookedAt s timestamp with
    | [] => thinned s timestamp
    | spu :: _ => showFront (thinned s timestamp) spu (isFarAhead timestamp spu) timestamp

section Part

variable {s : State} {timestamp : ℤ}

theorem checkSpu_eq_fade (s : State) (timestamp : ℤ) :
    checkSpu s timestamp = if Skips s timestamp then beforeFade s timestamp
      else fade (beforeFade s timestamp) timestamp := by
  unfold beforeFade
  obtain ⟨hempty, hcheck⟩ | ⟨hne, hempty, hcheck⟩ | ⟨spu, rest, hqueue, hleft, hcheck⟩ :=
    checkSpu_cases s timestamp
  · rw [if_neg fun h => h.1 hempty, if_pos hempty]
    exact hcheck
  · change (thinned s timestamp).mEmittedShowingSpu = [] at hempty
    rw [if_pos ⟨hne, hempty⟩, if_neg hne, if_pos hempty]
    exact hcheck
  · have hlook : lookedAt s timestamp = spu :: rest := by
      rw [← hqueue, throwOutOfDate_showing]
      rfl
    change (thinned s timestamp).mEmittedShowingSpu ≠ [] at hleft
    have hne : (takeSpu (s.removeMessages .ptsTimeCheckSpu) timestamp).mEmittedShowingSpu ≠ [] := by
      intro hempty
      rw [lookedAt, hempty, List.dropWhile_nil] at hlook
      exact absurd hlook (by simp)
    rw [if_neg fun h => hleft h.2, if_neg hne, if_neg hleft, hlook]
    exact hcheck

/-- What is skipped is what was there. -/
theorem beforeFade_of_skips (h : Skips s timestamp) :
    (beforeFade s timestamp).mEmittedFaddingSpu = s.mEmittedFaddingSpu := by
  rw [beforeFade, if_neg h.1, if_pos h.2, thinned_fading]

/-- The item at the head is still there, or another was shown in its place. -/
theorem beforeFade_fading (s : State) (timestamp : ℤ) :
    (beforeFade s timestamp).mEmittedFaddingSpu = s.mEmittedFaddingSpu ∨
      ∃ shown, (beforeFade s timestamp).mEmittedFaddingSpu =
          s.mEmittedFaddingSpu.tail ++ [shown] ∧
        ∀ spu ∈ s.mEmittedFaddingSpu.head?,
          (beforeFade s timestamp).log.getLast? = some (.removed spu) := by
  have hpush : ∀ s' : State, s'.mEmittedFaddingSpu = s.mEmittedFaddingSpu → ∀ shown,
      (pushFading s' shown).mEmittedFaddingSpu = s.mEmittedFaddingSpu.tail ++ [shown] ∧
        ∀ spu ∈ s.mEmittedFaddingSpu.head?,
          (pushFading s' shown).log.getLast? = some (.removed spu) := by
    intro s' hfading shown
    unfold pushFading
    cases hlist : s'.mEmittedFaddingSpu with
    | nil => simp [← hfading, hlist]
    | cons cachedSpu rest => simp [← hfading, hlist]
  unfold beforeFade
  split_ifs with hempty hleft
  · exact Or.inl (takeSpu_fading _ _)
  · exact Or.inl (thinned_fading _ _)
  · split
    · exact Or.inl (thinned_fading _ _)
    · rename_i spu rest _
      obtain ⟨-, hshow⟩ | ⟨-, hwait⟩ :=
        showFront_cases (thinned s timestamp) spu (isFarAhead timestamp spu) timestamp
      · rw [hshow, showSpu_eq]
        exact Or.inr ⟨_, hpush _ (by simp) _⟩
      · rw [hwait]
        exact Or.inl (thinned_fading _ _)

/-- The fading part, of an item that is not one to keep showing. -/
theorem fade_of_head {spu : Spu} {rest : List Spu} (h : s.mEmittedFaddingSpu = spu :: rest)
    (hkeep : spu.isKeepShowing = false) :
    ((fade s timestamp).mEmittedFaddingSpu, (fade s timestamp).log) =
      if isFaded spu timestamp then (rest, s.log ++ [.faded spu]) else (spu :: rest, s.log) := by
  unfold fade
  rw [h]
  dsimp only
  rw [if_neg (by rw [hkeep]; exact Bool.false_ne_true)]
  by_cases hfaded : isFaded spu timestamp
  · rw [if_pos hfaded, if_pos hfaded]
    rfl
  · rw [if_neg hfaded, if_neg hfaded]
    exact Prod.ext h rfl

end Part

/-! ## Every check -/

/-- The item at the head, which is not one to keep showing, fades when its end is reached, and
stays when its end is ahead, but no farther than the tolerance. -/
structure FadesRightly (s : State) (timestamp : ℤ) : Prop where
  removed : ∀ spu rest, (beforeFade s timestamp).mEmittedFaddingSpu = spu :: rest →
    spu.isKeepShowing = false → Fits spu → endNs spu ≤ timestamp →
      (checkSpu s timestamp).mEmittedFaddingSpu = rest ∧
        (checkSpu s timestamp).log = (beforeFade s timestamp).log ++ [.faded spu]
  kept : ∀ spu rest, (beforeFade s timestamp).mEmittedFaddingSpu = spu :: rest →
    spu.isKeepShowing = false → Fits spu → timestamp < endNs spu →
      endNs spu ≤ timestamp + aheadDelayTor spu →
        (checkSpu s timestamp).mEmittedFaddingSpu = spu :: rest ∧
          (checkSpu s timestamp).log = (beforeFade s timestamp).log

/-- **When items fade as they should**: in every check, but for one that throws away all that
is queued when the end of the item at the head is reached.  The item that is at the head when
its end is looked at has been there before, or has been shown in place of the one that was. -/
theorem fadesRightly_iff (s : State) {timestamp : ℤ} (hpos : 0 < timestamp)
    (hlt : timestamp < 2 ^ 63) :
    (FadesRightly s timestamp ↔
      (Skips s timestamp → ∀ spu rest, s.mEmittedFaddingSpu = spu :: rest →
        spu.isKeepShowing = false → Fits spu → timestamp < endNs spu)) ∧
    ((beforeFade s timestamp).mEmittedFaddingSpu = s.mEmittedFaddingSpu ∨
      ∃ shown, (beforeFade s timestamp).mEmittedFaddingSpu =
          s.mEmittedFaddingSpu.tail ++ [shown] ∧
        ∀ spu ∈ s.mEmittedFaddingSpu.head?,
          (beforeFade s timestamp).log.getLast? = some (.removed spu)) := by
  refine ⟨⟨fun h hskip spu rest hlist hkeep hfits => ?_, fun h => ?_⟩,
    beforeFade_fading s timestamp⟩
  · by_contra hover
    have hhead := (beforeFade_of_skips hskip).trans hlist
    have hlog := (h.removed spu rest hhead hkeep hfits (not_lt.mp hover)).2
    rw [checkSpu_eq_fade, if_pos hskip] at hlog
    exact absurd hlog (by simp)
  · by_cases hskip : Skips s timestamp
    · have hcheck : checkSpu s timestamp = beforeFade s timestamp := by
        rw [checkSpu_eq_fade, if_pos hskip]
      refine ⟨fun spu rest hhead hkeep hfits hover => ?_, fun spu rest hhead _ _ _ _ => ?_⟩
      · have hahead := h hskip spu rest ((beforeFade_of_skips hskip).symm.trans hhead) hkeep hfits
        exact absurd hover (not_le.mpr hahead)
      · rw [hcheck]
        exact ⟨hhead, rfl⟩
    · have hcheck : checkSpu s timestamp = fade (beforeFade s timestamp) timestamp := by
        rw [checkSpu_eq_fade, if_neg hskip]
      have hfade : ∀ spu rest, (beforeFade s timestamp).mEmittedFaddingSpu = spu :: rest →
          spu.isKeepShowing = false → Fits spu →
            ((checkSpu s timestamp).mEmittedFaddingSpu, (checkSpu s timestamp).log) =
              if endNs spu ≤ timestamp ∨ timestamp + aheadDelayTor spu < endNs spu then
                (rest, (beforeFade s timestamp).log ++ [.faded spu])
              else (spu :: rest, (beforeFade s timestamp).log) := by
        intro spu rest hhead hkeep hfits
        rw [hcheck, fade_of_head hhead hkeep]
        exact if_congr (isFaded_iff hfits hpos hlt) rfl rfl
      refine ⟨fun spu rest hhead hkeep hfits hover => ?_,
        fun spu rest hhead hkeep hfits hahead hnear => ?_⟩
      · exact Prod.mk.inj ((hfade spu rest hhead hkeep hfits).trans (if_pos (Or.inl hover)))
      · refine Prod.mk.inj ((hfade spu rest hhead hkeep hfits).trans (if_neg ?_))
        rintro (hover | hfar)
        · omega
        · omega

/-- A check that throws nothing away, with nothing fading. -/
theorem fadesRightly_iff_start : FadesRightly (start (seconds 1)) 1000000000 := by
  refine (fadesRightly_iff (start (seconds 1)) (by decide) (by decide)).1.mpr fun hskip => ?_
  exact absurd hskip (by decide)

/-- An item waits for 48330 s when the clock, at 48200 s, is set back.  Another is shown at
47721 s and ends at 47730 s.  With the clock there, the first one is ten minutes ahead, and
thrown away now that the clock has more than 32 bits: the second does not fade. -/
theorem not_fadesRightly_purged : ∃ es : List Event,
    ¬ FadesRightly (es.foldl exec (start (seconds 48200))) (seconds 47730).timestamp := by
  refine ⟨[.addDecodedItem (textItem 4349700000 false), .deliver 0 (seconds 48200),
    .addDecodedItem { textItem 4294800000 false with mDelay := 4295700000 },
    .deliver 0 (seconds 47721)], fun h => ?_⟩
  have hlog := (h.removed _ [] (by rfl) (by decide) (by decide) (by decide)).2
  exact absurd hlog (by decide)

end Presentation
end AmlSubtitle
