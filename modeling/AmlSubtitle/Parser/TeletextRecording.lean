import AmlSubtitle.Parser.TeletextContext

/-!
# The array of subtitle pages over whole runs

Pages are recorded by two blocks of `handler`, one for each kind of teletext, and by the
line that sets the first cell when it is zero; a change of the programme clears the array.
Nothing else touches it.

* `WellRecorded`: the array holds the pages recorded since the last reset, in increasing
  order, and zeros behind them.
* `isSubtitlePage_iff_mem_recorded`: in every state of a run `isSubtitlePage` tells the
  recorded pages from the others, but takes `0` for one as long as none is recorded.
-/

namespace AmlSubtitle
namespace Teletext

/-- The array and what it stands for. -/
def TeletextContext.store (ctx : TeletextContext) : List ℤ × List ℤ :=
  (ctx.subtitlePages, ctx.recorded)

/-- **The array holds the recorded pages.** -/
def WellRecorded (ctx : TeletextContext) : Prop :=
  ∃ l, HoldsSorted ctx.store.1 l ∧ l.Perm ctx.store.2

theorem WellRecorded.congr {a b : TeletextContext} (h : WellRecorded a)
    (hstore : b.store = a.store) : WellRecorded b := by
  rw [WellRecorded, hstore]
  exact h

theorem wellRecorded_nil {ctx : TeletextContext}
    (h : ctx.store = (List.replicate TELETEXT_SUBTITLE_MAX_NUMBER 0, [])) : WellRecorded ctx := by
  rw [WellRecorded, h]
  exact ⟨[], holdsSorted_nil, List.Perm.refl _⟩

/-! ## What leaves the array alone -/

variable (ctx : TeletextContext) (answer : Answer)

@[simp] theorem store_draw (drawn : Display → Display) : (ctx.draw drawn).store = ctx.store := rfl

@[simp] theorem store_setHas (b : Broadcast) : (ctx.setHas b).store = ctx.store := by
  cases b <;> rfl

@[simp] theorem store_setGotoFlag (b : Broadcast) (flag : Bool) :
    (ctx.setGotoFlag b flag).store = ctx.store := by
  cases b <;> rfl

@[simp] theorem store_gotoPageLocked (pageNum subPageNum : ℤ) :
    (gotoPageLocked pageNum subPageNum answer ctx).store = ctx.store := by
  unfold gotoPageLocked
  split
  · rfl
  · split
    · rfl
    · dsimp only
      split <;> rfl

@[simp] theorem store_leaveSubtitle (b : Broadcast) (e : Effect) :
    (leaveSubtitle b answer e).ctx.store = e.ctx.store := by
  unfold leaveSubtitle
  split
  · dsimp only
    split <;> rfl
  · rfl

@[simp] theorem store_nextPageLocked : (nextPageLocked answer ctx).ctx.store = ctx.store := by
  unfold nextPageLocked
  dsimp only
  rw [store_draw, store_leaveSubtitle, store_leaveSubtitle]

@[simp] theorem store_gotoDefaultSubtitleLocked (b : Broadcast) (i : ℤ) :
    (gotoDefaultSubtitleLocked b i answer ctx).ctx.store = ctx.store := by
  unfold gotoDefaultSubtitleLocked
  dsimp only
  split
  · exact store_gotoPageLocked _ _ _ _
  · exact store_setGotoFlag _ _ _

@[simp] theorem store_cycle (b : Broadcast) : (cycle b answer ctx).1.ctx.store = ctx.store := by
  unfold cycle
  dsimp only
  split
  · split
    · rfl
    · exact store_gotoDefaultSubtitleLocked _ _ _ _
  · exact store_gotoDefaultSubtitleLocked _ _ _ _

@[simp] theorem store_cycleIf (b : Broadcast) (param : TeletextParam) :
    (cycleIf b param answer ctx).1.ctx.store = ctx.store := by
  unfold cycleIf
  split
  · exact store_cycle _ _ _
  · rfl

@[simp] theorem store_goToSubtitle (param : TeletextParam) :
    (goToSubtitle param answer ctx).ctx.store = ctx.store := by
  unfold goToSubtitle
  dsimp only
  split
  · exact store_cycleIf _ _ _ _
  · split
    · exact (store_cycleIf _ _ _ _).trans (store_cycleIf _ _ _ _)
    · refine (store_gotoPageLocked _ _ _ _).trans ?_
      exact (store_cycleIf _ _ _ _).trans (store_cycleIf _ _ _ _)

@[simp] theorem store_command (param : TeletextParam) :
    (command param answer ctx).ctx.store = ctx.store := by
  unfold command
  split
  · exact store_nextPageLocked _ _
  · exact store_nextPageLocked _ _
  · rfl
  · exact store_gotoPageLocked _ _ _ _
  · exact store_goToSubtitle _ _ _
  · rfl

/-- **Commands leave the array alone.** -/
theorem store_handleControl : (handleControl answer ctx).ctx.store = ctx.store := by
  unfold handleControl
  split
  · exact store_command _ _ _
  · rfl

/-! ## Resets -/

/-- **Setting parameters leaves the array alone or clears it.** -/
theorem store_updateParameter (param : TeletextParam) :
    (updateParameter param ctx).store = ctx.store ∨
      (updateParameter param ctx).store = (List.replicate TELETEXT_SUBTITLE_MAX_NUMBER 0, []) := by
  unfold updateParameter
  split
  · exact Or.inl rfl
  · split
    · dsimp only
      split
      · refine Or.inl ?_
        unfold keepProgram
        dsimp only
        split
        · split
          · split <;> rfl
          · rfl
        · rfl
      · exact Or.inr rfl
    · exact Or.inl rfl

/-! ## Recording -/

/-- The page numbers of the decoder are at least `100`. -/
theorem TtxPage.le_vbiBcd2dec (ev : TtxPage) : 100 ≤ vbiBcd2dec ev.pgno := by
  have hge := ev.pgno_ge
  have hlt := ev.pgno_lt
  have hmagazine : 1 ≤ ev.pgno / 256 % 16 := by omega
  have htens := Int.emod_nonneg (ev.pgno / 16) (by decide : (16 : ℤ) ≠ 0)
  have hones := Int.emod_nonneg ev.pgno (by decide : (16 : ℤ) ≠ 0)
  have hthousands := Int.emod_nonneg (ev.pgno / 4096) (by decide : (16 : ℤ) ≠ 0)
  unfold vbiBcd2dec
  linarith

variable {ctx}

theorem wellRecorded_savePage (h : WellRecorded ctx) (b : Broadcast) {pgno : ℤ} (hpos : 0 < pgno)
    (pageType : Option ℕ) : WellRecorded (savePage b pgno pageType ctx).ctx := by
  obtain ⟨l, hl, hperm⟩ := id h
  unfold savePage
  dsimp only
  by_cases hrecords : records ctx b pgno pageType = true
  · have hhas : ctx.has b = true := by
      rw [records, decide_eq_true_iff] at hrecords
      exact hrecords.1
    rw [if_pos hrecords, if_pos hhas, WellRecorded, store_setGotoFlag]
    obtain ⟨l', hl', hperm', -⟩ := saveSubtitlePage_holds hl hpos (ctx.gotoFlag b)
    exact ⟨l', hl', hperm'.trans (hperm.append_right _)⟩
  · rw [if_neg hrecords]
    refine h.congr ((store_setGotoFlag _ _ _).trans ?_)
    split
    · exact Prod.ext (selectSortSubtitlePage_zero hl.toHolds) (List.append_nil _)
    · exact Prod.ext rfl (List.append_nil _)

theorem wellRecorded_saveFirstPage (h : WellRecorded ctx) {pgno : ℤ} (hpos : 0 < pgno) :
    WellRecorded (saveFirstPage pgno ctx) := by
  unfold saveFirstPage
  split
  · rename_i hzero
    obtain ⟨l, hl, hperm⟩ := h
    have hempty : l = [] :=
      List.eq_nil_of_length_eq_zero (Nat.le_zero.mp (hl.toHolds.getD_eq_zero_iff.mp hzero.1))
    subst hempty
    have hset := hl.toHolds.set_length hpos (by decide)
    exact ⟨[pgno], ⟨hset, List.pairwise_singleton _ _⟩, hperm.append_right [pgno]⟩
  · exact h

theorem wellRecorded_showFetched (h : WellRecorded ctx) (ev : TtxPage) :
    WellRecorded (showFetched ev ctx) := by
  unfold showFetched
  split
  · exact h
  · split
    · exact h
    · have hpos : 0 < vbiBcd2dec ev.pgno := lt_of_lt_of_le (by decide) ev.le_vbiBcd2dec
      refine WellRecorded.congr (wellRecorded_saveFirstPage ?_ hpos) (store_draw _ _)
      exact h.congr rfl

theorem wellRecorded_showPage (h : WellRecorded ctx) (ev : TtxPage) :
    WellRecorded (showPage ev ctx) := by
  unfold showPage
  dsimp only
  split
  · split
    · exact h
    · split
      · exact h
      · refine wellRecorded_showFetched ?_ ev
        exact h.congr rfl
  · exact wellRecorded_showFetched h ev

/-- **A page of the decoder is recorded at most once, in its place.** -/
theorem wellRecorded_handler (h : WellRecorded ctx) (ev : TtxPage) :
    WellRecorded (handler ev ctx).ctx := by
  have hpos : 0 < vbiBcd2dec ev.pgno := lt_of_lt_of_le (by decide) ev.le_vbiBcd2dec
  unfold handler
  split
  · exact h
  · split
    · exact wellRecorded_showPage
        (wellRecorded_savePage (wellRecorded_savePage h .atv hpos _) .dtv hpos _) ev
    · exact wellRecorded_showPage h ev

/-! ## Runs -/

theorem wellRecorded_step (ctx : TeletextContext) (e : Event) (h : WellRecorded ctx) :
    WellRecorded (step ctx e) := by
  unfold step effect
  cases e with
  | frame source opened drawn =>
    refine h.congr ?_
    cases source with
    | none => rfl
    | some b => exact store_setHas ctx b
  | page ev =>
    dsimp only
    split
    · exact wellRecorded_handler h ev
    · exact h
  | time drawn =>
    refine h.congr ?_
    dsimp only
    split <;> rfl
  | updateParameter param =>
    rcases store_updateParameter ctx param with hstore | hstore
    · exact h.congr hstore
    · exact wellRecorded_nil hstore
  | handleControl answer => exact h.congr (store_handleControl ctx answer)

theorem wellRecorded_run (status : ZvbiGlobalStatus) (lastShowingPage : ℤ) (events : List Event) :
    WellRecorded (events.foldl step (initContext status lastShowingPage)) :=
  Run.invariant wellRecorded_step (wellRecorded_nil rfl) events

/-- **In every state of a run the array is in order, and a look-up of a page finds exactly
the pages recorded since the last reset**; only `0` is found too while there are none. -/
theorem isSubtitlePage_iff_mem_recorded (status : ZvbiGlobalStatus) (lastShowingPage : ℤ)
    (events : List Event) (p : ℤ) :
    (∃ l, HoldsSorted (events.foldl step (initContext status lastShowingPage)).subtitlePages l ∧
      l.Perm (events.foldl step (initContext status lastShowingPage)).recorded) ∧
    ((isSubtitlePage (events.foldl step (initContext status lastShowingPage)).subtitlePages p =
        true ↔ p ∈ (events.foldl step (initContext status lastShowingPage)).recorded) ↔
      p ≠ 0 ∨ (events.foldl step (initContext status lastShowingPage)).recorded ≠ []) := by
  obtain ⟨l, hl, hperm⟩ := wellRecorded_run status lastShowingPage events
  refine ⟨⟨l, hl, hperm⟩, ?_⟩
  generalize events.foldl step (initContext status lastShowingPage) = ctx at hl hperm ⊢
  change HoldsSorted ctx.subtitlePages l at hl
  change l.Perm ctx.recorded at hperm
  rw [isSubtitlePage_iff hl, ← hperm.mem_iff]
  have hempty : ctx.recorded = [] ↔ l = [] := by
    constructor
    · intro hnil
      rw [hnil] at hperm
      exact hperm.eq_nil
    · intro hnil
      rw [hnil] at hperm
      exact hperm.symm.eq_nil
  rw [Ne, Ne, hempty, ← not_and_or]
  constructor
  · rintro hiff ⟨hzero, hnil⟩
    have hmem := hiff.mp (Or.inr ⟨hzero, hnil⟩)
    rw [hnil] at hmem
    cases hmem
  · intro hno
    exact or_iff_left hno

/-- A command of the remote control that comes first. -/
def firstCommand : TeletextParam := ⟨0, 0, 0, -1, -1, 0, 0, 0, -1, .nextPage, 1, 1⟩

/-- **Behind a reset the page to go to is `0`, and it counts as a subtitle page**, although
no page has been recorded. -/
theorem isSubtitlePage_after_reset :
    ¬ ∀ p : ℤ, isSubtitlePage ([Event.updateParameter firstCommand].foldl step
        (initContext ⟨-1, -1, -1, -1, -1, -1, false⟩ 0)).subtitlePages p = true ↔
      p ∈ ([Event.updateParameter firstCommand].foldl step
        (initContext ⟨-1, -1, -1, -1, -1, -1, false⟩ 0)).recorded := fun h => by
  have hzero := (h 0).mp (by decide)
  revert hzero
  decide

end Teletext
end AmlSubtitle
