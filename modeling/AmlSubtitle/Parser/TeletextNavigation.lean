import AmlSubtitle.Parser.TeletextRecording

/-!
# Going from one subtitle page to the next

`subtitlePageId` is the place in the array of the page that comes next.  It is `-1` in a
new context, a reset sets it to `0`, and the command for the next subtitle page moves it
on, back to `0` behind the last page.  The commands read the cell of the index and the one
behind it without a look at the bounds.

* `Good`: a step reads cells of the array only, and the pages it selects are recorded.
* `Safe`: the index has been reset before a command uses it, it is not at the end of a full
  array, and there is a page to go to.
* `navigates_iff`: the runs of `Good` steps are those of `Safe` steps.
-/

namespace AmlSubtitle
namespace Teletext

/-- Reads inside the array, and pages that have been recorded. -/
structure Effect.Good (e : Effect) : Prop where
  reads : ∀ i ∈ e.reads, InBounds i
  selected : ∀ p ∈ e.selected, p ∈ e.ctx.recorded

/-- **What a step reads is inside the array, and what it selects has been recorded.** -/
def Good (ctx : TeletextContext) (e : Event) : Prop := (effect ctx e).Good

/-- The command for the next page reads a cell only when it leaves the subtitles. -/
def SafeNextPage (ctx : TeletextContext) : Prop :=
  (ctx.atvTeletext = true ∨ ctx.dtvTeletext = true) → ctx.subtitleMode = .subtitle →
    ctx.subtitlePageId ≠ -1

/-- The index has been reset, a page has been recorded when it is at `0`, and when it is at
the last cell the array is not full. -/
def SafeCycling (param : TeletextParam) (ctx : TeletextContext) : Prop :=
  isCycling param ctx = true → ctx.subtitlePageId ≠ -1 ∧
    (ctx.subtitlePageId = 0 → ctx.recorded ≠ []) ∧
    (ctx.subtitlePageId = TELETEXT_SUBTITLE_MAX_NUMBER - 1 →
      ctx.recorded.length < TELETEXT_SUBTITLE_MAX_NUMBER)

/-- When a command navigates inside the array. -/
structure SafeCommand (param : TeletextParam) (ctx : TeletextContext) : Prop where
  nextPage : param.event = .nextPage → SafeNextPage ctx
  previousPage : param.event = .previousPage → SafeNextPage ctx
  goToSubtitle : param.event = .goToSubtitle → SafeCycling param ctx

/-- The steps that navigate inside the array. -/
def Safe (ctx : TeletextContext) : Event → Prop
  | .handleControl _ =>
    ctx.vbi = true → ∀ param ∈ ctx.mControlCmds.head?, SafeCommand param ctx
  | _ => True

/-! ## Cells and pages -/

/-- The array is in order and the index is in it, or `-1`. -/
structure Sound (ctx : TeletextContext) : Prop where
  wellRecorded : WellRecorded ctx
  id_ge : -1 ≤ ctx.subtitlePageId
  id_lt : ctx.subtitlePageId < TELETEXT_SUBTITLE_MAX_NUMBER

variable {ctx : TeletextContext} {answer : Answer} {b : Broadcast} {param : TeletextParam}

theorem Sound.inBounds_iff (h : Sound ctx) :
    InBounds ctx.subtitlePageId ↔ ctx.subtitlePageId ≠ -1 := by
  have hge := h.id_ge
  have hlt := h.id_lt
  unfold InBounds
  omega

/-- A cell inside the bounds is zero exactly behind the recorded pages. -/
theorem pageAt_eq_zero_iff (h : WellRecorded ctx) {outside : ℤ → ℤ} {i : ℤ} (hi : InBounds i) :
    pageAt ctx.subtitlePages outside i = 0 ↔ (ctx.recorded.length : ℤ) ≤ i := by
  obtain ⟨l, hl, hperm⟩ := h
  rw [pageAt, if_pos hi]
  refine hl.toHolds.getD_eq_zero_iff.trans ?_
  rw [hperm.length_eq]
  change ctx.recorded.length ≤ i.toNat ↔ _
  have hnonneg := hi.1
  omega

/-- A cell inside the bounds that is not zero is a recorded page. -/
theorem pageAt_mem (h : WellRecorded ctx) {outside : ℤ → ℤ} {i : ℤ} (hi : InBounds i)
    (hne : pageAt ctx.subtitlePages outside i ≠ 0) :
    pageAt ctx.subtitlePages outside i ∈ ctx.recorded := by
  obtain ⟨l, hl, hperm⟩ := h
  rw [pageAt, if_pos hi] at hne ⊢
  exact hperm.mem_iff.mp (hl.toHolds.mem_of_ne_zero (mem_of_getD_ne_zero hne) hne)

/-! ## The index -/

theorem subtitlePageId_setGotoFlag (ctx : TeletextContext) (b : Broadcast) (flag : Bool) :
    (ctx.setGotoFlag b flag).subtitlePageId = ctx.subtitlePageId := by
  cases b <;> rfl

theorem subtitlePageId_gotoPageLocked (pageNum subPageNum : ℤ) (answer : Answer)
    (ctx : TeletextContext) :
    (gotoPageLocked pageNum subPageNum answer ctx).subtitlePageId = ctx.subtitlePageId := by
  unfold gotoPageLocked
  split
  · rfl
  · split
    · rfl
    · dsimp only
      split <;> rfl

theorem subtitlePageId_gotoDefaultSubtitleLocked (b : Broadcast) (i : ℤ) (answer : Answer)
    (ctx : TeletextContext) :
    (gotoDefaultSubtitleLocked b i answer ctx).ctx.subtitlePageId = ctx.subtitlePageId := by
  unfold gotoDefaultSubtitleLocked
  dsimp only
  split
  · exact subtitlePageId_gotoPageLocked _ _ _ _
  · exact subtitlePageId_setGotoFlag _ _ _

theorem subtitlePageId_leaveSubtitle (b : Broadcast) (answer : Answer) (e : Effect) :
    (leaveSubtitle b answer e).ctx.subtitlePageId = e.ctx.subtitlePageId := by
  unfold leaveSubtitle
  split
  · dsimp only
    split <;> rfl
  · rfl

theorem subtitlePageId_nextPageLocked (answer : Answer) (ctx : TeletextContext) :
    (nextPageLocked answer ctx).ctx.subtitlePageId = ctx.subtitlePageId :=
  (subtitlePageId_leaveSubtitle _ _ _).trans (subtitlePageId_leaveSubtitle _ _ _)

/-! ## The next page -/

theorem leaveSubtitle_of_not {e : Effect}
    (h : ¬ (e.ctx.has b = true ∧ e.ctx.subtitleMode = .subtitle)) :
    leaveSubtitle b answer e = e := if_neg h

theorem reads_leaveSubtitle (b : Broadcast) (answer : Answer) (e : Effect) :
    (leaveSubtitle b answer e).reads = e.reads ++
      if e.ctx.has b = true ∧ e.ctx.subtitleMode = .subtitle then [e.ctx.subtitlePageId]
      else [] := by
  unfold leaveSubtitle
  split
  · rfl
  · exact (List.append_nil _).symm

theorem selected_leaveSubtitle (b : Broadcast) (answer : Answer) (e : Effect) :
    (leaveSubtitle b answer e).selected = e.selected := by
  unfold leaveSubtitle
  split <;> rfl

/-- **Going to the next page reads the cell of the index**, once or twice, when it leaves
the subtitles of teletext that has arrived. -/
theorem mem_reads_nextPageLocked (answer : Answer) (ctx : TeletextContext) (i : ℤ) :
    i ∈ (nextPageLocked answer ctx).reads ↔
      i = ctx.subtitlePageId ∧ (ctx.atvTeletext = true ∨ ctx.dtvTeletext = true) ∧
        ctx.subtitleMode = .subtitle := by
  unfold nextPageLocked
  dsimp only
  rw [reads_leaveSubtitle, subtitlePageId_leaveSubtitle]
  by_cases hatv : ctx.has .atv = true ∧ ctx.subtitleMode = .subtitle
  · have harrived : ctx.atvTeletext = true := hatv.1
    rw [reads_leaveSubtitle, if_pos hatv]
    dsimp only
    split <;> simp [harrived, hatv.2]
  · rw [leaveSubtitle_of_not hatv]
    dsimp only
    have hdtv : ctx.has .dtv = true ∧ ctx.subtitleMode = .subtitle ↔
        (ctx.atvTeletext = true ∨ ctx.dtvTeletext = true) ∧ ctx.subtitleMode = .subtitle := by
      refine and_congr_left fun hmode => (or_iff_right fun harrived => hatv ⟨harrived, hmode⟩).symm
    rw [← hdtv]
    split
    · rename_i hdtv
      simp [hdtv]
    · rename_i hdtv
      simp [hdtv]

theorem good_nextPageLocked_iff (h : Sound ctx) :
    (nextPageLocked answer ctx).Good ↔ SafeNextPage ctx := by
  constructor
  · intro hgood harrived hmode
    exact h.inBounds_iff.mp (hgood.reads _
      ((mem_reads_nextPageLocked answer ctx _).mpr ⟨rfl, harrived, hmode⟩))
  · intro hid
    refine ⟨fun i hi => ?_, fun p hp => ?_⟩
    · obtain ⟨rfl, harrived, hmode⟩ := (mem_reads_nextPageLocked answer ctx i).mp hi
      exact h.inBounds_iff.mpr (hid harrived hmode)
    · unfold nextPageLocked at hp
      dsimp only at hp
      rw [selected_leaveSubtitle, selected_leaveSubtitle] at hp
      cases hp

/-! ## The next subtitle page -/

theorem reads_gotoDefaultSubtitleLocked (b : Broadcast) (i : ℤ) (answer : Answer)
    (ctx : TeletextContext) : (gotoDefaultSubtitleLocked b i answer ctx).reads = [i] := by
  unfold gotoDefaultSubtitleLocked
  dsimp only
  split <;> rfl

theorem recorded_gotoDefaultSubtitleLocked (b : Broadcast) (i : ℤ) (answer : Answer)
    (ctx : TeletextContext) :
    (gotoDefaultSubtitleLocked b i answer ctx).ctx.recorded = ctx.recorded :=
  congrArg Prod.snd (store_gotoDefaultSubtitleLocked ctx answer b i)

/-- The page of a cell inside the bounds is recorded, or the context waits for one. -/
theorem selected_gotoDefaultSubtitleLocked (h : WellRecorded ctx) {i : ℤ} (hi : InBounds i) :
    ∀ p ∈ (gotoDefaultSubtitleLocked b i answer ctx).selected,
      p ∈ (gotoDefaultSubtitleLocked b i answer ctx).ctx.recorded := by
  intro p hp
  rw [recorded_gotoDefaultSubtitleLocked]
  unfold gotoDefaultSubtitleLocked at hp
  dsimp only at hp
  split at hp
  · rename_i hpage
    rw [List.mem_singleton.mp hp]
    exact pageAt_mem h hi fun hzero => absurd (hzero ▸ hpage) (by decide)
  · cases hp

/-- No page is recorded and the index is at `0`: the block gives up. -/
theorem cycle_of_empty (h : WellRecorded ctx) (hid : ctx.subtitlePageId = 0)
    (hempty : ctx.recorded = []) (b : Broadcast) (answer : Answer) :
    cycle b answer ctx = (⟨{ ctx with subtitleMode := .graphics }, [0], []⟩, false) := by
  have hzero : pageAt ctx.subtitlePages answer.outside ctx.subtitlePageId = 0 := by
    rw [hid, pageAt_eq_zero_iff h (by decide), hempty]
    exact le_rfl
  unfold cycle
  dsimp only
  rw [if_pos hzero, if_pos hid, hid]

/-- The block of the next subtitle page, from an index inside the array that some recorded
page is at or behind. -/
theorem cycle_snd (h : WellRecorded ctx) (hin : InBounds ctx.subtitlePageId)
    (hsome : ctx.subtitlePageId = 0 → ctx.recorded ≠ []) (b : Broadcast) (answer : Answer) :
    (cycle b answer ctx).2 = true := by
  unfold cycle
  dsimp only
  split
  · rename_i hzero
    rw [pageAt_eq_zero_iff h hin] at hzero
    split
    · rename_i hid
      refine absurd (List.eq_nil_of_length_eq_zero ?_) (hsome hid)
      rw [hid] at hzero
      omega
    · rfl
  · rfl

theorem good_cycle (h : WellRecorded ctx) (hin : InBounds ctx.subtitlePageId)
    (hlast : ctx.subtitlePageId = TELETEXT_SUBTITLE_MAX_NUMBER - 1 →
      ctx.recorded.length < TELETEXT_SUBTITLE_MAX_NUMBER) (b : Broadcast) (answer : Answer) :
    (cycle b answer ctx).1.Good := by
  unfold cycle
  dsimp only
  split
  · split
    · refine ⟨fun i hi => ?_, nofun⟩
      rw [List.mem_singleton.mp hi]
      exact hin
    · refine ⟨fun i hi => ?_, ?_⟩
      · dsimp only at hi
        rw [reads_gotoDefaultSubtitleLocked] at hi
        rcases List.mem_cons.mp hi with rfl | hi
        · exact hin
        · rw [List.mem_singleton.mp hi]
          decide
      · refine selected_gotoDefaultSubtitleLocked ?_ (by decide)
        exact h.congr rfl
  · rename_i hpage
    rw [pageAt_eq_zero_iff h hin] at hpage
    have hnext : InBounds (ctx.subtitlePageId + 1) := by
      obtain ⟨hnonneg, hlt⟩ := hin
      refine ⟨by omega, ?_⟩
      by_contra hge
      have hfull := hlast (by omega)
      omega
    refine ⟨fun i hi => ?_, ?_⟩
    · dsimp only at hi
      rw [reads_gotoDefaultSubtitleLocked] at hi
      rcases List.mem_cons.mp hi with rfl | hi
      · exact hin
      · rcases List.mem_cons.mp hi with rfl | hi
        · exact hnext
        · rw [List.mem_singleton.mp hi]
          exact hin
    · refine selected_gotoDefaultSubtitleLocked ?_ hin
      exact h.congr rfl

/-- The block leaves the index inside the array. -/
theorem inBounds_cycle (h : WellRecorded ctx) (hin : InBounds ctx.subtitlePageId)
    (hlast : ctx.subtitlePageId = TELETEXT_SUBTITLE_MAX_NUMBER - 1 →
      ctx.recorded.length < TELETEXT_SUBTITLE_MAX_NUMBER) (b : Broadcast) (answer : Answer) :
    InBounds (cycle b answer ctx).1.ctx.subtitlePageId := by
  unfold cycle
  dsimp only
  split
  · split
    · exact hin
    · dsimp only
      rw [subtitlePageId_gotoDefaultSubtitleLocked]
      change InBounds 0
      decide
  · rename_i hpage
    rw [pageAt_eq_zero_iff h hin] at hpage
    dsimp only
    rw [subtitlePageId_gotoDefaultSubtitleLocked]
    dsimp only
    obtain ⟨hnonneg, hlt⟩ := hin
    split
    · refine ⟨by omega, ?_⟩
      by_contra hge
      have hfull := hlast (by omega)
      omega
    · exact ⟨le_rfl, by decide⟩

theorem mem_reads_cycle (b : Broadcast) (answer : Answer) (ctx : TeletextContext) :
    ctx.subtitlePageId ∈ (cycle b answer ctx).1.reads := by
  unfold cycle
  dsimp only
  split
  · split <;> exact List.mem_cons_self
  · exact List.mem_cons_self

/-- Behind a page the cell that follows is read too. -/
theorem succ_mem_reads_cycle
    (hpage : pageAt ctx.subtitlePages answer.outside ctx.subtitlePageId ≠ 0) (b : Broadcast) :
    ctx.subtitlePageId + 1 ∈ (cycle b answer ctx).1.reads := by
  unfold cycle
  dsimp only
  rw [if_neg hpage]
  exact List.mem_cons_of_mem _ List.mem_cons_self

theorem cycleIf_of_has (h : ctx.has b = true) (hcycling : isCycling param ctx = true) :
    cycleIf b param answer ctx = cycle b answer ctx := by
  rw [isCycling, decide_eq_true_iff] at hcycling
  exact if_pos ⟨h, hcycling.2⟩

theorem cycleIf_of_not_has (h : ctx.has b ≠ true) :
    cycleIf b param answer ctx = (⟨ctx, [], []⟩, false) := if_neg fun hcycles => h hcycles.1

theorem cycleIf_of_not_cycling (h : isCycling param ctx ≠ true) :
    cycleIf b param answer ctx = (⟨ctx, [], []⟩, false) := by
  refine if_neg fun hcycles => h ?_
  rw [isCycling, decide_eq_true_iff]
  refine ⟨?_, hcycles.2⟩
  cases b
  · exact Or.inl hcycles.1
  · exact Or.inr hcycles.1

/-- **One block decides where the command goes**: that of the analogue teletext when it
has arrived, else that of the digital one. -/
theorem goToSubtitle_of_cycling (hcycling : isCycling param ctx = true) (answer : Answer) :
    ∃ b, (∀ i ∈ (cycle b answer ctx).1.reads, i ∈ (goToSubtitle param answer ctx).reads) ∧
      ((cycle b answer ctx).2 = true →
        goToSubtitle param answer ctx = (cycle b answer ctx).1) := by
  by_cases hatv : ctx.has .atv = true
  · refine ⟨.atv, fun i hi => ?_, fun hreturns => ?_⟩
    · unfold goToSubtitle
      rw [cycleIf_of_has hatv hcycling]
      dsimp only
      split
      · exact hi
      · split <;> exact List.mem_append_left _ hi
    · unfold goToSubtitle
      rw [cycleIf_of_has hatv hcycling]
      dsimp only
      rw [if_pos hreturns]
  · have hdtv : ctx.has .dtv = true := by
      have hsome := hcycling
      rw [isCycling, decide_eq_true_iff] at hsome
      exact hsome.1.resolve_left hatv
    refine ⟨.dtv, fun i hi => ?_, fun hreturns => ?_⟩
    · unfold goToSubtitle
      rw [cycleIf_of_not_has hatv]
      dsimp only
      rw [cycleIf_of_has hdtv hcycling, if_neg Bool.false_ne_true]
      split <;> exact hi
    · unfold goToSubtitle
      rw [cycleIf_of_not_has hatv]
      dsimp only
      rw [cycleIf_of_has hdtv hcycling, if_neg Bool.false_ne_true, if_pos hreturns]
      rfl

/-- With no page recorded the command goes to page `100`. -/
theorem selected_goToSubtitle_of_empty (h : WellRecorded ctx) (hid : ctx.subtitlePageId = 0)
    (hempty : ctx.recorded = []) (hcycling : isCycling param ctx = true) (answer : Answer) :
    (goToSubtitle param answer ctx).selected = [100] := by
  have hparam := hcycling
  rw [isCycling, decide_eq_true_iff] at hparam
  obtain ⟨-, hmagazine, hpageNo⟩ := hparam
  have hpage : convertPageDecimal2Hex param.magazine param.pageNo = 100 := by
    rw [hmagazine, hpageNo]
    decide
  have hblock : ∀ b, ∀ ctx' : TeletextContext, WellRecorded ctx' → ctx'.subtitlePageId = 0 →
      ctx'.recorded = [] → (cycleIf b param answer ctx').2 = false := by
    intro b ctx' h' hid' hempty'
    unfold cycleIf
    split
    · rw [cycle_of_empty h' hid' hempty']
    · rfl
  have hatv := hblock .atv ctx h hid hempty
  have hid' : (cycleIf .atv param answer ctx).1.ctx.subtitlePageId = 0 := by
    unfold cycleIf
    split
    · rw [cycle_of_empty h hid hempty]
      exact hid
    · exact hid
  have hstore := store_cycleIf ctx answer .atv param
  have hdtv := hblock .dtv _ (h.congr hstore) hid' ((congrArg Prod.snd hstore).trans hempty)
  unfold goToSubtitle
  dsimp only
  rw [hatv, if_neg Bool.false_ne_true, hdtv, if_neg Bool.false_ne_true, if_pos hcycling, hpage]

/-- **When the command for the next subtitle page stays inside the array and goes to a
recorded page.** -/
theorem good_goToSubtitle_iff (h : Sound ctx) :
    (goToSubtitle param answer ctx).Good ↔ SafeCycling param ctx := by
  constructor
  · intro hgood hcycling
    obtain ⟨b, hreads, -⟩ := goToSubtitle_of_cycling hcycling answer
    have hin : InBounds ctx.subtitlePageId :=
      hgood.reads _ (hreads _ (mem_reads_cycle b answer ctx))
    refine ⟨h.inBounds_iff.mp hin, fun hid hempty => ?_, fun hlast => ?_⟩
    · have hselected := hgood.selected 100 (by
        rw [selected_goToSubtitle_of_empty h.wellRecorded hid hempty hcycling]
        exact List.mem_cons_self)
      rw [show (goToSubtitle param answer ctx).ctx.recorded = ctx.recorded from
        congrArg Prod.snd (store_goToSubtitle ctx answer param), hempty] at hselected
      cases hselected
    · by_contra hfull
      have hpage : pageAt ctx.subtitlePages answer.outside ctx.subtitlePageId ≠ 0 := by
        rw [Ne, pageAt_eq_zero_iff h.wellRecorded hin]
        omega
      have hsucc := hgood.reads _ (hreads _ (succ_mem_reads_cycle hpage b))
      have hlt := hsucc.2
      omega
  · intro hsafe
    by_cases hcycling : isCycling param ctx = true
    · obtain ⟨hid, hsome, hlast⟩ := hsafe hcycling
      have hin := h.inBounds_iff.mpr hid
      obtain ⟨b, -, heq⟩ := goToSubtitle_of_cycling hcycling answer
      rw [heq (cycle_snd h.wellRecorded hin hsome b answer)]
      exact good_cycle h.wellRecorded hin hlast b answer
    · unfold goToSubtitle
      rw [cycleIf_of_not_cycling hcycling]
      dsimp only
      rw [if_neg Bool.false_ne_true, cycleIf_of_not_cycling hcycling, if_neg Bool.false_ne_true,
        if_neg hcycling]
      exact ⟨nofun, nofun⟩

theorem sound_goToSubtitle (h : Sound ctx) (hsafe : SafeCycling param ctx) :
    Sound (goToSubtitle param answer ctx).ctx := by
  have hstore := h.wellRecorded.congr (store_goToSubtitle ctx answer param)
  by_cases hcycling : isCycling param ctx = true
  · obtain ⟨hid, hsome, hlast⟩ := hsafe hcycling
    have hin := h.inBounds_iff.mpr hid
    obtain ⟨b, -, heq⟩ := goToSubtitle_of_cycling hcycling answer
    have hin' := inBounds_cycle h.wellRecorded hin hlast b answer
    rw [← heq (cycle_snd h.wellRecorded hin hsome b answer)] at hin'
    exact ⟨hstore, by linarith [hin'.1], hin'.2⟩
  · have hid : (goToSubtitle param answer ctx).ctx.subtitlePageId = ctx.subtitlePageId := by
      unfold goToSubtitle
      rw [cycleIf_of_not_cycling hcycling]
      dsimp only
      rw [if_neg Bool.false_ne_true, cycleIf_of_not_cycling hcycling, if_neg Bool.false_ne_true]
      exact subtitlePageId_gotoPageLocked _ _ _ _
    exact ⟨hstore, hid ▸ h.id_ge, hid ▸ h.id_lt⟩

/-! ## Steps -/

theorem good_of_nil {e : Effect} (hreads : e.reads = []) (hselected : e.selected = []) :
    e.Good := by
  refine ⟨fun i hi => ?_, fun p hp => ?_⟩
  · rw [hreads] at hi
    cases hi
  · rw [hselected] at hp
    cases hp

theorem good_command_iff (h : Sound ctx) (param : TeletextParam) (answer : Answer) :
    (command param answer ctx).Good ↔ SafeCommand param ctx := by
  unfold command
  split
  · rename_i hevent
    refine (good_nextPageLocked_iff h).trans ⟨fun hsafe => ?_, fun hsafe => hsafe.nextPage hevent⟩
    exact ⟨fun _ => hsafe, fun _ => hsafe, fun hgoto => absurd (hevent ▸ hgoto) nofun⟩
  · rename_i hevent
    refine (good_nextPageLocked_iff h).trans
      ⟨fun hsafe => ?_, fun hsafe => hsafe.previousPage hevent⟩
    exact ⟨fun _ => hsafe, fun _ => hsafe, fun hgoto => absurd (hevent ▸ hgoto) nofun⟩
  · rename_i hevent
    exact iff_of_true (good_of_nil rfl rfl) ⟨by rw [hevent]; nofun, by rw [hevent]; nofun,
      by rw [hevent]; nofun⟩
  · rename_i hevent
    exact iff_of_true (good_of_nil rfl rfl) ⟨by rw [hevent]; nofun, by rw [hevent]; nofun,
      by rw [hevent]; nofun⟩
  · rename_i hevent
    refine (good_goToSubtitle_iff h).trans ⟨fun hsafe => ?_, fun hsafe => hsafe.goToSubtitle hevent⟩
    exact ⟨by rw [hevent]; nofun, by rw [hevent]; nofun, fun _ => hsafe⟩
  · rename_i hnext hprevious _ _ hgoto
    exact iff_of_true (good_of_nil rfl rfl) ⟨fun hevent => absurd hevent hnext,
      fun hevent => absurd hevent hprevious, fun hevent => absurd hevent hgoto⟩

theorem sound_command (h : Sound ctx) (answer : Answer) (hsafe : SafeCommand param ctx) :
    Sound (command param answer ctx).ctx := by
  have hstore := h.wellRecorded.congr (store_command ctx answer param)
  by_cases hgoto : param.event = .goToSubtitle
  · have heq : command param answer ctx = goToSubtitle param answer ctx := by
      rw [command, hgoto]
    rw [heq]
    exact sound_goToSubtitle h (hsafe.goToSubtitle hgoto)
  · have hid : (command param answer ctx).ctx.subtitlePageId = ctx.subtitlePageId := by
      unfold command
      split
      · exact subtitlePageId_nextPageLocked _ _
      · exact subtitlePageId_nextPageLocked _ _
      · rfl
      · exact subtitlePageId_gotoPageLocked _ _ _ _
      · rename_i hevent
        exact absurd hevent hgoto
      · rfl
    exact ⟨hstore, hid ▸ h.id_ge, hid ▸ h.id_lt⟩

/-- The commands that wait do not matter to the one that is carried out. -/
theorem Sound.tail (h : Sound ctx) (cmds : List TeletextParam) :
    Sound { ctx with mControlCmds := cmds } := ⟨h.wellRecorded.congr rfl, h.id_ge, h.id_lt⟩

theorem safeCommand_tail_iff (cmds : List TeletextParam) :
    SafeCommand param { ctx with mControlCmds := cmds } ↔ SafeCommand param ctx :=
  ⟨fun h => ⟨h.nextPage, h.previousPage, h.goToSubtitle⟩,
    fun h => ⟨h.nextPage, h.previousPage, h.goToSubtitle⟩⟩

theorem subtitlePageId_savePage (b : Broadcast) (pgno : ℤ) (pageType : Option ℕ)
    (ctx : TeletextContext) : (savePage b pgno pageType ctx).ctx.subtitlePageId =
      ctx.subtitlePageId := by
  unfold savePage
  dsimp only
  rw [subtitlePageId_setGotoFlag]

theorem subtitlePageId_saveFirstPage (pgno : ℤ) (ctx : TeletextContext) :
    (saveFirstPage pgno ctx).subtitlePageId = ctx.subtitlePageId := by
  unfold saveFirstPage
  split <;> rfl

theorem subtitlePageId_showFetched (ev : TtxPage) (ctx : TeletextContext) :
    (showFetched ev ctx).subtitlePageId = ctx.subtitlePageId := by
  unfold showFetched
  split
  · rfl
  · split
    · rfl
    · exact subtitlePageId_saveFirstPage _ _

theorem subtitlePageId_showPage (ev : TtxPage) (ctx : TeletextContext) :
    (showPage ev ctx).subtitlePageId = ctx.subtitlePageId := by
  unfold showPage
  dsimp only
  split
  · split
    · rfl
    · split
      · rfl
      · exact subtitlePageId_showFetched _ _
  · exact subtitlePageId_showFetched _ _

theorem subtitlePageId_handler (ev : TtxPage) (ctx : TeletextContext) :
    (handler ev ctx).ctx.subtitlePageId = ctx.subtitlePageId := by
  unfold handler
  split
  · rfl
  · split
    · exact (subtitlePageId_showPage _ _).trans
        ((subtitlePageId_savePage _ _ _ _).trans (subtitlePageId_savePage _ _ _ _))
    · exact subtitlePageId_showPage _ _

/-- Setting parameters leaves the index alone or sets it to `0`. -/
theorem subtitlePageId_updateParameter (param : TeletextParam) (ctx : TeletextContext) :
    (updateParameter param ctx).subtitlePageId = ctx.subtitlePageId ∨
      (updateParameter param ctx).subtitlePageId = 0 := by
  unfold updateParameter
  split
  · exact Or.inl rfl
  · split
    · dsimp only
      split
      · refine Or.inl ?_
        unfold keepProgram
        dsimp only
        split
        · split
          · split <;> rfl
          · rfl
        · rfl
      · exact Or.inr rfl
    · exact Or.inl rfl

/-! ## The pages a flag asks for -/

theorem recorded_subset_savePage (b : Broadcast) (pgno : ℤ) (pageType : Option ℕ)
    (ctx : TeletextContext) : ctx.recorded ⊆ (savePage b pgno pageType ctx).ctx.recorded := by
  unfold savePage
  dsimp only
  cases b <;> exact List.subset_append_left _ _

theorem recorded_subset_saveFirstPage (pgno : ℤ) (ctx : TeletextContext) :
    ctx.recorded ⊆ (saveFirstPage pgno ctx).recorded := by
  unfold saveFirstPage
  split
  · exact List.subset_append_left _ _
  · exact List.Subset.refl _

theorem recorded_subset_showFetched (ev : TtxPage) (ctx : TeletextContext) :
    ctx.recorded ⊆ (showFetched ev ctx).recorded := by
  unfold showFetched
  split
  · exact List.Subset.refl _
  · split
    · exact List.Subset.refl _
    · refine List.Subset.trans ?_ (recorded_subset_saveFirstPage _ _)
      exact List.Subset.refl _

theorem recorded_subset_showPage (ev : TtxPage) (ctx : TeletextContext) :
    ctx.recorded ⊆ (showPage ev ctx).recorded := by
  unfold showPage
  dsimp only
  split
  · split
    · exact List.Subset.refl _
    · split
      · exact List.Subset.refl _
      · refine List.Subset.trans ?_ (recorded_subset_showFetched _ _)
        exact List.Subset.refl _
  · exact recorded_subset_showFetched _ _

/-- The page a flag gets is recorded by then. -/
theorem selected_savePage (h : WellRecorded ctx) (b : Broadcast) {pgno : ℤ} (hpos : 0 < pgno)
    (pageType : Option ℕ) : ∀ p ∈ (savePage b pgno pageType ctx).selected,
      p ∈ (savePage b pgno pageType ctx).ctx.recorded := by
  intro p hp
  obtain ⟨l, hl, hperm⟩ := wellRecorded_savePage h b hpos pageType
  refine hperm.mem_iff.mp ?_
  have hpage : p ∈ (savePage b pgno pageType ctx).ctx.store.1 ∧ p ≠ 0 := by
    unfold savePage at hp ⊢
    dsimp only at hp ⊢
    rw [store_setGotoFlag]
    by_cases hrecords : records ctx b pgno pageType = true
    · have hhas : ctx.has b = true := by
        rw [records, decide_eq_true_iff] at hrecords
        exact hrecords.1
      rw [if_pos hrecords, if_pos hhas] at hp ⊢
      exact saveSubtitlePage_gotoPage pgno ctx.subtitlePages (ctx.gotoFlag b) p
        (Option.mem_toList.mp hp)
    · rw [if_neg hrecords] at hp
      split at hp <;> cases hp
  exact hl.toHolds.mem_of_ne_zero hpage.1 hpage.2

theorem good_handler (h : WellRecorded ctx) (ev : TtxPage) : (handler ev ctx).Good := by
  have hpos : 0 < vbiBcd2dec ev.pgno := lt_of_lt_of_le (by decide) ev.le_vbiBcd2dec
  unfold handler
  split
  · exact good_of_nil rfl rfl
  · split
    · refine ⟨nofun, fun p hp => recorded_subset_showPage _ _ ?_⟩
      rcases List.mem_append.mp hp with hp | hp
      · exact recorded_subset_savePage _ _ _ _ (selected_savePage h .atv hpos _ p hp)
      · exact selected_savePage (wellRecorded_savePage h .atv hpos _) .dtv hpos _ p hp
    · exact good_of_nil rfl rfl

/-! ## Runs -/

/-- **A step is good exactly when it is safe.** -/
theorem good_iff_safe (ctx : TeletextContext) (e : Event) (h : Sound ctx) :
    Good ctx e ↔ Safe ctx e := by
  unfold Good effect Safe
  cases e with
  | frame source opened drawn => exact iff_of_true (good_of_nil rfl rfl) trivial
  | page ev =>
    refine iff_of_true ?_ trivial
    dsimp only
    split
    · exact good_handler h.wellRecorded ev
    · exact good_of_nil rfl rfl
  | time drawn => exact iff_of_true (good_of_nil rfl rfl) trivial
  | updateParameter param => exact iff_of_true (good_of_nil rfl rfl) trivial
  | handleControl answer =>
    dsimp only
    unfold handleControl
    split
    · rename_i param cmds hvbi hcmds
      refine (good_command_iff (h.tail cmds) param answer).trans
        ((safeCommand_tail_iff cmds).trans ⟨fun hsafe _ param' hparam => ?_, fun hsafe => ?_⟩)
      · rw [hcmds] at hparam
        rw [← Option.some_inj.mp hparam]
        exact hsafe
      · exact hsafe hvbi param (by rw [hcmds]; rfl)
    · rename_i hidle
      refine iff_of_true (good_of_nil rfl rfl) fun hvbi param hparam => ?_
      cases hcmds : ctx.mControlCmds with
      | nil =>
        rw [hcmds] at hparam
        cases hparam
      | cons param' cmds => exact absurd hcmds (hidle param' cmds hvbi)

theorem sound_step (ctx : TeletextContext) (e : Event) (h : Sound ctx) (hsafe : Safe ctx e) :
    Sound (step ctx e) := by
  have hstore := wellRecorded_step ctx e h.wellRecorded
  unfold step effect at hstore ⊢
  cases e with
  | frame source opened drawn =>
    have hid : ((source.map ctx.setHas).getD ctx).subtitlePageId = ctx.subtitlePageId := by
      cases source with
      | none => rfl
      | some b => cases b <;> rfl
    exact ⟨hstore, hid ▸ h.id_ge, hid ▸ h.id_lt⟩
  | page ev =>
    dsimp only at hstore ⊢
    split at hstore
    · rename_i hvbi
      have hid := subtitlePageId_handler ev ctx
      rw [if_pos hvbi]
      exact ⟨hstore, hid ▸ h.id_ge, hid ▸ h.id_lt⟩
    · rename_i hvbi
      rw [if_neg hvbi]
      exact h
  | time drawn =>
    dsimp only at hstore ⊢
    split at hstore
    · rename_i hvbi
      rw [if_pos hvbi]
      exact ⟨hstore, h.id_ge, h.id_lt⟩
    · rename_i hvbi
      rw [if_neg hvbi]
      exact h
  | updateParameter param =>
    rcases subtitlePageId_updateParameter param ctx with hid | hid
    · exact ⟨hstore, hid ▸ h.id_ge, hid ▸ h.id_lt⟩
    · exact ⟨hstore, by rw [hid]; decide, by rw [hid]; decide⟩
  | handleControl answer =>
    dsimp only at hstore ⊢
    unfold Safe at hsafe
    unfold handleControl
    split
    · rename_i param cmds hvbi hcmds
      have hcommand := hsafe hvbi param (by rw [hcmds]; rfl)
      exact sound_command (h.tail cmds) answer ((safeCommand_tail_iff cmds).mpr hcommand)
    · exact h

theorem sound_initContext (status : ZvbiGlobalStatus) (lastShowingPage : ℤ) :
    Sound (initContext status lastShowingPage) :=
  ⟨wellRecorded_nil rfl, le_rfl, by change (-1 : ℤ) < _; decide⟩

/-- **Navigation stays inside the array and among the recorded pages exactly in the runs of
safe steps.** -/
theorem navigates_iff (status : ZvbiGlobalStatus) (lastShowingPage : ℤ) (events : List Event) :
    Run.Meets step Good (initContext status lastShowingPage) events ↔
      Run.Meets step Safe (initContext status lastShowingPage) events :=
  Run.meets_congr sound_step good_iff_safe (sound_initContext status lastShowingPage) events

/-- The command for the next subtitle page, as the first one. -/
def nextSubtitle : TeletextParam := ⟨0, 0, 0, -1, -1, 0, 0, 0, -1, .goToSubtitle, 1, 1⟩

/-- Digital teletext arrives, and the remote control asks for the next subtitle page. -/
def nextSubtitleFirst : List Event :=
  [.frame (some .dtv) true id, .updateParameter nextSubtitle, .handleControl ⟨id, fun _ => 0⟩]

/-- **The first command for the next subtitle page reads the cell in front of the array.** -/
theorem not_navigates_nextSubtitleFirst :
    ¬ Run.Meets step Good (initContext ⟨-1, -1, -1, -1, -1, -1, false⟩ 0) nextSubtitleFirst :=
  fun h => by
    have hread := h.2.2.1.reads (-1) (by decide)
    revert hread
    decide

end Teletext
end AmlSubtitle
