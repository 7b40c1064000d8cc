import AmlSubtitle.Lib.Run
import AmlSubtitle.Parser.TeletextContext

/-!
# The digits of a page number

The commands of the digits in `handleControl` of `TeletextParser.cpp`.  `mGotoPageNum` takes up
the digits of a page, one command after the other, and is cleared by the goto it leads to and by
a number that is no page.

* `pageDigit`: what a digit makes of `mGotoPageNum` and `gotoPage`.
* `Entered`: what `mGotoPageNum` holds between commands.
* `enters_iff`: three digits lead to their page and clear `mGotoPageNum`, unless the page is shown
  already.

Other commands, and pages that arrive, change all but `mGotoPageNum`; here they may leave anything
else behind.
-/

namespace AmlSubtitle
namespace Teletext

/-! ## Digits -/

def TELETEXT_SUBPAGE_NUMBER_OF_DIGITS : ℤ := 4

def TELETEXT_SUBPAGE_NUMBER_COUNT : ℤ := 10

/-- What `fetchVbiPageLocked` draws.  It does not go to another page. -/
structure Drawing where
  drawn : Display → Display
  gotoPage_drawn : ∀ display, (drawn display).gotoPage = display.gotoPage

/-- The fields that the commands of digits read and change. -/
structure Navigation where
  ctx : TeletextContext
  mGotoPageNum : ℤ
  mGotoSubPageNum : ℤ
  gotoSubPageModeFlag : Bool
  gotoSubPageDigitFlag : ℤ
  gotoGraphicsSubtitlePage : ℤ
  regionId : ℤ

namespace Navigation

/-- The page that is gone to. -/
def gotoPage (s : Navigation) : ℤ := s.ctx.display.gotoPage

/-- `gotoSubPageLocked`.  There is a decoder when a command is carried out. -/
def gotoSubPageLocked (subPageNum : ℤ) (s : Navigation) : Navigation :=
  if subPageNum < TELETEXT_MIN_SUBPAGE_NUMBER ∨ TELETEXT_MAX_SUBPAGE_NUMBER < subPageNum then s
  else
    let digits := s.gotoSubPageDigitFlag + 1
    let display := { s.ctx.display with
      dispUpdate := if s.ctx.subtitleMode = .graphics then true else s.ctx.display.dispUpdate
      subPageNum := if TELETEXT_SUBPAGE_NUMBER_OF_DIGITS ≤ digits then subPageNum
        else s.ctx.display.subPageNum }
    { s with
      ctx := { s.ctx with display := display }
      gotoSubPageModeFlag := true
      gotoSubPageDigitFlag := if TELETEXT_SUBPAGE_NUMBER_OF_DIGITS ≤ digits then
        TELETEXT_SUBPAGE_NUMBER_COUNT else digits }

/-- `TT_EVENT_0` to `TT_EVENT_9`. -/
def digit (n : Fin 10) (regionId : ℤ) (drawing : Drawing) (s : Navigation) : Navigation :=
  if s.gotoSubPageModeFlag = false then
    let num := s.mGotoPageNum * 10 + (n : ℕ)
    let s := { s with regionId := if 0 ≤ regionId then regionId else s.regionId }
    if num = 9 ∨ num = 0 ∨ TELETEXT_MAX_PAGE_NUMBER < num then
      { s with mGotoPageNum := 0 }
    else
      let s := { s with mGotoPageNum := num, gotoGraphicsSubtitlePage := num }
      if TELETEXT_MIN_PAGE_NUMBER < num ∧ num < TELETEXT_MAX_PAGE_NUMBER ∧
          s.ctx.display.gotoPage ≠ num then
        let ctx := { s.ctx with display := { s.ctx.display with pageState := .input } }
        { s with
          ctx := gotoPageLocked num 0 ⟨drawing.drawn, fun _ => 0⟩ ctx
          mGotoPageNum := 0 }
      else s
  else if s.gotoSubPageDigitFlag < TELETEXT_SUBPAGE_NUMBER_OF_DIGITS then
    let num := s.mGotoSubPageNum * 10 + (n : ℕ)
    let num := if TELETEXT_MIN_SUBPAGE_NUMBER ≤ num ∧ num ≤ TELETEXT_MAX_SUBPAGE_NUMBER then num
      else 0
    gotoSubPageLocked num { s with mGotoSubPageNum := num }
  else s

end Navigation

/-- A digit, or anything else that happens to a parser. -/
inductive DigitEvent where
  | digit (n : Fin 10) (regionId : ℤ) (drawing : Drawing)
  | other (left : Navigation)

/-- Nothing but a digit touches `mGotoPageNum`. -/
def digitStep (s : Navigation) : DigitEvent → Navigation
  | .digit n regionId drawing => s.digit n regionId drawing
  | .other left => { left with mGotoPageNum := s.mGotoPageNum }

/-! ## One digit -/

/-- What a digit of a page makes of `mGotoPageNum` and `gotoPage`. -/
def pageDigit (n num gotoPage : ℤ) : ℤ × ℤ :=
  if num * 10 + n = 9 ∨ num * 10 + n = 0 ∨ 900 < num * 10 + n then (0, gotoPage)
  else if 99 < num * 10 + n ∧ num * 10 + n < 900 ∧ gotoPage ≠ num * 10 + n then
    (0, num * 10 + n)
  else (num * 10 + n, gotoPage)

section Step

variable {s : Navigation} (n : Fin 10) (regionId : ℤ) (drawing : Drawing)

theorem gotoPage_gotoPageLocked {num : ℤ} (hmin : 99 < num) (hmax : num < 900)
    (ctx : TeletextContext) :
    (gotoPageLocked num 0 ⟨drawing.drawn, fun _ => 0⟩ ctx).display.gotoPage = num := by
  have hpage : ¬ (num < 100 ∨ 899 < num) := by omega
  have hsub : ¬ ((0 : ℤ) < TELETEXT_MIN_SUBPAGE_NUMBER ∨ TELETEXT_MAX_SUBPAGE_NUMBER < 0) := by
    decide
  rw [gotoPageLocked, if_neg hpage, if_neg hsub]
  dsimp only
  split_ifs
  · exact drawing.gotoPage_drawn _
  · rfl

/-- A digit of a page. -/
theorem digit_of_page (hmode : s.gotoSubPageModeFlag = false) :
    (s.digit n regionId drawing).gotoSubPageModeFlag = false ∧
      ((s.digit n regionId drawing).mGotoPageNum, (s.digit n regionId drawing).gotoPage) =
        pageDigit (n : ℕ) s.mGotoPageNum s.gotoPage := by
  rw [Navigation.digit, if_pos hmode, pageDigit]
  unfold TELETEXT_MAX_PAGE_NUMBER TELETEXT_MIN_PAGE_NUMBER Navigation.gotoPage
  dsimp only
  generalize hnum : s.mGotoPageNum * 10 + ((n : ℕ) : ℤ) = num
  by_cases hnone : num = 9 ∨ num = 0 ∨ 900 < num
  · rw [if_pos hnone, if_pos hnone]
    exact ⟨hmode, rfl⟩
  · rw [if_neg hnone, if_neg hnone]
    by_cases hgoto : 99 < num ∧ num < 900 ∧ s.ctx.display.gotoPage ≠ num
    · rw [if_pos hgoto, if_pos hgoto]
      refine ⟨hmode, ?_⟩
      rw [gotoPage_gotoPageLocked drawing hgoto.1 hgoto.2.1]
    · rw [if_neg hgoto, if_neg hgoto]
      exact ⟨hmode, rfl⟩

/-- A digit of a subpage. -/
theorem digit_of_subPage (hmode : s.gotoSubPageModeFlag = true) :
    (s.digit n regionId drawing).gotoSubPageModeFlag = true ∧
      (s.digit n regionId drawing).mGotoPageNum = s.mGotoPageNum ∧
      (s.digit n regionId drawing).gotoPage = s.gotoPage := by
  have hnot : s.gotoSubPageModeFlag ≠ false := by simp [hmode]
  rw [Navigation.digit, if_neg hnot]
  dsimp only
  unfold Navigation.gotoSubPageLocked
  split_ifs <;> exact ⟨by first | exact hmode | rfl, rfl, rfl⟩

end Step

/-! ## Three digits -/

/-- What `mGotoPageNum` holds: nothing, or the digits so far. -/
def Entered (num : ℤ) : Prop :=
  num = 0 ∨ (1 ≤ num ∧ num ≤ 8) ∨ (10 ≤ num ∧ num ≤ 89) ∨ (100 ≤ num ∧ num ≤ 899)

theorem entered_pageDigit {n num : ℤ} (h : Entered num) (hn : 0 ≤ n ∧ n ≤ 9) (gotoPage : ℤ) :
    Entered (pageDigit n num gotoPage).1 := by
  unfold Entered at *
  unfold pageDigit
  split_ifs <;> dsimp only <;> omega

theorem entered_digitStep {s : Navigation} (h : Entered s.mGotoPageNum) (e : DigitEvent) :
    Entered (digitStep s e).mGotoPageNum := by
  cases e with
  | digit n regionId drawing =>
    cases hmode : s.gotoSubPageModeFlag with
    | false =>
      obtain ⟨-, hdigit⟩ := digit_of_page n regionId drawing hmode
      have hnum : (s.digit n regionId drawing).mGotoPageNum = _ := congrArg Prod.fst hdigit
      rw [digitStep, hnum]
      exact entered_pageDigit h (by omega) _
    | true =>
      obtain ⟨-, hnum, -⟩ := digit_of_subPage n regionId drawing hmode
      rw [digitStep, hnum]
      exact h
  | other left => exact h

/-- The page that three digits spell. -/
def spelled (d₁ d₂ d₃ : Fin 10) : ℤ := 100 * (d₁ : ℕ) + 10 * (d₂ : ℕ) + (d₃ : ℕ)

/-- Three commands of digits lead to their page, and the next digit begins a new number. -/
def EntersPage (s : Navigation) (d₁ d₂ d₃ : Fin 10) : Prop :=
  ∀ (regionId : Fin 3 → ℤ) (drawing : Fin 3 → Drawing),
    let t := ((s.digit d₁ (regionId 0) (drawing 0)).digit d₂ (regionId 1) (drawing 1)).digit d₃
      (regionId 2) (drawing 2)
    t.gotoPage = spelled d₁ d₂ d₃ ∧ t.mGotoPageNum = 0

/-- Digits go to the page, there is no digit yet, and the page is not the one that is shown.  Where
the page is shown already, it stays so, and the digits are cleared only by a digit that does not
belong to a page. -/
def CanEnter (s : Navigation) (d₁ d₂ d₃ : Fin 10) : Prop :=
  s.gotoSubPageModeFlag = false ∧ s.mGotoPageNum = 0 ∧ s.gotoPage ≠ spelled d₁ d₂ d₃ ∨
    s.gotoPage = spelled d₁ d₂ d₃ ∧
      (s.gotoSubPageModeFlag = true ∧ s.mGotoPageNum = 0 ∨
        s.gotoSubPageModeFlag = false ∧
          (s.mGotoPageNum = (d₁ : ℕ) ∧ d₁ = d₂ ∧ d₂ = d₃ ∨
            100 ≤ s.mGotoPageNum ∧ (d₂ = 0 ∨ d₂ = 9) ∧ (d₃ = 0 ∨ d₃ = 9)))

section Numbers

variable {n num gotoPage : ℤ}

/-- The first digit. -/
theorem pageDigit_first (hn : 0 ≤ n ∧ n ≤ 9) :
    pageDigit n 0 gotoPage = if n = 0 ∨ n = 9 then (0, gotoPage) else (n, gotoPage) := by
  unfold pageDigit
  split_ifs <;> first | omega | simp

/-- The second digit. -/
theorem pageDigit_second (hnum : 1 ≤ num ∧ num ≤ 8) (hn : 0 ≤ n ∧ n ≤ 9) :
    pageDigit n num gotoPage = (num * 10 + n, gotoPage) := by
  rw [pageDigit, if_neg (by omega), if_neg (by omega)]

/-- The third digit. -/
theorem pageDigit_third (hnum : 10 ≤ num ∧ num ≤ 89) (hn : 0 ≤ n ∧ n ≤ 9) :
    pageDigit n num gotoPage =
      if gotoPage = num * 10 + n then (num * 10 + n, gotoPage) else (0, num * 10 + n) := by
  rw [pageDigit, if_neg (by omega)]
  split_ifs <;> first | omega | rfl

/-- A digit behind the digits of a page. -/
theorem pageDigit_over (hnum : 100 ≤ num) (hn : 0 ≤ n) :
    pageDigit n num gotoPage = (0, gotoPage) := by
  rw [pageDigit, if_pos (by omega)]

end Numbers

/-- Three digits of a page, as numbers. -/
theorem pageDigits_iff {num gotoPage a b c : ℤ} (hnum : Entered num) (ha : 1 ≤ a ∧ a ≤ 8)
    (hb : 0 ≤ b ∧ b ≤ 9) (hc : 0 ≤ c ∧ c ≤ 9) :
    let s₁ := pageDigit a num gotoPage
    let s₂ := pageDigit b s₁.1 s₁.2
    pageDigit c s₂.1 s₂.2 = (0, 100 * a + 10 * b + c) ↔
      num = 0 ∧ gotoPage ≠ 100 * a + 10 * b + c ∨
        gotoPage = 100 * a + 10 * b + c ∧
          (num = a ∧ a = b ∧ b = c ∨ 100 ≤ num ∧ (b = 0 ∨ b = 9) ∧ (c = 0 ∨ c = 9)) := by
  have hfirst : ∀ gotoPage, pageDigit a 0 gotoPage = (a, gotoPage) := fun gotoPage => by
    rw [pageDigit_first (by omega), if_neg (by omega)]
  dsimp only
  rcases hnum with rfl | hone | htwo | hthree
  · -- a new number
    rw [hfirst, pageDigit_second ha hb, pageDigit_third (by omega) hc]
    split_ifs with hshown
    · rw [Prod.mk.injEq]
      omega
    · rw [Prod.mk.injEq]
      omega
  · -- the second digit completes another page, which is shown already or not
    rw [pageDigit_second hone (by omega), pageDigit_third (by omega) hb]
    split_ifs with hshown
    · have hsame : 100 * num + 10 * a + b = 100 * a + 10 * b + c →
          num = a ∧ a = b ∧ b = c := fun heq => by
        obtain rfl : b = c := by omega
        obtain rfl : a = b := by omega
        exact ⟨by omega, rfl, rfl⟩
      rw [pageDigit_over (by omega) hc.1, Prod.mk.injEq]
      omega
    · rw [pageDigit_first hc]
      split_ifs
      · rw [Prod.mk.injEq]
        omega
      · rw [Prod.mk.injEq]
        omega
  · -- the first digit does
    rw [pageDigit_third htwo (by omega)]
    split_ifs with hshown
    · rw [pageDigit_over (by omega) hb.1, pageDigit_first hc]
      split_ifs
      · rw [Prod.mk.injEq]
        omega
      · rw [Prod.mk.injEq]
        omega
    · rw [pageDigit_first hb]
      by_cases hnone : b = 0 ∨ b = 9
      · rw [if_pos hnone, pageDigit_first hc]
        split_ifs
        · rw [Prod.mk.injEq]
          omega
        · rw [Prod.mk.injEq]
          omega
      · rw [if_neg hnone, pageDigit_second (by omega) hc]
        rw [Prod.mk.injEq]
        omega
  · -- the page before is still there
    rw [pageDigit_over hthree.1 (by omega), pageDigit_first hb]
    by_cases hnone : b = 0 ∨ b = 9
    · rw [if_pos hnone, pageDigit_first hc]
      split_ifs
      · rw [Prod.mk.injEq]
        omega
      · rw [Prod.mk.injEq]
        omega
    · rw [if_neg hnone, pageDigit_second (by omega) hc]
      rw [Prod.mk.injEq]
      omega

/-- Three commands with digits of a page. -/
theorem digits_of_page {s : Navigation} (hmode : s.gotoSubPageModeFlag = false) (d₁ d₂ d₃ : Fin 10)
    (regionId : Fin 3 → ℤ) (drawing : Fin 3 → Drawing) :
    let t := ((s.digit d₁ (regionId 0) (drawing 0)).digit d₂ (regionId 1) (drawing 1)).digit d₃
      (regionId 2) (drawing 2)
    let s₁ := pageDigit (d₁ : ℕ) s.mGotoPageNum s.gotoPage
    let s₂ := pageDigit (d₂ : ℕ) s₁.1 s₁.2
    (t.mGotoPageNum, t.gotoPage) = pageDigit (d₃ : ℕ) s₂.1 s₂.2 := by
  obtain ⟨hmode₁, hfirst⟩ := digit_of_page d₁ (regionId 0) (drawing 0) hmode
  obtain ⟨hmode₂, hsecond⟩ := digit_of_page d₂ (regionId 1) (drawing 1) hmode₁
  obtain ⟨-, hthird⟩ := digit_of_page d₃ (regionId 2) (drawing 2) hmode₂
  dsimp only
  rw [hthird, ← hfirst]
  dsimp only
  rw [← hsecond]

/-- Three commands with digits of a subpage. -/
theorem digits_of_subPage {s : Navigation} (hmode : s.gotoSubPageModeFlag = true)
    (d₁ d₂ d₃ : Fin 10) (regionId : Fin 3 → ℤ) (drawing : Fin 3 → Drawing) :
    let t := ((s.digit d₁ (regionId 0) (drawing 0)).digit d₂ (regionId 1) (drawing 1)).digit d₃
      (regionId 2) (drawing 2)
    t.mGotoPageNum = s.mGotoPageNum ∧ t.gotoPage = s.gotoPage := by
  obtain ⟨hmode₁, hnum₁, hpage₁⟩ := digit_of_subPage d₁ (regionId 0) (drawing 0) hmode
  obtain ⟨hmode₂, hnum₂, hpage₂⟩ := digit_of_subPage d₂ (regionId 1) (drawing 1) hmode₁
  obtain ⟨-, hnum₃, hpage₃⟩ := digit_of_subPage d₃ (regionId 2) (drawing 2) hmode₂
  exact ⟨hnum₃.trans (hnum₂.trans hnum₁), hpage₃.trans (hpage₂.trans hpage₁)⟩

theorem cast_digit_eq_iff (a b : Fin 10) : (((a : ℕ) : ℤ) = ((b : ℕ) : ℤ)) ↔ a = b := by
  rw [Nat.cast_inj, Fin.ext_iff]

/-- Three digits, in a state where `mGotoPageNum` holds digits. -/
theorem entersPage_iff {s : Navigation} (h : Entered s.mGotoPageNum) {d₁ : Fin 10}
    (hd₁ : 1 ≤ (d₁ : ℕ) ∧ (d₁ : ℕ) ≤ 8) (d₂ d₃ : Fin 10) :
    EntersPage s d₁ d₂ d₃ ↔ CanEnter s d₁ d₂ d₃ := by
  have hd₂ := d₂.isLt
  have hd₃ := d₃.isLt
  have hnone : Drawing := ⟨id, fun _ => rfl⟩
  unfold EntersPage CanEnter spelled
  cases hmode : s.gotoSubPageModeFlag with
  | false =>
    have hnum : 1 ≤ ((d₁ : ℕ) : ℤ) ∧ ((d₁ : ℕ) : ℤ) ≤ 8 := by omega
    have hdigits := @pageDigits_iff _ s.gotoPage _ (d₂ : ℕ) (d₃ : ℕ) h hnum (by omega) (by omega)
    have hzero : ∀ d : Fin 10, ((d : ℕ) : ℤ) = 0 ↔ d = 0 := fun d => cast_digit_eq_iff d 0
    have hnine : ∀ d : Fin 10, ((d : ℕ) : ℤ) = 9 ↔ d = 9 := fun d => cast_digit_eq_iff d 9
    rw [cast_digit_eq_iff, cast_digit_eq_iff, hzero, hnine, hzero, hnine] at hdigits
    simp only [true_and, Bool.false_eq_true, false_and, false_or]
    refine Iff.trans ?_ hdigits
    constructor
    · intro hall
      obtain ⟨hpage, hclear⟩ := hall (fun _ => 0) fun _ => hnone
      rw [← digits_of_page hmode d₁ d₂ d₃ (fun _ => 0) fun _ => hnone]
      exact Prod.ext hclear hpage
    · intro heq regionId drawing
      have ht := (digits_of_page hmode d₁ d₂ d₃ regionId drawing).trans heq
      exact ⟨congrArg Prod.snd ht, congrArg Prod.fst ht⟩
  | true =>
    constructor
    · intro hall
      obtain ⟨hpage, hclear⟩ := hall (fun _ => 0) fun _ => hnone
      obtain ⟨hnum, hgoto⟩ := digits_of_subPage hmode d₁ d₂ d₃ (fun _ => 0) fun _ => hnone
      rw [hgoto] at hpage
      rw [hnum] at hclear
      exact Or.inr ⟨hpage, Or.inl ⟨rfl, hclear⟩⟩
    · intro hcan regionId drawing
      obtain ⟨hnum, hgoto⟩ := digits_of_subPage hmode d₁ d₂ d₃ regionId drawing
      dsimp only
      rw [hnum, hgoto]
      rcases hcan with ⟨hfalse, -⟩ | ⟨hpage, ⟨-, hclear⟩ | ⟨hfalse, -⟩⟩
      · exact absurd hfalse (by simp)
      · exact ⟨hpage, hclear⟩
      · exact absurd hfalse (by simp)

/-! ## Runs -/

/-- A new parser. -/
def startNavigation (status : ZvbiGlobalStatus) (lastShowingPage : ℤ) : Navigation where
  ctx := initContext status lastShowingPage
  mGotoPageNum := 0
  mGotoSubPageNum := 0
  gotoSubPageModeFlag := false
  gotoSubPageDigitFlag := 0
  gotoGraphicsSubtitlePage := 0
  regionId := -1

/-- Between commands `mGotoPageNum` holds digits. -/
theorem entered_run (status : ZvbiGlobalStatus) (lastShowingPage : ℤ) (es : List DigitEvent) :
    Entered (es.foldl digitStep (startNavigation status lastShowingPage)).mGotoPageNum := by
  have hstep : ∀ s e, Entered s.mGotoPageNum → True → Entered (digitStep s e).mGotoPageNum :=
    fun _ e h _ => entered_digitStep h e
  exact Run.invariant_of_meets hstep (Or.inl rfl) (Run.meets_of_forall fun _ _ => trivial)
    (Run.reached_last _ es)

end Teletext
end AmlSubtitle
