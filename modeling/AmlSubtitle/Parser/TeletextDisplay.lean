import AmlSubtitle.Parser.TeletextContext

/-!
# `TeletextParser.cpp`: from a page to an SPU

`genSubBitmap` draws a page into a bitmap, whose size follows from the rows of the page that are
shown and from the height of a row.  `saveTeletextGraphicsRect2Spu` allocates an SPU of that size,
and one of three functions, by the state of the page, writes its rows of pixels.

`generateInputDisplay` takes the text below the head from the last page that was shown: the upper
half of a whole page if the bitmap is smaller than that.  It does not ask if the bitmap has as many
rows.

* `genSubBitmap_drawn_le`: the page is drawn inside its bitmap.
* `inBuffer_saveTeletextGraphicsRect2Spu_iff`: when the rows are in an SPU of a given size.
* `displaysInBuffer_iff`: the pages and options for which they are.

The colours of the pixels are those that the page was drawn in; they are left open.  The context may
have changed since then.
-/

namespace AmlSubtitle
namespace Teletext

def C4_ERASE_PAGE : ℕ := 0x80

def BITMAP_CHAR_WIDTH : ℕ := 12

def BITMAP_CHAR_HEIGHT : ℕ := 10

def TELETEXT_HEAD_HEIGHT : ℕ := 10

def TELETEXT_TEXT_HEIGHT : ℕ := 230

def TELETEXT_BAR_HEIGHT : ℕ := 20

def TELETEXT_ROW : ℕ := 26

def TELETEXT_COL : ℕ := 41

/-! ## Pages and options -/

inductive DoubleHeight where
  | normal
  | top
  | bottom
  deriving DecidableEq, Repr

/-- `vbi_opacity`. -/
inductive Opacity where
  | transparentSpace
  | transparentFull
  | semiTransparent
  | fullyOpaque
  deriving DecidableEq, Repr

/-- `vbi_page`: a page has at least one row, and its text has room for `1200` characters. -/
structure VbiPage where
  rows : ℕ
  columns : ℕ
  text : ℕ → Opacity
  rows_pos : 0 < rows
  size_le : rows * columns ≤ 1200

/-- No character from row `chopTop` on is seen. -/
def VbiPage.isBlank (page : VbiPage) (chopTop : Bool) : Bool :=
  (List.range' (chopTop.toNat * page.columns) ((page.rows - chopTop.toNat) * page.columns)).all
    fun k => page.text k = .transparentSpace

/-- The context of the page, and its options for the display. -/
structure DisplayContext where
  ctx : TeletextContext
  pageType : ℕ
  lockSubpg : Bool
  doubleHeight : DoubleHeight

namespace DisplayContext

variable (c : DisplayContext)

/-- The page that is shown is one of those with subtitles. -/
def showsSubtitlePage : Bool :=
  c.ctx.atvTeletext && isSubtitlePage c.ctx.subtitlePages c.ctx.display.gotoPage ||
    c.ctx.dtvTeletext && isSubtitlePage c.ctx.subtitlePages c.ctx.display.gotoPage

/-- The rows are drawn at half their height, so that half of the page fills the screen. -/
def halves : Bool := !c.showsSubtitlePage && decide (c.doubleHeight ≠ .normal)

/-- A page with nothing to show clears the screen. -/
def clears : Bool :=
  c.ctx.display.isSubtitle &&
    (decide (c.ctx.subtitleMode = .graphics) || decide (c.pageType &&& C4_ERASE_PAGE ≠ 0))

end DisplayContext

/-! ## The bitmap -/

/-- `AVSubtitleRect`, of type `SUBTITLE_NONE` or with a bitmap of `w × h` pixels, into whose first
`drawn` rows the page is drawn. -/
inductive SubtitleRect where
  | dropped
  | bitmap (w h drawn : ℕ)
  deriving DecidableEq, Repr

/-- The calls of `malloc` and `calloc` that succeed. -/
structure Memory where
  data₀ : Bool
  data₁ : Bool
  pbuf : Bool
  spu_data : Bool

section Bitmap

variable (c : DisplayContext) (m : Memory)

/-- The end of `genSubBitmap`: the bitmap, and the rows from `chopTop` on that are drawn. -/
def drawPage (rows columns chopTop resy : ℕ) : Option SubtitleRect :=
  let height := if c.halves then (rows - chopTop) / 2 else rows - chopTop
  if m.data₀ ∧ m.data₁ then
    some (.bitmap (columns * BITMAP_CHAR_WIDTH) resy (height * BITMAP_CHAR_HEIGHT))
  else none

/-- `genSubBitmap`; none if it returns -1. -/
def genSubBitmap (page : VbiPage) (chopTop : Bool) : Option SubtitleRect :=
  let resy :=
    if c.halves then (page.rows - chopTop.toNat) * BITMAP_CHAR_HEIGHT / 2
    else (page.rows - chopTop.toNat) * BITMAP_CHAR_HEIGHT
  if page.isBlank chopTop then
    if c.clears then
      drawPage c m TELETEXT_ROW TELETEXT_COL chopTop.toNat
        ((TELETEXT_ROW - chopTop.toNat) * BITMAP_CHAR_HEIGHT)
    else if !c.lockSubpg then some .dropped
    else drawPage c m page.rows page.columns chopTop.toNat resy
  else drawPage c m page.rows page.columns chopTop.toNat resy

end Bitmap

/-! ## The SPU -/

/-- What one of the three functions returns, and the rows of pixels that it writes. -/
structure Written where
  ret : ℤ
  rows : List ℕ

section Rows

variable (colour : ℕ → ℕ) (isSubtitle : Bool) (width height : ℕ)

/-- The pixels of rows that are not 0. -/
def countData (rows : List ℕ) : ℕ :=
  (rows.map fun y => (List.range width).countP fun x => colour (y * width + x) ≠ 0).sum

/-- A row has a pixel that is not 0. -/
def hasData (rows : List ℕ) : Bool :=
  rows.any fun y => (List.range width).any fun x => colour (y * width + x) ≠ 0

/-- A pixel is not 0 and not black. -/
def isVisible (rows : List ℕ) : Bool :=
  rows.any fun y => (List.range width).any fun x =>
    colour (y * width + x) ≠ 0 ∧ colour (y * width + x) ≠ 0xff000000

/-- The rows of the head. -/
def headRows : List ℕ := List.range TELETEXT_HEAD_HEIGHT

/-- The height of a whole page. -/
def maxHeight : ℕ := TELETEXT_HEAD_HEIGHT + TELETEXT_TEXT_HEIGHT + TELETEXT_BAR_HEIGHT

def generateNormalDisplay : Written :=
  { ret :=
      if isSubtitle ∨ height = maxHeight ∨ isVisible colour width (List.range height) then 0 else 2
    rows := List.range height }

def generateSearchDisplay : Written :=
  if height < maxHeight then ⟨-1, []⟩
  else if isSubtitle then ⟨-1, []⟩
  else if ¬ hasData colour width headRows then ⟨-1, headRows⟩
  else
    let below := List.range' (TELETEXT_HEAD_HEIGHT + TELETEXT_TEXT_HEIGHT)
      (height - (TELETEXT_HEAD_HEIGHT + TELETEXT_TEXT_HEIGHT))
    { ret := if countData colour width below < width then -1 else 0
      rows := headRows ++
        List.range' TELETEXT_HEAD_HEIGHT (TELETEXT_TEXT_HEIGHT + TELETEXT_BAR_HEIGHT) ++ below }

def generateInputDisplay : Written :=
  if isSubtitle ∨ ¬ hasData colour width headRows then ⟨-1, headRows⟩
  else if height < maxHeight then
    ⟨0, headRows ++ List.range' TELETEXT_HEAD_HEIGHT (maxHeight / 2 - TELETEXT_HEAD_HEIGHT)⟩
  else
    ⟨0, headRows ++ List.range' TELETEXT_HEAD_HEIGHT TELETEXT_TEXT_HEIGHT ++
      List.range' (TELETEXT_HEAD_HEIGHT + TELETEXT_TEXT_HEIGHT) TELETEXT_BAR_HEIGHT⟩

end Rows

/-- The SPU: its size, and what was written into `spu_data`. -/
structure PageSpu where
  spu_width : ℕ
  spu_height : ℕ
  buffer_size : ℕ
  written : Written

/-- A row of pixels ends in `spu_data`. -/
def PageSpu.InBuffer (spu : PageSpu) : Prop :=
  ∀ y ∈ spu.written.rows, (y + 1) * (spu.spu_width * 4) ≤ spu.buffer_size

/-- `saveTeletextGraphicsRect2Spu`; none if memory fails. -/
def saveTeletextGraphicsRect2Spu (m : Memory) (colour : ℕ → ℕ) (display : Display)
    (resx resy : ℕ) : Option PageSpu :=
  if m.pbuf ∧ m.spu_data then
    some
      { spu_width := resx
        spu_height := resy
        buffer_size := resx * resy * 4
        written :=
          match display.pageState with
          | .display => generateNormalDisplay colour display.isSubtitle resx resy
          | .search => generateSearchDisplay colour display.isSubtitle resx resy
          | .input => generateInputDisplay colour display.isSubtitle resx resy }
  else none

/-! ## The rows that are written -/

/-- The page is drawn inside its bitmap. -/
theorem drawn_le_of_drawPage {c : DisplayContext} {m : Memory}
    {rows columns chopTop resy w h drawn : ℕ}
    (hresy : (if c.halves then (rows - chopTop) * BITMAP_CHAR_HEIGHT / 2
      else (rows - chopTop) * BITMAP_CHAR_HEIGHT) ≤ resy)
    (hdraw : drawPage c m rows columns chopTop resy = some (.bitmap w h drawn)) : drawn ≤ h := by
  unfold drawPage at hdraw
  dsimp only at hdraw
  split_ifs at hdraw hresy with hhalves hm
  · cases hdraw
    rw [BITMAP_CHAR_HEIGHT] at *
    omega
  · cases hdraw
    exact hresy

theorem genSubBitmap_drawn_le {c : DisplayContext} {m : Memory} {page : VbiPage} {chopTop : Bool}
    {w h drawn : ℕ} (hgen : genSubBitmap c m page chopTop = some (.bitmap w h drawn)) :
    drawn ≤ h := by
  unfold genSubBitmap at hgen
  dsimp only at hgen
  split at hgen
  · split at hgen
    · refine drawn_le_of_drawPage ?_ hgen
      split_ifs
      · exact Nat.div_le_self _ _
      · exact le_rfl
    · split at hgen
      · cases hgen
      · exact drawn_le_of_drawPage le_rfl hgen
  · exact drawn_le_of_drawPage le_rfl hgen

section InBuffer

variable {colour : ℕ → ℕ} {width height : ℕ}

theorem row_le_iff {y : ℕ} :
    (y + 1) * (width * 4) ≤ width * height * 4 ↔ width = 0 ∨ y < height := by
  have hplace : (y + 1) * (width * 4) = width * 4 * (y + 1) := Nat.mul_comm _ _
  have hsize : width * height * 4 = width * 4 * height := by ring
  rcases Nat.eq_zero_or_pos width with hzero | hpos
  · simp [hzero]
  · rw [hplace, hsize, Nat.mul_le_mul_left_iff (by omega)]
    omega

/-- The rows that `generateInputDisplay` takes to be there. -/
def inputHeight (colour : ℕ → ℕ) (isSubtitle : Bool) (width : ℕ) : ℕ :=
  if isSubtitle ∨ ¬ hasData colour width headRows then TELETEXT_HEAD_HEIGHT else maxHeight / 2

theorem generateSearchDisplay_lt (isSubtitle : Bool) :
    ∀ y ∈ (generateSearchDisplay colour isSubtitle width height).rows, y < height := by
  intro y hy
  unfold generateSearchDisplay at hy
  have hmax : maxHeight = 260 := rfl
  split_ifs at hy with hlow
  · cases hy
  · cases hy
  · simp only [List.mem_append, headRows, List.mem_range, List.mem_range'_1, TELETEXT_HEAD_HEIGHT,
      TELETEXT_TEXT_HEIGHT, TELETEXT_BAR_HEIGHT] at hy
    omega
  · rw [headRows, List.mem_range] at hy
    have hhead : TELETEXT_HEAD_HEIGHT = 10 := rfl
    omega

theorem generateInputDisplay_lt_iff (isSubtitle : Bool) :
    (∀ y ∈ (generateInputDisplay colour isSubtitle width height).rows, y < height) ↔
      inputHeight colour isSubtitle width ≤ height := by
  have hmax : maxHeight = 260 := rfl
  unfold generateInputDisplay inputHeight
  split_ifs with hnone hlow
  · simp only [headRows, List.mem_range]
    exact ⟨fun h => h 9 (by decide), fun h y hy => hy.trans_le h⟩
  · simp only [List.mem_append, headRows, List.mem_range, List.mem_range'_1, TELETEXT_HEAD_HEIGHT,
      hmax]
    refine ⟨fun h => h 129 (by decide), fun h y hy => ?_⟩
    omega
  · simp only [List.mem_append, headRows, List.mem_range, List.mem_range'_1, TELETEXT_HEAD_HEIGHT,
      TELETEXT_TEXT_HEIGHT, TELETEXT_BAR_HEIGHT, hmax]
    refine ⟨fun _ => by omega, fun _ y hy => ?_⟩
    omega

/-- **The rows of an SPU** are in its data, unless a number is being entered and the bitmap is lower
than the display of the number takes it to be. -/
theorem inBuffer_saveTeletextGraphicsRect2Spu_iff {m : Memory} {display : Display} {spu : PageSpu}
    (hsave : saveTeletextGraphicsRect2Spu m colour display width height = some spu) :
    spu.InBuffer ↔ (display.pageState = .input →
      width = 0 ∨ inputHeight colour display.isSubtitle width ≤ height) := by
  unfold saveTeletextGraphicsRect2Spu at hsave
  split_ifs at hsave
  obtain rfl := Option.some.inj hsave
  unfold PageSpu.InBuffer
  simp only [row_le_iff]
  cases hstate : display.pageState with
  | display =>
    refine iff_of_true (fun y hy => .inr ?_) fun h => by cases h
    exact List.mem_range.mp hy
  | search =>
    exact iff_of_true (fun y hy => .inr (generateSearchDisplay_lt _ y hy)) fun h => by cases h
  | input =>
    rw [← generateInputDisplay_lt_iff]
    simp only [forall_const]
    by_cases hwidth : width = 0
    · simp [hwidth]
    · simp [hwidth]

end InBuffer

/-! ## Pages -/

section Pages

variable (c : DisplayContext) (page : VbiPage) (chopTop : Bool) (colour : ℕ → ℕ) (display : Display)

/-- The rows of characters that the display of a number needs: those of the head, and, if there is
something in the head of a page without subtitles, those of half of a whole page. -/
def neededRows : ℕ :=
  if display.isSubtitle ∨ ¬ hasData colour (page.columns * BITMAP_CHAR_WIDTH) headRows then
    if c.halves then 2 else 1
  else
    if c.halves then 26 else 13

/-- No number is being entered, the page is dropped or cleared, or it has the rows. -/
def HasRows : Prop :=
  display.pageState = .input → (page.isBlank chopTop → ¬ c.clears ∧ c.lockSubpg) →
    page.columns = 0 ∨ neededRows c page colour display ≤ page.rows - chopTop.toNat

/-- The page is drawn inside its bitmap, and the rows of the SPU are in its data. -/
def DisplaysInBuffer : Prop :=
  ∀ m w h drawn, genSubBitmap c m page chopTop = some (.bitmap w h drawn) → drawn ≤ h ∧
    ∀ spu, saveTeletextGraphicsRect2Spu m colour display w h = some spu → spu.InBuffer

/-- A page whose bitmap has `rows` rows of characters. -/
theorem inputHeight_le_iff {rows : ℕ} :
    inputHeight colour display.isSubtitle (page.columns * BITMAP_CHAR_WIDTH) ≤
        (if c.halves then rows * BITMAP_CHAR_HEIGHT / 2 else rows * BITMAP_CHAR_HEIGHT) ↔
      neededRows c page colour display ≤ rows := by
  have hmax : maxHeight = 260 := rfl
  unfold inputHeight neededRows BITMAP_CHAR_HEIGHT TELETEXT_HEAD_HEIGHT
  rw [hmax]
  split_ifs <;> omega

/-- A bitmap that is drawn. -/
theorem drawPage_inBuffer_iff {rows columns chopTop resy : ℕ} :
    (∀ m w h drawn, drawPage c m rows columns chopTop resy = some (.bitmap w h drawn) →
      ∀ spu, saveTeletextGraphicsRect2Spu m colour display w h = some spu → spu.InBuffer) ↔
      (display.pageState = .input → columns = 0 ∨
        inputHeight colour display.isSubtitle (columns * BITMAP_CHAR_WIDTH) ≤ resy) := by
  have hwidth : columns * BITMAP_CHAR_WIDTH = 0 ↔ columns = 0 := by
    rw [BITMAP_CHAR_WIDTH]
    omega
  rw [← hwidth]
  constructor
  · intro h
    have hdraw : ∃ drawn, drawPage c ⟨true, true, true, true⟩ rows columns chopTop resy =
        some (.bitmap (columns * BITMAP_CHAR_WIDTH) resy drawn) := ⟨_, rfl⟩
    obtain ⟨drawn, hdraw⟩ := hdraw
    obtain ⟨spu, hsave⟩ : ∃ spu, saveTeletextGraphicsRect2Spu ⟨true, true, true, true⟩ colour
        display (columns * BITMAP_CHAR_WIDTH) resy = some spu := ⟨_, rfl⟩
    exact (inBuffer_saveTeletextGraphicsRect2Spu_iff hsave).mp (h _ _ _ _ hdraw _ hsave)
  · intro h m w h' drawn hdraw spu hsave
    unfold drawPage at hdraw
    dsimp only at hdraw
    split_ifs at hdraw with hm
    · cases hdraw
      exact (inBuffer_saveTeletextGraphicsRect2Spu_iff hsave).mpr h
    · cases hdraw
      exact (inBuffer_saveTeletextGraphicsRect2Spu_iff hsave).mpr h

/-- A blank page is cleared or dropped, unless it is locked. -/
theorem genSubBitmap_cases :
    (page.isBlank chopTop ∧ c.clears ∧ ∀ m, genSubBitmap c m page chopTop =
      drawPage c m TELETEXT_ROW TELETEXT_COL chopTop.toNat
        ((TELETEXT_ROW - chopTop.toNat) * BITMAP_CHAR_HEIGHT)) ∨
    (page.isBlank chopTop ∧ ¬ (¬ c.clears ∧ c.lockSubpg) ∧
      ∀ m, genSubBitmap c m page chopTop = some .dropped) ∨
    ((page.isBlank chopTop → ¬ c.clears ∧ c.lockSubpg) ∧ ∀ m, genSubBitmap c m page chopTop =
      drawPage c m page.rows page.columns chopTop.toNat
        (if c.halves then (page.rows - chopTop.toNat) * BITMAP_CHAR_HEIGHT / 2
          else (page.rows - chopTop.toNat) * BITMAP_CHAR_HEIGHT)) := by
  unfold genSubBitmap
  by_cases hblank : page.isBlank chopTop
  · by_cases hclears : c.clears
    · exact .inl ⟨hblank, hclears, fun m => by simp [hblank, hclears]⟩
    · by_cases hlock : c.lockSubpg
      · exact .inr (.inr ⟨fun _ => ⟨hclears, hlock⟩, fun m => by simp [hblank, hclears, hlock]⟩)
      · exact .inr (.inl ⟨hblank, fun h => hlock h.2, fun m => by simp [hblank, hclears, hlock]⟩)
  · exact .inr (.inr ⟨fun h => absurd h hblank, fun m => by simp [hblank]⟩)

/-- **A page** is displayed in the buffers exactly if it has the rows. -/
theorem displaysInBuffer_iff :
    DisplaysInBuffer c page chopTop colour display ↔ HasRows c page chopTop colour display := by
  have hdrawn : DisplaysInBuffer c page chopTop colour display ↔
      ∀ m w h drawn, genSubBitmap c m page chopTop = some (.bitmap w h drawn) →
        ∀ spu, saveTeletextGraphicsRect2Spu m colour display w h = some spu → spu.InBuffer :=
    ⟨fun h m w h' drawn hgen => (h m w h' drawn hgen).2,
      fun h m w h' drawn hgen => ⟨genSubBitmap_drawn_le hgen, h m w h' drawn hgen⟩⟩
  rw [hdrawn, HasRows]
  rcases genSubBitmap_cases c page chopTop with
    ⟨hblank, hclears, hgen⟩ | ⟨hblank, hdrops, hgen⟩ | ⟨hdraws, hgen⟩
  · -- a whole page, of which at least 25 rows are shown
    simp only [hgen]
    rw [drawPage_inBuffer_iff]
    refine iff_of_true (fun _ => .inr ?_) fun _ h => absurd hclears (h hblank).1
    have hmax : maxHeight = 260 := rfl
    have hle := Bool.toNat_le chopTop
    unfold inputHeight TELETEXT_HEAD_HEIGHT TELETEXT_ROW BITMAP_CHAR_HEIGHT
    split_ifs <;> omega
  · simp only [hgen]
    exact iff_of_true (fun m w h drawn hdropped => by cases hdropped) fun _ h =>
      absurd (h hblank) hdrops
  · simp only [hgen]
    rw [drawPage_inBuffer_iff, inputHeight_le_iff]
    exact forall_congr' fun _ => ⟨fun h _ => h, fun h => h hdraws⟩

set_option maxRecDepth 4000 in
/-- A whole page without its first row, at half its height, while a number is being entered. -/
theorem not_displaysInBuffer_chopped : ¬ ∀ c page chopTop colour display,
    DisplaysInBuffer c page chopTop colour display := by
  intro h
  have hin := (h ⟨initContext ⟨0, 0, 0, 0, 0, 0, false⟩ 0, 0, false, .top⟩
    ⟨26, 41, fun _ => .fullyOpaque, by decide, by decide⟩ true (fun _ => 1)
    { (initContext ⟨0, 0, 0, 0, 0, 0, false⟩ 0).display with pageState := .input }
    ⟨true, true, true, true⟩ 492 125 120 rfl).2 _ rfl
  exact absurd (hin 129 (by decide)) (by decide)

end Pages

end Teletext
end AmlSubtitle
