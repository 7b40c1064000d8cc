import AmlSubtitle.Lib.Rect
import AmlSubtitle.Parser.DvbRegionBuffer

/-!
# The picture of a page

`saveResult2Spu` makes a rectangle for the regions that a page shows, allocates two buffers
for its pixels, and draws the regions one after the other.

* `boundDisplays_start`: the rectangle of the first loop is the hull, `picture`, of the regions
  where they come to stand: one that begins above those before it and would reach into them is
  moved up (`settle`).
* `drawDisplays_eq`: the second loop draws the regions before the first that does not pass the
  code's check.
* `Placed` is what holds of the page in every context of a run: the displays stand at 16-bit
  places, but for what they have been moved up, and the sides of the regions are 16 bits long.
  So the hull is always right, and its numbers are `int`s.
* The number of bytes need not be an `int`.  `composesInside_iff`: what is written lies in the
  buffers exactly when it is `PixelsInRange`.
-/

namespace AmlSubtitle
namespace Dvb

open DVBSubContext Words

/-! ## The rectangle -/

namespace Bounds

/-- The rectangle by its edges. -/
def rect (bounds : Bounds) : Rect ℤ :=
  ⟨bounds.xPos, bounds.yPos, bounds.xPos + bounds.width, bounds.yPos + bounds.height⟩

theorem width_rect (bounds : Bounds) : bounds.rect.width = bounds.width := by
  simp [rect, Rect.width]

theorem height_rect (bounds : Bounds) : bounds.rect.height = bounds.height := by
  simp [rect, Rect.height]

end Bounds

/-- A display of the page with the region it shows. -/
structure ShownRegion where
  display : DVBSubRegionDisplay
  region : DVBSubRegion
  deriving DecidableEq, Repr

namespace ShownRegion

/-- Where the region lies on the screen. -/
def rect (s : ShownRegion) : Rect ℤ :=
  ⟨s.display.xPos, s.display.yPos, s.display.xPos + s.region.width,
    s.display.yPos + s.region.height⟩

/-- A region that begins above `top` and would reach below it is moved up to end there. -/
def settle (top : ℤ) (s : ShownRegion) : ShownRegion :=
  if s.display.yPos < top ∧ top - s.display.yPos < s.region.height then
    { s with display := { s.display with yPos := top - s.region.height } }
  else
    s

/-- Each region in turn is settled against the top of those before it. -/
def settleAll : ℤ → List ShownRegion → List ShownRegion
  | _, [] => []
  | top, s :: rest =>
    s.settle top :: settleAll (min top (s.settle top).display.yPos) rest

@[simp] theorem settle_region (top : ℤ) (s : ShownRegion) :
    (s.settle top).region = s.region := by
  rw [settle]
  split_ifs <;> rfl

@[simp] theorem settle_regionId (top : ℤ) (s : ShownRegion) :
    (s.settle top).display.regionId = s.display.regionId := by
  rw [settle]
  split_ifs <;> rfl

@[simp] theorem settle_xPos (top : ℤ) (s : ShownRegion) :
    (s.settle top).display.xPos = s.display.xPos := by
  rw [settle]
  split_ifs <;> rfl

/-- Where the regions of a page come to stand; the first one stays where it is. -/
def settled : List ShownRegion → List ShownRegion
  | [] => []
  | s :: rest => s :: settleAll s.display.yPos rest

/-- The least rectangle with the regions inside. -/
def picture : List ShownRegion → Rect ℤ
  | [] => ⟨0, 0, 0, 0⟩
  | s :: rest => hull s.rect (rest.map rect)

theorem rect_le_picture {l : List ShownRegion} {s : ShownRegion} (h : s ∈ l) :
    s.rect ≤ picture l := by
  cases l with
  | nil => cases h
  | cons s' rest =>
    rcases List.mem_cons.mp h with rfl | h
    · exact le_hull _ _
    · exact le_hull_of_mem (List.mem_map_of_mem h)

end ShownRegion

open ShownRegion

/-- The displays show the regions. -/
def Shows (ctx : DVBSubContext) (displays : List DVBSubRegionDisplay)
    (shown : List ShownRegion) : Prop :=
  List.Forall₂ (fun display s => s.display = display ∧
    ctx.getRegion display.regionId = some s.region) displays shown

section Grow

variable (bounds : Bounds)

/-- A region that begins further left. -/
theorem rect_growLeft (left : ℤ) :
    Bounds.rect (if left < bounds.xPos then
        { bounds with width := bounds.width + (bounds.xPos - left), xPos := left }
      else bounds) =
      { bounds.rect with left := min bounds.rect.left left } := by
  split_ifs with h
  · ext <;> simp [Bounds.rect, min_eq_right h.le]
    ring
  · ext <;> simp [Bounds.rect, not_lt.mp h]

/-- A region that ends further right. -/
theorem rect_growRight (right : ℤ) :
    Bounds.rect (if bounds.xPos + bounds.width < right then
        { bounds with width := right - bounds.xPos }
      else bounds) =
      { bounds.rect with right := max bounds.rect.right right } := by
  split_ifs with h
  · ext <;> simp [Bounds.rect, max_eq_right h.le]
  · ext <;> simp [Bounds.rect, not_lt.mp h]

/-- A region that ends further down. -/
theorem rect_growDown (bottom : ℤ) :
    Bounds.rect (if bounds.yPos + bounds.height < bottom then
        { bounds with height := bottom - bounds.yPos }
      else bounds) =
      { bounds.rect with bottom := max bounds.rect.bottom bottom } := by
  split_ifs with h
  · ext <;> simp [Bounds.rect, max_eq_right h.le]
  · ext <;> simp [Bounds.rect, not_lt.mp h]

/-- A region that begins further up: it comes to stand where it is settled. -/
theorem rect_extendUp (s : ShownRegion) :
    (bounds.extendUp s.display s.region).1.rect =
        { bounds.rect with top := min bounds.rect.top (s.settle bounds.yPos).display.yPos } ∧
      (bounds.extendUp s.display s.region).2 = (s.settle bounds.yPos).display := by
  unfold Bounds.extendUp settle
  by_cases habove : s.display.yPos < bounds.yPos
  · by_cases hcross : bounds.yPos - s.display.yPos < s.region.height
    · rw [if_pos habove, if_pos hcross, if_pos ⟨habove, hcross⟩]
      refine ⟨?_, rfl⟩
      ext <;> simp [Bounds.rect]
    · rw [if_pos habove, if_neg hcross, if_neg fun h => hcross h.2]
      refine ⟨?_, rfl⟩
      ext <;> simp [Bounds.rect, min_eq_right habove.le]
      ring
  · rw [if_neg habove, if_neg fun h => habove h.1]
    refine ⟨?_, rfl⟩
    ext <;> simp [Bounds.rect, not_lt.mp habove]

end Grow

/-- **A pass of the first loop** makes room for the region where it comes to stand. -/
theorem extend_eq {bounds : Bounds} (hx : 0 ≤ bounds.xPos) (s : ShownRegion) :
    (bounds.extend s.display s.region).1.rect = bounds.rect ⊔ (s.settle bounds.yPos).rect ∧
      (bounds.extend s.display s.region).2 = (s.settle bounds.yPos).display := by
  rw [Bounds.extend, if_neg (by omega)]
  dsimp only
  have hleft := rect_growLeft bounds s.display.xPos
  generalize (if s.display.xPos < bounds.xPos then
    { bounds with width := bounds.width + (bounds.xPos - s.display.xPos)
                  xPos := s.display.xPos } else bounds) = sides at hleft ⊢
  have htop : sides.yPos = bounds.yPos := congrArg Rect.top hleft
  obtain ⟨hup, hmoved⟩ := rect_extendUp sides s
  rw [htop] at hup hmoved
  refine ⟨?_, hmoved⟩
  rw [rect_growDown, rect_growRight, hup, hmoved, hleft]
  ext <;> simp [Bounds.rect, ShownRegion.rect]

theorem boundDisplays_cons {ctx : DVBSubContext} {display : DVBSubRegionDisplay}
    {region : DVBSubRegion} (h : ctx.getRegion display.regionId = some region)
    (rest : List DVBSubRegionDisplay) (bounds : Bounds) :
    boundDisplays ctx (display :: rest) bounds =
      ((boundDisplays ctx rest (bounds.extend display region).1).1,
        (bounds.extend display region).2 ::
          (boundDisplays ctx rest (bounds.extend display region).1).2) := by
  rw [boundDisplays, h]

/-- **The first loop** goes on to the hull of the regions as they come to stand. -/
theorem boundDisplays_eq {ctx : DVBSubContext} {displays : List DVBSubRegionDisplay}
    {shown : List ShownRegion} (h : Shows ctx displays shown)
    (hleft : ∀ display ∈ displays, 0 ≤ display.xPos) {bounds : Bounds} (hx : 0 ≤ bounds.xPos) :
    ∃ result : Bounds, boundDisplays ctx displays bounds =
        (some result, (settleAll bounds.yPos shown).map display) ∧
      result.rect = hull bounds.rect ((settleAll bounds.yPos shown).map rect) ∧
        0 ≤ result.xPos := by
  induction h generalizing bounds with
  | nil => exact ⟨bounds, rfl, rfl, hx⟩
  | @cons display s rest shown hshow hrest ih =>
    obtain ⟨rfl, hregion⟩ := hshow
    obtain ⟨hleft, hlefts⟩ := List.forall_mem_cons.mp hleft
    obtain ⟨hgrow, hmoved⟩ := extend_eq hx s
    have hxPos : (bounds.extend s.display s.region).1.xPos = min bounds.xPos s.display.xPos := by
      simpa [Bounds.rect, ShownRegion.rect] using congrArg Rect.left hgrow
    have hyPos : (bounds.extend s.display s.region).1.yPos =
        min bounds.yPos (s.settle bounds.yPos).display.yPos := congrArg Rect.top hgrow
    obtain ⟨result, heq, hresult, hx⟩ := ih hlefts (hxPos ▸ le_min hx hleft)
    rw [hyPos] at heq hresult
    refine ⟨result, ?_, ?_, hx⟩
    · rw [boundDisplays_cons hregion, heq, hmoved, settleAll, List.map_cons]
    · rw [settleAll, List.map_cons, hull_cons, ← hgrow, hresult]

/-- The first loop from its start. -/
theorem boundDisplays_start {ctx : DVBSubContext} {displays : List DVBSubRegionDisplay}
    {shown : List ShownRegion} (h : Shows ctx displays shown)
    (hleft : ∀ display ∈ displays, 0 ≤ display.xPos) (hne : shown ≠ []) :
    ∃ result : Bounds, boundDisplays ctx displays ⟨-1, -1, 0, 0⟩ =
        (some result, (settled shown).map display) ∧
      result.rect = picture (settled shown) ∧ 0 ≤ result.xPos := by
  cases h with
  | nil => exact absurd rfl hne
  | @cons display s rest shown hshow hrest =>
    obtain ⟨rfl, hregion⟩ := hshow
    obtain ⟨hleft, hlefts⟩ := List.forall_mem_cons.mp hleft
    obtain ⟨result, heq, hresult, hx⟩ := @boundDisplays_eq ctx rest shown hrest hlefts
      ⟨s.display.xPos, s.display.yPos, s.region.width, s.region.height⟩ hleft
    refine ⟨result, ?_, hresult, hx⟩
    rw [boundDisplays_cons hregion]
    simp only [Bounds.extend, if_true]
    rw [heq, settled, List.map_cons]

/-- The first loop comes to its end only where every region is there. -/
theorem exists_shows {ctx : DVBSubContext} {displays : List DVBSubRegionDisplay}
    {bounds result : Bounds} (h : (boundDisplays ctx displays bounds).1 = some result) :
    ∃ shown, Shows ctx displays shown := by
  induction displays generalizing bounds with
  | nil => exact ⟨[], .nil⟩
  | cons display rest ih =>
    cases hregion : ctx.getRegion display.regionId with
    | none => simp [boundDisplays, hregion] at h
    | some region =>
      rw [boundDisplays_cons hregion] at h
      obtain ⟨shown, hshown⟩ := ih h
      exact ⟨⟨display, region⟩ :: shown, .cons ⟨rfl, hregion⟩ hshown⟩

theorem Shows.eq_nil_iff {ctx : DVBSubContext} {displays : List DVBSubRegionDisplay}
    {shown : List ShownRegion} (h : Shows ctx displays shown) :
    shown = [] ↔ displays = [] := by
  cases h <;> simp

/-- The regions of the displays are those of the context where they come to stand. -/
theorem Shows.settled {ctx : DVBSubContext} {displays : List DVBSubRegionDisplay}
    {shown : List ShownRegion} (h : Shows ctx displays shown) :
    ∀ s ∈ ShownRegion.settled shown, ctx.getRegion s.display.regionId = some s.region := by
  have hall : ∀ s ∈ shown, ctx.getRegion s.display.regionId = some s.region := by
    induction h with
    | nil => simp
    | cons hshow _ ih => exact List.forall_mem_cons.mpr ⟨hshow.1 ▸ hshow.2, ih⟩
  have hsettle : ∀ (l : List ShownRegion) (top : ℤ),
      (∀ s ∈ l, ctx.getRegion s.display.regionId = some s.region) →
        ∀ s ∈ settleAll top l, ctx.getRegion s.display.regionId = some s.region := by
    intro l
    induction l with
    | nil => simp [settleAll]
    | cons s l ih =>
      intro top hl
      obtain ⟨hs, hl⟩ := List.forall_mem_cons.mp hl
      exact List.forall_mem_cons.mpr ⟨by simpa using hs, ih _ hl⟩
  cases shown with
  | nil => simp [ShownRegion.settled]
  | cons s rest =>
    obtain ⟨hs, hrest⟩ := List.forall_mem_cons.mp hall
    exact List.forall_mem_cons.mpr ⟨hs, hsettle rest _ hrest⟩

/-! ## What is drawn -/

namespace ShownRegion

/-- The check that the code makes of a region before it draws it. -/
def PassesCheck (ctx : DVBSubContext) (picture : Rect ℤ) (s : ShownRegion) : Prop :=
  (ctx.getClut s.region.clut).isSome ∧
    asUnsigned 32 ((s.region.height - 1 + (s.display.yPos - picture.top)) * picture.width * 4 +
      (s.display.xPos - picture.left + s.region.width - 1) * 4 + 3) < DVB_SUB_SIZE ∧
    s.region.height ≤ 1080 ∧ s.region.width ≤ 1920

instance (ctx : DVBSubContext) (picture : Rect ℤ) (s : ShownRegion) :
    Decidable (PassesCheck ctx picture s) := by
  unfold PassesCheck
  infer_instance

/-- The regions that are drawn: those before the first one that does not pass the check. -/
def drawn (ctx : DVBSubContext) (l : List ShownRegion) : List ShownRegion :=
  l.takeWhile fun s => PassesCheck ctx (picture l) s

/-- The place in the picture of the first pixel of a region. -/
def first (picture : Rect ℤ) (s : ShownRegion) : ℤ :=
  (s.rect.top - picture.top) * picture.width + (s.rect.left - picture.left)

/-- The place in the picture of the last pixel of a region. -/
def last (picture : Rect ℤ) (s : ShownRegion) : ℤ :=
  (s.rect.bottom - 1 - picture.top) * picture.width + (s.rect.right - 1 - picture.left)

/-- A region where it is drawn. -/
def place (picture : Rect ℤ) (s : ShownRegion) : DVBSubRegion × ℤ × ℤ × ℤ :=
  (s.region, s.display.xPos - picture.left, s.display.yPos - picture.top, picture.width)

end ShownRegion

/-- A region where it is drawn. -/
def Composition.place (c : Composition) : DVBSubRegion × ℤ × ℤ × ℤ :=
  (c.region, c.xOff, c.yOff, c.width)

/-- **The second loop** draws the regions before the first that does not pass. -/
theorem drawDisplays_eq {ctx : DVBSubContext} (bounds : Bounds) {l : List ShownRegion}
    (h : ∀ s ∈ l, ctx.getRegion s.display.regionId = some s.region) :
    (drawDisplays ctx bounds (l.map display)).map Composition.place =
      (l.takeWhile fun s => PassesCheck ctx bounds.rect s).map
        (ShownRegion.place bounds.rect) := by
  induction l with
  | nil => rfl
  | cons s l ih =>
    obtain ⟨hs, hl⟩ := List.forall_mem_cons.mp h
    rw [List.map_cons, drawDisplays, hs, List.takeWhile_cons]
    dsimp only
    cases hclut : ctx.getClut s.region.clut with
    | none => simp [PassesCheck, hclut]
    | some clut =>
      dsimp only
      by_cases hcheck : PassesCheck ctx bounds.rect s
      · have hpass := hcheck
        rw [PassesCheck, bounds.width_rect] at hpass
        obtain ⟨-, hsize, hheight, hwidth⟩ := hpass
        rw [if_neg, List.map_cons, ih hl, decide_eq_true hcheck, if_pos rfl, List.map_cons]
        · rw [ShownRegion.place, bounds.width_rect]
          rfl
        · rintro (hle | hlt | hlt)
          · exact absurd hsize (not_lt.mpr hle)
          · omega
          · omega
      · rw [if_pos, decide_eq_false hcheck]
        · rfl
        · by_contra hno
          push Not at hno
          refine hcheck ⟨by simp [hclut], ?_, hno.2.1, hno.2.2⟩
          rw [bounds.width_rect]
          exact hno.1

theorem length_putWords (data : List UInt8) (writes : List (ℤ × UInt32)) :
    (writes.foldl putWord data).length = data.length := by
  induction writes generalizing data with
  | nil => rfl
  | cons write writes ih =>
    rw [List.foldl_cons, ih]
    exact length_storeBytes _ _ _

/-- The size of the buffers for a picture, an `int`. -/
def bufferSizeOf (picture : Rect ℤ) : ℤ := asSigned 32 (picture.width * picture.height * 4)

/-- **`saveResult2Spu`** allocates the buffers for the hull, or fails to, and draws. -/
theorem saveResult2Spu_drawn {ctx : DVBSubContext} {shown : List ShownRegion}
    (h : Shows ctx ctx.displayList shown) (hleft : ∀ display ∈ ctx.displayList, 0 ≤ display.xPos)
    (hne : shown ≠ []) (spu : DvbSpu) :
    (bufferSizeOf (picture (settled shown)) < 0 → (saveResult2Spu ctx spu).composed = []) ∧
      (0 ≤ bufferSizeOf (picture (settled shown)) →
        (saveResult2Spu ctx spu).composed.map Composition.place =
            (drawn ctx (settled shown)).map (ShownRegion.place (picture (settled shown))) ∧
          ∃ data, (saveResult2Spu ctx spu).spu.spuData = some data ∧
            (data.length : ℤ) = bufferSizeOf (picture (settled shown))) := by
  obtain ⟨bounds, hbounds, hrect, hx⟩ := boundDisplays_start h hleft hne
  have hsize : bufferSizeOf (picture (settled shown)) =
      asSigned 32 (bounds.width * bounds.height * 4) := by
    rw [bufferSizeOf, ← hrect, bounds.width_rect, bounds.height_rect]
  rw [hsize]
  unfold saveResult2Spu
  rw [hbounds]
  dsimp only
  rw [if_neg (not_lt.mpr hx)]
  constructor
  · intro hneg
    rw [if_pos hneg]
  · intro hnonneg
    rw [if_neg (not_lt.mpr hnonneg)]
    constructor
    · refine (@drawDisplays_eq { ctx with displayList := (settled shown).map display } bounds _
        h.settled).trans ?_
      rw [hrect]
      rfl
    · refine ⟨_, rfl, ?_⟩
      rw [length_putWords, List.length_replicate, asUnsigned_eq_asSigned hnonneg]

/-! ## The words written -/

/-- A word written at a place in the picture lies in the two buffers: as an element of the one,
and byte by byte in the other. -/
structure WordInside (size i : ℤ) : Prop where
  word : 0 ≤ asSigned 32 i ∧ 4 * asSigned 32 i + 4 ≤ size
  bytes : ∀ k : ℕ, k < 4 → 0 ≤ asSigned 32 (4 * i + k) ∧ asSigned 32 (4 * i + k) < size

theorem wordInside_iff {size i : ℤ} (hsize : size ≤ 2 ^ 31) :
    WordInside size i ↔ ∃ m : ℤ, m * 2 ^ 32 ≤ i ∧ i < m * 2 ^ 32 + size / 4 := by
  have hwindow := @asSigned_window 32 i (size / 4) (by omega)
  constructor
  · intro h
    obtain ⟨hzero, hlt⟩ := h.word
    exact hwindow.mp ⟨hzero, by omega⟩
  · rintro ⟨m, hle, hlt⟩
    obtain ⟨hzero, hlt'⟩ := hwindow.mpr ⟨m, hle, hlt⟩
    refine ⟨⟨hzero, by omega⟩, fun k hk => ?_⟩
    exact (asSigned_window (by omega)).mpr ⟨4 * m, by omega, by omega⟩

/-- The rows of a region lie in one window where its first and its last pixel do. -/
theorem rows_window {M size W first : ℤ} (hM : size ≤ M) (hW : 0 ≤ W) (hgap : W ≤ M - size)
    (hone : 1 ≤ M - size) {width height : ℕ} (hwidth : 0 < width) (hheight : 0 < height) :
    (∀ y < height, ∀ x < width, ∃ m : ℤ, m * M ≤ first + y * W + x ∧
        first + y * W + x < m * M + size) ↔
      ∃ m : ℤ, m * M ≤ first ∧ first + (height - 1) * W + (width - 1) < m * M + size := by
  constructor
  · -- down the first column, then along the last row
    intro h
    obtain ⟨m, hm⟩ := @same_window
      (fun k => first + (min k (height - 1) : ℕ) * W + (k - (height - 1) : ℕ)) M size hM
      (height - 1 + (width - 1)) (fun k hk => by
        rcases Nat.lt_or_ge k (height - 1) with hcolumn | hrow
        · rw [min_eq_left hcolumn.le, min_eq_left (Nat.succ_le_of_lt hcolumn),
            Nat.sub_eq_zero_of_le hcolumn.le, Nat.sub_eq_zero_of_le hcolumn]
          push_cast
          rw [add_mul, one_mul]
          omega
        · rw [min_eq_right hrow, min_eq_right (by omega), Nat.succ_sub hrow]
          push_cast
          constructor <;> omega) (fun k hk => h _ (by omega) _ (by omega))
    refine ⟨m, ?_, ?_⟩
    · simpa using (hm 0 (Nat.zero_le _)).1
    · have hlast := (hm _ le_rfl).2
      rw [min_eq_right (Nat.le_add_right _ _), Nat.add_sub_cancel_left] at hlast
      push_cast [Nat.cast_sub (show 1 ≤ height from hheight),
        Nat.cast_sub (show 1 ≤ width from hwidth)] at hlast
      exact hlast
  · rintro ⟨m, hle, hlt⟩ y hy x hx
    have hrow : (y : ℤ) * W ≤ (height - 1) * W := mul_le_mul_of_nonneg_right (by omega) hW
    have hzero : 0 ≤ (y : ℤ) * W := mul_nonneg (by omega) hW
    exact ⟨m, by omega, by omega⟩

/-! ## Contexts -/

/-- Where the displays of a page stand: the one behind `n` others no further up than `n` times
the greatest height. -/
def Stands : ℤ → List DVBSubRegionDisplay → Prop
  | _, [] => True
  | lowest, display :: rest =>
    (0 ≤ display.xPos ∧ display.xPos < 2 ^ 16 ∧ lowest ≤ display.yPos ∧ display.yPos < 2 ^ 16) ∧
      Stands (lowest - (2 ^ 16 - 1)) rest

/-- The sides of the region are 16 bits long. -/
structure ShortSides (region : DVBSubRegion) : Prop where
  width : region.width < 2 ^ 16
  height : region.height < 2 ^ 16

/-- What holds of the page in every context. -/
structure Placed (ctx : DVBSubContext) : Prop where
  regions : AllRegions ShortSides ctx
  length : ctx.displayList.length ≤ 10922
  stands : Stands 0 ctx.displayList

theorem Stands.xPos_nonneg {lowest : ℤ} {displays : List DVBSubRegionDisplay}
    (h : Stands lowest displays) : ∀ display ∈ displays, 0 ≤ display.xPos := by
  induction displays generalizing lowest with
  | nil => simp
  | cons display rest ih => exact List.forall_mem_cons.mpr ⟨h.1.1, ih h.2⟩

theorem Stands.within {lowest : ℤ} {displays : List DVBSubRegionDisplay}
    (h : Stands lowest displays) :
    ∀ display ∈ displays, 0 ≤ display.xPos ∧ display.xPos < 2 ^ 16 ∧
      lowest - (2 ^ 16 - 1) * displays.length ≤ display.yPos ∧ display.yPos < 2 ^ 16 := by
  induction displays generalizing lowest with
  | nil => simp
  | cons display rest ih =>
    refine List.forall_mem_cons.mpr ⟨?_, fun display' hmem => ?_⟩
    · obtain ⟨⟨hleft, hright, htop, hbottom⟩, -⟩ := h
      exact ⟨hleft, hright, by omega, hbottom⟩
    · obtain ⟨hleft, hright, htop, hbottom⟩ := ih h.2 display' hmem
      rw [List.length_cons]
      exact ⟨hleft, hright, by omega, hbottom⟩

/-- Displays as a page segment sets them stand. -/
theorem stands_of_nonneg {lowest : ℤ} (hlowest : lowest ≤ 0)
    {displays : List DVBSubRegionDisplay} (h : ∀ display ∈ displays,
      (0 ≤ display.xPos ∧ display.xPos < 2 ^ 16) ∧ 0 ≤ display.yPos ∧ display.yPos < 2 ^ 16) :
    Stands lowest displays := by
  induction displays generalizing lowest with
  | nil => trivial
  | cons display rest ih =>
    obtain ⟨⟨hx, hy⟩, hrest⟩ := List.forall_mem_cons.mp h
    exact ⟨⟨hx.1, hx.2, hlowest.trans hy.1, hy.2⟩, ih (by omega) hrest⟩

/-- A display that is settled still stands. -/
theorem settle_stands {top lowest : ℤ} (htop : lowest + (2 ^ 16 - 1) ≤ top) {s : ShownRegion}
    (hsides : ShortSides s.region) (h : lowest ≤ s.display.yPos) :
    lowest ≤ (s.settle top).display.yPos ∧ (s.settle top).display.yPos ≤ s.display.yPos := by
  have hheight := hsides.height
  rw [settle]
  split_ifs
  · dsimp only
    omega
  · omega

/-- The first loop keeps the displays of the page standing. -/
theorem boundDisplays_stands {ctx : DVBSubContext} (hregions : AllRegions ShortSides ctx)
    {displays : List DVBSubRegionDisplay} {bounds : Bounds} (hx : 0 ≤ bounds.xPos) {lowest : ℤ}
    (htop : lowest + (2 ^ 16 - 1) ≤ bounds.yPos) (h : Stands lowest displays) :
    Stands lowest (boundDisplays ctx displays bounds).2 := by
  induction displays generalizing bounds lowest with
  | nil => trivial
  | cons display rest ih =>
    cases hregion : ctx.getRegion display.regionId with
    | none =>
      rw [boundDisplays, hregion]
      exact h
    | some region =>
      rw [boundDisplays_cons hregion]
      obtain ⟨⟨hleft, hright, hlow, hbottom⟩, hrest⟩ := h
      obtain ⟨hgrow, hmoved⟩ := extend_eq hx ⟨display, region⟩
      obtain ⟨hlow', hdown⟩ := @settle_stands bounds.yPos lowest htop ⟨display, region⟩
        (hregions region (Keyed.mem_of_get hregion)) hlow
      have hxPos : (bounds.extend display region).1.xPos = min bounds.xPos display.xPos := by
        simpa [Bounds.rect, ShownRegion.rect] using congrArg Rect.left hgrow
      have hyPos : (bounds.extend display region).1.yPos =
          min bounds.yPos (settle bounds.yPos ⟨display, region⟩).display.yPos :=
        congrArg Rect.top hgrow
      refine ⟨?_, ih (hxPos ▸ le_min hx hleft) ?_ hrest⟩
      · rw [hmoved, settle_xPos]
        exact ⟨hleft, hright, hlow', hdown.trans_lt hbottom⟩
      · rw [hyPos, sub_add_cancel]
        exact le_min (by omega) hlow'

theorem boundDisplays_start_stands {ctx : DVBSubContext} (hregions : AllRegions ShortSides ctx)
    {displays : List DVBSubRegionDisplay} (h : Stands 0 displays) :
    Stands 0 (boundDisplays ctx displays ⟨-1, -1, 0, 0⟩).2 := by
  cases displays with
  | nil => trivial
  | cons display rest =>
    cases hregion : ctx.getRegion display.regionId with
    | none =>
      rw [boundDisplays, hregion]
      exact h
    | some region =>
      rw [boundDisplays_cons hregion]
      obtain ⟨hdisplay, hrest⟩ := h
      simp only [Bounds.extend, if_true]
      refine ⟨hdisplay, boundDisplays_stands hregions hdisplay.1 ?_ hrest⟩
      show 0 - (2 ^ 16 - 1) + (2 ^ 16 - 1) ≤ display.yPos
      omega

theorem length_boundDisplays (ctx : DVBSubContext) (displays : List DVBSubRegionDisplay)
    (bounds : Bounds) : (boundDisplays ctx displays bounds).2.length = displays.length := by
  induction displays generalizing bounds with
  | nil => rfl
  | cons display rest ih =>
    cases hregion : ctx.getRegion display.regionId with
    | none => rw [boundDisplays, hregion]
    | some region => rw [boundDisplays_cons hregion, List.length_cons, ih, List.length_cons]

/-- Composing keeps the page placed. -/
theorem Placed.saveResult2Spu {ctx : DVBSubContext} (h : Placed ctx) (spu : DvbSpu) :
    Placed (Dvb.saveResult2Spu ctx spu).ctx := by
  rw [saveResult2Spu_ctx]
  exact ⟨h.regions, (length_boundDisplays _ _ _).trans_le h.length,
    boundDisplays_start_stands h.regions h.stands⟩

/-- The displays of a page segment: as many as its bytes have room for. -/
theorem pageRegions_displayList (buf : Source) (bufEnd fuel : ℕ) {i : ℕ}
    {tmp : List DVBSubRegionDisplay} {ctx : DVBSubContext}
    (h : ∀ display ∈ ctx.displayList,
      (0 ≤ display.xPos ∧ display.xPos < 2 ^ 16) ∧ 0 ≤ display.yPos ∧ display.yPos < 2 ^ 16) :
    (∀ display ∈ (pageRegions buf bufEnd fuel i tmp ctx).displayList,
      (0 ≤ display.xPos ∧ display.xPos < 2 ^ 16) ∧ 0 ≤ display.yPos ∧ display.yPos < 2 ^ 16) ∧
    6 * (pageRegions buf bufEnd fuel i tmp ctx).displayList.length ≤
      6 * ctx.displayList.length + (bufEnd - i) := by
  induction fuel generalizing i tmp ctx with
  | zero => exact ⟨h, Nat.le_add_right _ _⟩
  | succ fuel ih =>
    rw [pageRegions]
    split_ifs with hmore
    · have hx := AV_RB16_lt buf (i + 2)
      have hy := AV_RB16_lt buf (i + 4)
      obtain ⟨hall, hlength⟩ := @ih (i + 6)
        (Keyed.remove DVBSubRegionDisplay.regionId tmp (buf i).toNat)
        { ctx with
          displayList :=
            { regionId := (buf i).toNat, xPos := AV_RB16 buf (i + 2), yPos := AV_RB16 buf (i + 4) }
              :: ctx.displayList
          displayListSize := ctx.displayListSize + 1 }
        (List.forall_mem_cons.mpr ⟨by dsimp only; omega, h⟩)
      refine ⟨hall, hlength.trans ?_⟩
      rw [List.length_cons]
      omega
    · exact ⟨h, Nat.le_add_right _ _⟩

/-- A page segment of a 16-bit length keeps the page placed. -/
theorem Placed.parsePageSegment {ctx : DVBSubContext} (h : Placed ctx) (buf : Source)
    {bufSize : ℕ} (hsize : bufSize < 2 ^ 16) : Placed (ctx.parsePageSegment buf bufSize) := by
  have hregions : AllRegions ShortSides (ctx.parsePageSegment buf bufSize) := by
    rcases regionList_parsePageSegment ctx buf bufSize with hall | hnil
    · intro region hmem
      exact h.regions region (hall ▸ hmem)
    · intro region hmem
      rw [hnil] at hmem
      cases hmem
  by_cases hempty : bufSize < 1
  · rw [DVBSubContext.parsePageSegment, if_pos hempty]
    exact h
  · obtain ⟨hall, hlength⟩ := @pageRegions_displayList buf bufSize bufSize 2
      (ctx.startPage buf).displayList
      { ctx.startPage buf with displayList := [], displayListSize := 0 } (by simp)
    rw [DVBSubContext.parsePageSegment, if_neg hempty] at hregions ⊢
    dsimp only at hregions hall hlength ⊢
    refine ⟨hregions, ?_, stands_of_nonneg le_rfl hall⟩
    rw [List.length_nil] at hlength
    omega

/-! ## Displays of the page in the other segments -/

theorem displayList_unlinkFromObject (ctx : DVBSubContext) (p : ℕ)
    (display : DVBSubObjectDisplay) :
    (ctx.unlinkFromObject p display).displayList = ctx.displayList := by
  have hdrop : ∀ (ctx : DVBSubContext) k,
      (ctx.dropEmptyObject k).displayList = ctx.displayList := by
    intro ctx k
    rw [dropEmptyObject]
    split
    · rfl
    · split <;> rfl
  rw [unlinkFromObject]
  split
  · rfl
  · split
    · rename_i link _
      rw [hdrop]
      cases link <;> rfl
    · rfl
    · rfl

theorem displayList_deleteRegionDisplayList (fuel : ℕ) (ctx : DVBSubContext) (q : Option ℕ) :
    (deleteRegionDisplayList fuel ctx q).displayList = ctx.displayList := by
  induction fuel generalizing ctx q with
  | zero => cases q <;> rfl
  | succ fuel ih =>
    cases q with
    | none => rfl
    | some p =>
      rw [deleteRegionDisplayList]
      split
      · rfl
      · rw [ih]
        exact displayList_unlinkFromObject _ _ _

theorem displayList_regionDisplays (buf : Source) (bufEnd regionId fuel i : ℕ)
    (ctx : DVBSubContext) :
    (regionDisplays buf bufEnd regionId fuel i ctx).displayList = ctx.displayList := by
  have hadd : ∀ (ctx : DVBSubContext) (objectId type : ℕ),
      (ctx.addObject objectId type).displayList = ctx.displayList := by
    intro ctx objectId type
    rw [addObject]
    split <;> rfl
  induction fuel generalizing i ctx with
  | zero => rfl
  | succ fuel ih =>
    rw [regionDisplays]
    split
    · rw [ih]
      exact hadd ctx (AV_RB16 buf i) ((buf (i + 2)).toNat >>> 6)
    · rfl

theorem displayList_parseRegionSegment (ctx : DVBSubContext) (buf : Source) (bufSize : ℕ) :
    (ctx.parseRegionSegment buf bufSize).displayList = ctx.displayList := by
  have hadd : (ctx.addRegion (buf 0).toNat).displayList = ctx.displayList := by
    rw [addRegion]
    split <;> rfl
  by_cases hsize : bufSize < 10
  · rw [parseRegionSegment, if_pos hsize]
  · cases hregion : (ctx.addRegion (buf 0).toNat).getRegion (buf 0).toNat with
    | none =>
      rw [parseRegionSegment, if_neg hsize]
      dsimp only
      rw [hregion]
      exact hadd
    | some region =>
      rw [parseRegionSegment_eq hsize hregion]
      split
      · rw [displayList_regionDisplays, displayList_deleteRegionDisplayList]
        exact hadd
      · exact hadd

theorem displayList_parsePixelDataBlock (ctx : DVBSubContext) (display : DVBSubObjectDisplay)
    (source : Source) (buf bufSize top_bottom nonMod : ℕ) :
    (parsePixelDataBlock ctx display source buf bufSize top_bottom nonMod).ctx.displayList =
      ctx.displayList := by
  rw [parsePixelDataBlock]
  cases ctx.getRegion display.regionId <;> rfl

theorem displayList_objectFields (source : Source) (buf topFieldLen nonMod fuel : ℕ)
    (ctx : DVBSubContext) (q : Option ℕ) (bottomFieldLen : ℕ) :
    (objectFields source buf topFieldLen nonMod fuel ctx q bottomFieldLen).ctx.displayList =
      ctx.displayList := by
  induction fuel generalizing ctx q bottomFieldLen with
  | zero => cases q <;> rfl
  | succ fuel ih =>
    cases q with
    | none => rfl
    | some p =>
      rw [objectFields]
      cases ctx.displays p with
      | none => rfl
      | some display =>
        dsimp only
        split_ifs
        · exact displayList_parsePixelDataBlock _ _ _ _ _ _ _
        · exact (displayList_parsePixelDataBlock _ _ _ _ _ _ _).trans
            (displayList_parsePixelDataBlock _ _ _ _ _ _ _)
        · dsimp only
          rw [ih, displayList_parsePixelDataBlock, displayList_parsePixelDataBlock]

theorem displayList_parseObjectSegment (ctx : DVBSubContext) (source : Source) (bufSize : ℕ) :
    (parseObjectSegment ctx source bufSize).ctx.displayList = ctx.displayList := by
  rw [parseObjectSegment]
  cases ctx.getObject (AV_RB16 source 0) with
  | none => rfl
  | some object =>
    dsimp only
    split_ifs
    · rfl
    · exact displayList_objectFields _ _ _ _ _ _ _ _
    · rfl

/-! ## Runs -/

/-- The length of a segment is 16 bits long, as it is read from the packet. -/
def ShortSegment : Event → Prop
  | .segment _ segment => segment.segmentLength < 2 ^ 16
  | .updateParameter _ _ => True

theorem shortSegment_segmentAt (spu : DvbSpu) (pSrc : Source) (p : ℕ) :
    ShortSegment (.segment spu (segmentAt pSrc p)) := AV_RB16_lt pSrc (p + 4)

theorem shortSides_blocks : KeptByBlocks ShortSides fun _ => True :=
  fun _ _ _ _ _ _ _ hsides => ⟨⟨hsides.width, hsides.height⟩, fun _ _ => trivial⟩

theorem shortSides_exec (ctx : DVBSubContext) (event : Event) (h : AllRegions ShortSides ctx) :
    AllRegions ShortSides (exec ctx event) := by
  refine h.exec (fun _ _ hsides => ⟨hsides.width, hsides.height⟩)
    (fun _ => ⟨Nat.two_pow_pos 16, Nat.two_pow_pos 16⟩) shortSides_blocks event ?_
  rintro spu segment region rfl - -
  have hwidth := AV_RB16_lt segment.buf 2
  have hheight := AV_RB16_lt segment.buf 4
  rw [regionOf]
  split_ifs <;> exact ⟨hwidth, hheight⟩

/-- Every event keeps the page placed. -/
theorem placed_exec (ctx : DVBSubContext) (event : Event) (h : Placed ctx)
    (hshort : ShortSegment event) : Placed (exec ctx event) := by
  have hregions := shortSides_exec ctx event h.regions
  have hsame : (exec ctx event).displayList = ctx.displayList → Placed (exec ctx event) :=
    fun heq => ⟨hregions, by rw [heq]; exact h.length, by rw [heq]; exact h.stands⟩
  cases event with
  | updateParameter compositionId ancillaryId =>
    refine hsame ?_
    rw [exec, updateParameter]
    split <;> rfl
  | segment spu segment =>
    rw [exec] at hsame ⊢
    rcases decodeSegment_branches ctx spu segment with
      hpage | ⟨-, -, hregion⟩ | hclut | hdefinition | hobject | hend | hnone
    · rw [hpage]
      exact (h.parsePageSegment segment.buf hshort).saveResult2Spu _
    · refine hsame ?_
      rw [hregion]
      exact displayList_parseRegionSegment _ _ _
    · refine hsame ?_
      rw [hclut]
      rfl
    · refine hsame ?_
      rw [hdefinition]
      dsimp only
      rw [parseDisplayDefinitionSegment]
      dsimp only
      split_ifs <;> rfl
    · refine hsame ?_
      rw [hobject]
      exact displayList_parseObjectSegment _ _ _
    · rw [hend]
      exact h.saveResult2Spu _
    · refine hsame ?_
      rw [hnone]

theorem placed_run {events : List Event} (hshort : ∀ event ∈ events, ShortSegment event)
    {ctx : DVBSubContext} (h : Run.Reached exec init events ctx) : Placed ctx := by
  have hinit : Placed init := ⟨fun _ hmem => by (cases hmem), Nat.zero_le _, trivial⟩
  exact Run.invariant_of_meets (C := fun _ event => ShortSegment event) placed_exec hinit
    (Run.meets_of_forall hshort) h

/-- The contexts that a run reaches and composes a picture in: at the end of a display set, or
of a page segment that comes next. -/
def SavesIn (events : List Event) (ctx : DVBSubContext) : Prop :=
  ∃ before, Run.Reached exec init events before ∧
    (ctx = before ∨ ∃ segment : Segment, segment.segmentLength < 2 ^ 16 ∧
      ctx = before.parsePageSegment segment.buf segment.segmentLength)

theorem placed_savesIn {events : List Event} (hshort : ∀ event ∈ events, ShortSegment event)
    {ctx : DVBSubContext} (h : SavesIn events ctx) : Placed ctx := by
  obtain ⟨before, hreached, rfl | ⟨segment, hlength, rfl⟩⟩ := h
  · exact placed_run hshort hreached
  · exact (placed_run hshort hreached).parsePageSegment _ hlength

/-! ## The composition -/

/-- The place of a pixel in the picture, before it becomes an `int`. -/
def Composition.index (c : Composition) (cell : ℕ × ℕ) : ℤ :=
  (cell.1 + c.yOff) * c.width + c.xOff + cell.2

/-- The numbers of the rectangle are `int`s. -/
structure IntBounds (bounds : Bounds) : Prop where
  left : -2 ^ 31 ≤ bounds.xPos
  top : -2 ^ 31 ≤ bounds.yPos
  width : bounds.width < 2 ^ 31
  height : bounds.height < 2 ^ 31
  right : bounds.xPos + bounds.width < 2 ^ 31
  bottom : bounds.yPos + bounds.height < 2 ^ 31

/-- What composing a picture is to keep to. -/
structure ComposesInside (ctx : DVBSubContext) (spu : DvbSpu) : Prop where
  inside : ∀ bounds displays,
    boundDisplays ctx ctx.displayList ⟨-1, -1, 0, 0⟩ = (some bounds, displays) →
      ∀ display ∈ displays, ∀ region, ctx.getRegion display.regionId = some region →
        (ShownRegion.mk display region).rect ≤ bounds.rect
  ints : ∀ bounds displays,
    boundDisplays ctx ctx.displayList ⟨-1, -1, 0, 0⟩ = (some bounds, displays) → IntBounds bounds
  written : ∀ c ∈ (saveResult2Spu ctx spu).composed, ∀ data,
    (saveResult2Spu ctx spu).spu.spuData = some data →
      ∀ cell ∈ c.cells, WordInside data.length (c.index cell)

/-- The buffers' size is a negative `int`, and none is allocated; or else each region that is
drawn lies, from its first pixel to its last, in one of the windows of that size at the
multiples of `2 ^ 32`. -/
def PixelsInRange (ctx : DVBSubContext) : Prop :=
  ∀ shown, Shows ctx ctx.displayList shown →
    bufferSizeOf (picture (settled shown)) < 0 ∨
      ∀ s ∈ drawn ctx (settled shown), 0 < s.region.width → 0 < s.region.height →
        ∃ m : ℤ, m * 2 ^ 32 ≤ s.first (picture (settled shown)) ∧
          s.last (picture (settled shown)) <
            m * 2 ^ 32 + bufferSizeOf (picture (settled shown)) / 4

section Page

variable {ctx : DVBSubContext} {shown : List ShownRegion}

theorem picture_le {l : List ShownRegion} (hne : l ≠ []) {r : Rect ℤ}
    (h : ∀ s ∈ l, s.rect ≤ r) : picture l ≤ r := by
  cases l with
  | nil => exact absurd rfl hne
  | cons s rest =>
    obtain ⟨hs, hrest⟩ := List.forall_mem_cons.mp h
    exact hull_le_iff.mpr ⟨hs, by simpa using hrest⟩

theorem settled_ne_nil (hne : shown ≠ []) : settled shown ≠ [] := by
  cases shown with
  | nil => exact absurd rfl hne
  | cons s rest => simp [settled]

/-- Every region of a page that is placed comes to stand in a small part of the `int`s. -/
theorem Placed.rect_le (h : Placed ctx) (hshown : Shows ctx ctx.displayList shown) :
    ∀ s ∈ settled shown, s.rect ≤ ⟨0, -2 ^ 30, 2 ^ 17, 2 ^ 17⟩ := by
  intro s hs
  have hne : shown ≠ [] := by
    rintro rfl
    cases hs
  obtain ⟨bounds, hbounds, -⟩ := boundDisplays_start hshown h.stands.xPos_nonneg hne
  have hstands := boundDisplays_start_stands h.regions h.stands
  have hlength := length_boundDisplays ctx ctx.displayList ⟨-1, -1, 0, 0⟩
  rw [hbounds] at hstands hlength
  obtain ⟨hleft, hright, htop, hbottom⟩ := hstands.within _ (List.mem_map_of_mem hs)
  have hsides := h.regions _ (Keyed.mem_of_get (hshown.settled s hs))
  have hwidth := hsides.width
  have hheight := hsides.height
  have hmany := h.length
  rw [hlength] at htop
  refine ⟨hleft, ?_, ?_, ?_⟩ <;> simp only [ShownRegion.rect] <;> omega

/-- What the drawn regions write, in terms of the page. -/
theorem written_iff (hshown : Shows ctx ctx.displayList shown)
    (hleft : ∀ display ∈ ctx.displayList, 0 ≤ display.xPos) (hne : shown ≠ []) (spu : DvbSpu)
    (hsize : 0 ≤ bufferSizeOf (picture (settled shown))) :
    (∀ c ∈ (saveResult2Spu ctx spu).composed, ∀ data,
        (saveResult2Spu ctx spu).spu.spuData = some data →
          ∀ cell ∈ c.cells, WordInside data.length (c.index cell)) ↔
      ∀ s ∈ drawn ctx (settled shown), ∀ y < s.region.height, ∀ x < s.region.width,
        WordInside (bufferSizeOf (picture (settled shown)))
          (s.first (picture (settled shown)) + y * (picture (settled shown)).width + x) := by
  obtain ⟨hcomposed, data, hdata, hlength⟩ :=
    (saveResult2Spu_drawn hshown hleft hne spu).2 hsize
  set size := bufferSizeOf (picture (settled shown))
  let InBuffer : DVBSubRegion × ℤ × ℤ × ℤ → Prop := fun p =>
    ∀ y < p.1.height, ∀ x < p.1.width,
      WordInside size ((y + p.2.2.1) * p.2.2.2 + p.2.1 + x)
  have hwritten : (∀ c ∈ (saveResult2Spu ctx spu).composed, ∀ data,
      (saveResult2Spu ctx spu).spu.spuData = some data →
        ∀ cell ∈ c.cells, WordInside data.length (c.index cell)) ↔
      ∀ c ∈ (saveResult2Spu ctx spu).composed, InBuffer c.place := by
    refine forall₂_congr fun c _ => ?_
    rw [hdata]
    simp only [Option.some.injEq, forall_eq', hlength, Composition.cells, List.mem_flatMap,
      List.mem_map, List.mem_range, InBuffer, Composition.place, Composition.index]
    constructor
    · intro h y hy x hx
      exact h (y, x) ⟨y, hy, x, hx, rfl⟩
    · rintro h _ ⟨y, hy, x, hx, rfl⟩
      exact h y hy x hx
  have hmap : (∀ c ∈ (saveResult2Spu ctx spu).composed, InBuffer c.place) ↔
      ∀ s ∈ drawn ctx (settled shown), InBuffer (s.place (picture (settled shown))) := by
    rw [← List.forall_mem_map (f := Composition.place), hcomposed, List.forall_mem_map]
  rw [hwritten, hmap]
  refine forall₂_congr fun s _ => forall₂_congr fun y _ => forall₂_congr fun x _ => ?_
  have hindex : (y + (s.display.yPos - (picture (settled shown)).top)) *
      (picture (settled shown)).width + (s.display.xPos - (picture (settled shown)).left) + x =
        s.first (picture (settled shown)) + y * (picture (settled shown)).width + x := by
    simp only [ShownRegion.first, ShownRegion.rect]
    ring
  rw [← hindex]
  rfl

/-- The pixels of a region that is drawn. -/
theorem pixels_iff {picture : Rect ℤ} (hwidth : 0 ≤ picture.width)
    (hgap : picture.width ≤ 2 ^ 17) {size : ℤ} (hsize : size < 2 ^ 31) (s : ShownRegion) :
    (∀ y < s.region.height, ∀ x < s.region.width,
        WordInside size (s.first picture + y * picture.width + x)) ↔
      (0 < s.region.width → 0 < s.region.height →
        ∃ m : ℤ, m * 2 ^ 32 ≤ s.first picture ∧ s.last picture < m * 2 ^ 32 + size / 4) := by
  simp only [wordInside_iff hsize.le]
  by_cases hpixels : 0 < s.region.width ∧ 0 < s.region.height
  · obtain ⟨hw, hh⟩ := hpixels
    have hlast : s.last picture = s.first picture + (s.region.height - 1) * picture.width +
        (s.region.width - 1) := by
      simp only [ShownRegion.first, ShownRegion.last, ShownRegion.rect]
      ring
    rw [rows_window (by omega) hwidth (by omega) (by omega) hw hh, hlast]
    simp only [hw, hh, true_imp_iff]
  · refine iff_of_true (fun y hy x hx => ?_) fun hw hh => absurd ⟨hw, hh⟩ hpixels
    omega

/-- The rectangle holds every region of the page, and its numbers are `int`s. -/
theorem Placed.rectangle (h : Placed ctx) {bounds : Bounds}
    {displays : List DVBSubRegionDisplay}
    (hbounds : boundDisplays ctx ctx.displayList ⟨-1, -1, 0, 0⟩ = (some bounds, displays)) :
    (∀ display ∈ displays, ∀ region, ctx.getRegion display.regionId = some region →
      (ShownRegion.mk display region).rect ≤ bounds.rect) ∧ IntBounds bounds := by
  obtain ⟨shown, hshown⟩ := exists_shows (congrArg Prod.fst hbounds)
  by_cases hne : shown = []
  · rw [hshown.eq_nil_iff.mp hne] at hbounds
    obtain ⟨hsome, rfl⟩ := Prod.mk.inj hbounds
    obtain rfl := Option.some.inj hsome
    exact ⟨by simp, by constructor <;> decide⟩
  · obtain ⟨result, hresult, hrect, -⟩ := boundDisplays_start hshown h.stands.xPos_nonneg hne
    obtain ⟨hsome, rfl⟩ := Prod.mk.inj (hbounds.symm.trans hresult)
    obtain rfl := Option.some.inj hsome
    have hle := picture_le (settled_ne_nil hne) (h.rect_le hshown)
    rw [← hrect] at hle
    refine ⟨fun display hmem region hregion => ?_, ?_⟩
    · obtain ⟨s, hs, rfl⟩ := List.mem_map.mp hmem
      obtain rfl := Option.some.inj ((hshown.settled s hs).symm.trans hregion)
      exact hrect ▸ rect_le_picture hs
    · obtain ⟨hleft, htop, hright, hbottom⟩ := hle
      simp only [Bounds.rect] at hleft htop hright hbottom
      constructor <;> omega

/-- A page without displays, or with a display of a region that is not there, is not drawn. -/
theorem composed_eq_nil (h : ∀ shown, Shows ctx ctx.displayList shown → shown = [])
    (spu : DvbSpu) : (saveResult2Spu ctx spu).composed = [] := by
  unfold saveResult2Spu
  cases hbounds : boundDisplays ctx ctx.displayList ⟨-1, -1, 0, 0⟩ with
  | mk result displays =>
    cases result with
    | none => rfl
    | some bounds =>
      obtain ⟨shown, hshown⟩ := exists_shows (congrArg Prod.fst hbounds)
      have hnil := hshown.eq_nil_iff.mp (h shown hshown)
      rw [hnil] at hbounds
      obtain ⟨hsome, -⟩ := Prod.mk.inj hbounds
      obtain rfl := Option.some.inj hsome
      rfl

theorem composesInside_iff_of_placed (h : Placed ctx) (spu : DvbSpu) :
    ComposesInside ctx spu ↔ PixelsInRange ctx := by
  have hpage : ∀ shown, Shows ctx ctx.displayList shown → shown ≠ [] →
      ((∀ c ∈ (saveResult2Spu ctx spu).composed, ∀ data,
          (saveResult2Spu ctx spu).spu.spuData = some data →
            ∀ cell ∈ c.cells, WordInside data.length (c.index cell)) ↔
        (bufferSizeOf (picture (settled shown)) < 0 ∨
          ∀ s ∈ drawn ctx (settled shown), 0 < s.region.width → 0 < s.region.height →
            ∃ m : ℤ, m * 2 ^ 32 ≤ s.first (picture (settled shown)) ∧
              s.last (picture (settled shown)) <
                m * 2 ^ 32 + bufferSizeOf (picture (settled shown)) / 4)) := by
    intro shown hshown hne
    have hleft := h.stands.xPos_nonneg
    have hle := picture_le (settled_ne_nil hne) (h.rect_le hshown)
    obtain ⟨s, hs⟩ := List.exists_mem_of_ne_nil _ (settled_ne_nil hne)
    have hge := rect_le_picture hs
    have hwidth : 0 ≤ (picture (settled shown)).width ∧
        (picture (settled shown)).width ≤ 2 ^ 17 := by
      have hlefts := hge.1
      have hrights := hge.2.2.1
      have hpicture := hle.1
      have hpicture' := hle.2.2.1
      simp only [ShownRegion.rect, Rect.width] at *
      omega
    by_cases hneg : bufferSizeOf (picture (settled shown)) < 0
    · rw [(saveResult2Spu_drawn hshown hleft hne spu).1 hneg]
      exact iff_of_true (by simp) (.inl hneg)
    · have hint : bufferSizeOf (picture (settled shown)) < 2 ^ 31 := by
        have hlt : 2 * asSigned 32 ((picture (settled shown)).width *
            (picture (settled shown)).height * 4) < 2 ^ 32 := asSigned_lt 31 _
        rw [bufferSizeOf]
        omega
      rw [written_iff hshown hleft hne spu (not_lt.mp hneg), or_iff_right hneg]
      exact forall₂_congr fun s _ => pixels_iff hwidth.1 hwidth.2 hint s
  constructor
  · intro hcompose shown hshown
    by_cases hne : shown = []
    · rw [hne]
      exact .inr (by simp [settled, drawn])
    · exact (hpage shown hshown hne).mp hcompose.written
  · intro hrange
    refine ⟨fun bounds displays hbounds => (h.rectangle hbounds).1,
      fun bounds displays hbounds => (h.rectangle hbounds).2, ?_⟩
    by_cases hshown : ∃ shown, Shows ctx ctx.displayList shown ∧ shown ≠ []
    · obtain ⟨shown, hshown, hne⟩ := hshown
      exact (hpage shown hshown hne).mpr (hrange shown hshown)
    · push Not at hshown
      rw [composed_eq_nil hshown]
      simp

/-- A picture of less than `2 ^ 29` pixels is in range. -/
theorem pixelsInRange_of_area (harea : ∀ shown, Shows ctx ctx.displayList shown →
    (picture (settled shown)).width * (picture (settled shown)).height < 2 ^ 29) :
    PixelsInRange ctx := by
  intro shown hshown
  refine .inr fun s hs hw hh => ⟨0, ?_⟩
  have hmem := List.takeWhile_subset _ hs
  have hsmall := harea shown hshown
  obtain ⟨hleft, htop, hright, hbottom⟩ := rect_le_picture hmem
  generalize picture (settled shown) = p at *
  have hW : 0 ≤ p.width := by
    simp only [ShownRegion.rect, Rect.width] at *
    omega
  have hfirst : 0 ≤ (s.rect.top - p.top) * p.width := mul_nonneg (by omega) hW
  have hlast : (s.rect.bottom - 1 - p.top) * p.width ≤ (p.height - 1) * p.width := by
    refine mul_le_mul_of_nonneg_right ?_ hW
    rw [Rect.height]
    omega
  have hone : (p.height - 1) * p.width = p.width * p.height - p.width := by ring
  have hH : 0 ≤ p.height := by
    simp only [ShownRegion.rect, Rect.height] at *
    omega
  have harea := mul_nonneg hW hH
  have hsize : bufferSizeOf p = p.width * p.height * 4 := asSigned_eq (by omega) (by omega)
  rw [hsize]
  unfold ShownRegion.first ShownRegion.last
  simp only [ShownRegion.rect, Rect.width] at *
  constructor <;> omega

end Page

/-- **The picture of a page** lies in its buffers exactly when its pixels are in range: in every
context of a run that composes a picture. -/
theorem composesInside_iff {events : List Event} (hshort : ∀ event ∈ events, ShortSegment event)
    {ctx : DVBSubContext} (hctx : SavesIn events ctx) (spu : DvbSpu) :
    ComposesInside ctx spu ↔ PixelsInRange ctx :=
  composesInside_iff_of_placed (placed_savesIn hshort hctx) spu

/-- Two regions of one pixel, which a page shows at `(0, 0)` and at `(65535, 16383)`: the
buffers for the `2 ^ 30` pixels between them have `2 ^ 32` bytes, that is none. -/
def farCorners : List Event :=
  [.segment emptySpu (segmentOf DVBSUB_REGION_SEGMENT [1, 8, 0, 1, 0, 1, 0x0c, 0, 0xff, 0]),
    .segment emptySpu (segmentOf DVBSUB_REGION_SEGMENT [2, 8, 0, 1, 0, 1, 0x0c, 0, 0xff, 0]),
    .segment emptySpu (segmentOf DVBSUB_CLUT_SEGMENT [0, 0]),
    .segment emptySpu (segmentOf DVBSUB_PAGE_SEGMENT
      [5, 0, 2, 0, 0xff, 0xff, 0x3f, 0xff, 1, 0, 0, 0, 0, 0])]

theorem farCorners_short : ∀ event ∈ farCorners, ShortSegment event := by
  simp [farCorners, ShortSegment, segmentOf]

theorem farCorners_savesIn : SavesIn farCorners (farCorners.foldl exec init) :=
  ⟨_, Run.reached_last _ _, .inl rfl⟩

theorem composesInside_iff_farCorners :
    ComposesInside (farCorners.foldl exec init) emptySpu ↔
      PixelsInRange (farCorners.foldl exec init) :=
  composesInside_iff farCorners_short farCorners_savesIn emptySpu

/-- The pixel at `(0, 0)` is written all the same. -/
theorem not_composesInside_farCorners :
    ¬ ∀ events : List Event, (∀ event ∈ events, ShortSegment event) →
      ∀ ctx, SavesIn events ctx → ∀ spu, ComposesInside ctx spu := by
  intro h
  have hinside := h farCorners farCorners_short _ farCorners_savesIn emptySpu
  have hdata : (saveResult2Spu (farCorners.foldl exec init) emptySpu).spu.spuData = some [] := by
    decide +kernel
  have hcells : (saveResult2Spu (farCorners.foldl exec init) emptySpu).composed.map
      Composition.cells = [[(0, 0)]] := by decide +kernel
  obtain ⟨c, hc, hcell⟩ := List.mem_map.mp (hcells ▸ List.mem_singleton.mpr rfl :
    [(0, 0)] ∈ (saveResult2Spu (farCorners.foldl exec init) emptySpu).composed.map
      Composition.cells)
  have hword := (hinside.written c hc [] hdata (0, 0) (by rw [hcell]; simp)).word
  rw [List.length_nil] at hword
  omega

end Dvb
end AmlSubtitle
