import AmlSubtitle.Lib.Run
import AmlSubtitle.Parser.DvbPixel

/-!
# The DVB decoder

The rest of `DvbParser::decodeSubtitle`: object segments, which store pixels into the
regions, and the composition of the page's regions into one picture at the end of a
display set.

* `decodeSegment` is the `switch` over the segment types, and `exec` the decoder as a
  step function: its state is the context, and an event is a segment, with the item
  that is being filled, or a call of `updateParameter`.
* `decodeSubtitle` cuts a packet into segments.  `decodeSubtitle_run`: what it makes
  of the context is a run of `exec`.
* What is stored into the regions and what is looked up in the CLUTs is logged.

The parser is taken as running (`mState` is not `SUB_STOP`), and what it tells the
notifier is left out.
-/

namespace AmlSubtitle
namespace Dvb

open DVBSubContext Words

/-! ## Object segments -/

/-- `TOP_FIELD`. -/
def TOP_FIELD : ℕ := 0

/-- `BOTTOM_FIELD`. -/
def BOTTOM_FIELD : ℕ := 1

/-- A string stored into a region, with the region as it was before its block. -/
structure RegionStore where
  region : DVBSubRegion
  store : PixelStore

/-- A string of bytes stored one after the other; no byte of the buffer stands outside. -/
def storeBytes (pbuf : List UInt8) : ℤ → List UInt8 → List UInt8
  | _, [] => pbuf
  | offset, v :: bytes =>
    storeBytes (if 0 ≤ offset then pbuf.set offset.toNat v else pbuf) (offset + 1) bytes

/-- The buffer after the stores of a block. -/
def storeAll (pbuf : List UInt8) (stores : List PixelStore) : List UInt8 :=
  stores.foldl (fun pbuf store => storeBytes pbuf store.offset store.bytes) pbuf

/-- What an object segment does: the context, the value returned and what is stored. -/
structure ObjectResult where
  ctx : DVBSubContext
  ret : ℤ
  stores : List RegionStore

/-- `parsePixelDataBlock`. -/
def parsePixelDataBlock (ctx : DVBSubContext) (display : DVBSubObjectDisplay) (source : Source)
    (buf bufSize top_bottom nonMod : ℕ) : ObjectResult :=
  match ctx.getRegion display.regionId with
  | none => { ctx := ctx, ret := 0, stores := [] }
  | some region =>
    let (stores, ret) := pixelBlock region display source buf bufSize top_bottom nonMod
    { ctx := ctx.modifyRegion display.regionId fun region =>
        { region with pbuf := storeAll region.pbuf stores }
      ret := ret
      stores := stores.map fun store => { region := region, store := store } }

/-- Where the data of the bottom field is, and how long: without any the top field's is
read again. -/
def bottomField (buf topFieldLen bottomFieldLen : ℕ) : ℕ × ℕ :=
  if 0 < bottomFieldLen then (buf + topFieldLen, bottomFieldLen) else (buf, topFieldLen)

/-- The loop of `parseObjectSegment` over the displays of the object, of at most `fuel`
passes.  The length of the bottom field it sets stays set for the next display. -/
def objectFields (source : Source) (buf topFieldLen nonMod : ℕ) :
    ℕ → DVBSubContext → Option ℕ → ℕ → ObjectResult
  | _, ctx, none, _ => { ctx := ctx, ret := 0, stores := [] }
  | 0, ctx, some _, _ => { ctx := { ctx with dangling := true }, ret := 0, stores := [] }
  | fuel + 1, ctx, some p, bottomFieldLen =>
    match ctx.displays p with
    | none => { ctx := { ctx with dangling := true }, ret := 0, stores := [] }
    | some display =>
      let top := parsePixelDataBlock ctx display source buf topFieldLen TOP_FIELD nonMod
      if top.ret = -1 then
        top
      else
        let field := bottomField buf topFieldLen bottomFieldLen
        let bottom := parsePixelDataBlock top.ctx display source field.1 field.2 BOTTOM_FIELD nonMod
        if bottom.ret = -1 then
          { bottom with stores := top.stores ++ bottom.stores }
        else
          let rest := objectFields source buf topFieldLen nonMod fuel bottom.ctx
            display.objectListNext field.2
          { rest with stores := top.stores ++ bottom.stores ++ rest.stores }

/-- `parseObjectSegment`. -/
def parseObjectSegment (ctx : DVBSubContext) (source : Source) (bufSize : ℕ) : ObjectResult :=
  match ctx.getObject (AV_RB16 source 0) with
  | none => { ctx := ctx, ret := 0, stores := [] }
  | some object =>
    let codingMethod := ((source 2).toNat >>> 2) &&& 3
    let nonModifyingColor := ((source 2).toNat >>> 1) &&& 1
    if codingMethod = 0 then
      let topFieldLen := AV_RB16 source 3
      let bottomFieldLen := AV_RB16 source 5
      if bufSize < 7 + topFieldLen + bottomFieldLen then
        { ctx := ctx, ret := 0, stores := [] }
      else
        objectFields source 7 topFieldLen nonModifyingColor ctx.nextPtr ctx object.displayList
          bottomFieldLen
    else
      { ctx := ctx, ret := -1, stores := [] }

/-! ## The picture of a page -/

/-- The fields of `AML_SPUVAR` that the decoder fills, with the values they start with. -/
structure DvbSpu where
  pts : ℤ := 0
  mDelay : ℤ := 0
  bufferSize : ℕ := 0
  spuData : Option (List UInt8) := none
  spuWidth : ℕ := 0
  spuHeight : ℕ := 0
  spuStartX : ℕ := 0
  spuStartY : ℕ := 0
  spuOriginDisplayW : ℕ := 0
  spuOriginDisplayH : ℕ := 0
  deriving DecidableEq, Repr

/-- The rectangle `saveResult2Spu` computes; `xPos` is -1 before the first region. -/
structure Bounds where
  xPos : ℤ
  yPos : ℤ
  width : ℤ
  height : ℤ
  deriving DecidableEq, Repr

namespace Bounds

/-- A region that reaches above the rectangle: it may be moved. -/
def extendUp (bounds : Bounds) (display : DVBSubRegionDisplay) (region : DVBSubRegion) :
    Bounds × DVBSubRegionDisplay :=
  if display.yPos < bounds.yPos then
    if bounds.yPos - display.yPos < region.height then
      ({ bounds with
          height := bounds.height + region.height
          yPos := bounds.yPos - region.height },
        { display with yPos := bounds.yPos - region.height })
    else
      ({ bounds with
          height := bounds.height + (bounds.yPos - display.yPos)
          yPos := display.yPos }, display)
  else
    (bounds, display)

/-- The rectangle and the display of a region after a pass over the region. -/
def extend (bounds : Bounds) (display : DVBSubRegionDisplay) (region : DVBSubRegion) :
    Bounds × DVBSubRegionDisplay :=
  if bounds.xPos = -1 then
    ({ xPos := display.xPos, yPos := display.yPos, width := region.width, height := region.height },
      display)
  else
    let bounds :=
      if display.xPos < bounds.xPos then
        { bounds with
          width := bounds.width + (bounds.xPos - display.xPos)
          xPos := display.xPos }
      else
        bounds
    let (bounds, display) := bounds.extendUp display region
    let bounds :=
      if bounds.xPos + bounds.width < display.xPos + region.width then
        { bounds with width := display.xPos + region.width - bounds.xPos }
      else
        bounds
    let bounds :=
      if bounds.yPos + bounds.height < display.yPos + region.height then
        { bounds with height := display.yPos + region.height - bounds.yPos }
      else
        bounds
    (bounds, display)

end Bounds

/-- The first loop of `saveResult2Spu`: the rectangle, unless a region is missing, and the
page's list after it. -/
def boundDisplays (ctx : DVBSubContext) :
    List DVBSubRegionDisplay → Bounds → Option Bounds × List DVBSubRegionDisplay
  | [], bounds => (some bounds, [])
  | display :: rest, bounds =>
    match ctx.getRegion display.regionId with
    | none => (none, display :: rest)
    | some region =>
      let (bounds, display) := bounds.extend display region
      let (result, rest) := boundDisplays ctx rest bounds
      (result, display :: rest)

/-- `clut_table` for a region of a depth. -/
def clutTable (depth : ℕ) : ClutTable :=
  if depth = 2 then .clut4 else if depth = 8 then .clut256 else .clut16

/-- A region that is drawn: with its CLUT, its place in the picture and the picture's
width. -/
structure Composition where
  region : DVBSubRegion
  clut : DVBSubCLUT
  xOff : ℤ
  yOff : ℤ
  width : ℤ

namespace Composition

/-- The pixels of the region, row by row. -/
def cells (c : Composition) : List (ℕ × ℕ) :=
  (List.range c.region.height).flatMap fun y => (List.range c.region.width).map fun x => (y, x)

/-- `region->pbuf[y * region->width + x]`. -/
def pixel (c : Composition) (cell : ℕ × ℕ) : UInt8 :=
  c.region.pbuf.getD (cell.1 * c.region.width + cell.2) 0

/-- The indices looked up in the region's `clut_table`. -/
def lookups (c : Composition) : List ℕ := c.cells.map fun cell => (c.pixel cell).toNat

/-- The words stored into the picture, with their places in it before these become `int`s. -/
def writes (c : Composition) : List (ℤ × UInt32) :=
  c.cells.map fun cell =>
    ((cell.1 + c.yOff) * c.width + c.xOff + cell.2,
      c.clut.words.getD ((clutTable c.region.depth).start + (c.pixel cell).toNat) 0)

end Composition

/-- A word of the picture as the four bytes of `spu_data`, low byte first, whose offset is an
`int`; what lies outside `spu_data` is not part of it. -/
def putWord (data : List UInt8) (write : ℤ × UInt32) : List UInt8 :=
  storeBytes data (asSigned 32 (4 * write.1)) (leBytes 4 write.2.toNat)

/-- `DVB_SUB_SIZE`. -/
def DVB_SUB_SIZE : ℕ := 1920 * 1280 * 4

/-- The second loop of `saveResult2Spu`: the regions drawn until it returns. -/
def drawDisplays (ctx : DVBSubContext) (bounds : Bounds) :
    List DVBSubRegionDisplay → List Composition
  | [] => []
  | display :: rest =>
    match ctx.getRegion display.regionId with
    | none => []
    | some region =>
      match ctx.getClut region.clut with
      | none => []
      | some clut =>
        let xOff := display.xPos - bounds.xPos
        let yOff := display.yPos - bounds.yPos
        let check_err := asUnsigned 32 ((region.height - 1 + yOff) * bounds.width * 4 +
          (xOff + region.width - 1) * 4 + 3)
        if DVB_SUB_SIZE ≤ check_err ∨ 1080 < region.height ∨ 1920 < region.width then
          []
        else
          { region := region, clut := clut, xOff := xOff, yOff := yOff, width := bounds.width } ::
            drawDisplays ctx bounds rest

/-- What a segment does: the context, the item and the value returned, and the logs of
what is stored into regions and of the regions drawn. -/
structure SegmentResult where
  ctx : DVBSubContext
  spu : DvbSpu
  ret : ℤ
  stores : List RegionStore
  composed : List Composition

/-- The size and place of the picture in the item, and its origin display. -/
def placePicture (spu : DvbSpu) (displayDef : Option DVBSubDisplayDefinition) (bounds : Bounds) :
    DvbSpu :=
  let spu := { spu with
    spuWidth := asUnsigned 16 bounds.width
    spuHeight := asUnsigned 16 bounds.height
    spuStartX := asUnsigned 16 bounds.xPos
    spuStartY := asUnsigned 16 bounds.yPos }
  match displayDef with
  | none => spu
  | some displayDef =>
    if 0 ≤ displayDef.width ∧ 0 ≤ displayDef.height then
      { spu with
        spuOriginDisplayW := asUnsigned 32 displayDef.width
        spuOriginDisplayH := asUnsigned 32 displayDef.height }
    else
      spu

/-- `saveResult2Spu`. -/
def saveResult2Spu (ctx : DVBSubContext) (spu : DvbSpu) : SegmentResult :=
  let (result, displayList) :=
    boundDisplays ctx ctx.displayList { xPos := -1, yPos := -1, width := 0, height := 0 }
  let ctx := { ctx with displayList := displayList }
  match result with
  | none => { ctx := ctx, spu := spu, ret := 1, stores := [], composed := [] }
  | some bounds =>
    if bounds.xPos < 0 then
      { ctx := ctx, spu := spu, ret := 1, stores := [], composed := [] }
    else
      let size := bounds.width * bounds.height * 4
      let spu := { spu with bufferSize := asUnsigned 32 size }
      if asSigned 32 size < 0 then
        -- `malloc` fails
        { ctx := ctx, spu := spu, ret := 1, stores := [], composed := [] }
      else
        let composed := drawDisplays ctx bounds displayList
        let data := (composed.flatMap Composition.writes).foldl putWord
          (List.replicate (asUnsigned 32 size) 0)
        { ctx := ctx
          spu := { placePicture spu ctx.displayDefinition bounds with spuData := some data }
          ret := 1
          stores := []
          composed := composed }

/-- `displayEndSegment`. -/
def displayEndSegment (ctx : DVBSubContext) (spu : DvbSpu) : SegmentResult :=
  saveResult2Spu ctx { spu with mDelay := spu.pts + ctx.timeOut * 1000 * 90 }

/-! ## Segments -/

/-- `DVBSUB_PAGE_SEGMENT`. -/
def DVBSUB_PAGE_SEGMENT : ℕ := 0x10

/-- `DVBSUB_REGION_SEGMENT`. -/
def DVBSUB_REGION_SEGMENT : ℕ := 0x11

/-- `DVBSUB_CLUT_SEGMENT`. -/
def DVBSUB_CLUT_SEGMENT : ℕ := 0x12

/-- `DVBSUB_OBJECT_SEGMENT`. -/
def DVBSUB_OBJECT_SEGMENT : ℕ := 0x13

/-- `DVBSUB_DISPLAYDEFINITION_SEGMENT`. -/
def DVBSUB_DISPLAYDEFINITION_SEGMENT : ℕ := 0x14

/-- `DVBSUB_DISPLAY_SEGMENT`. -/
def DVBSUB_DISPLAY_SEGMENT : ℕ := 0x80

/-- `DVBSUB_ST_STUFFING`. -/
def DVBSUB_ST_STUFFING : ℕ := 0xff

/-- A segment, with its payload. -/
structure Segment where
  segmentType : ℕ
  pageId : ℕ
  segmentLength : ℕ
  buf : Source

/-- The page of a segment is one the decoder follows. -/
def followsPage (ctx : DVBSubContext) (pageId : ℕ) : Prop :=
  pageId = ctx.compositionId ∨ pageId = ctx.ancillaryId ∨ ctx.compositionId = -1 ∨
    ctx.ancillaryId = -1

instance (ctx : DVBSubContext) (pageId : ℕ) : Decidable (followsPage ctx pageId) := by
  unfold followsPage
  infer_instance

/-- The part of the second pass of `decodeSubtitle` that decodes a segment; `ret` is -1
where the function returns. -/
def decodeSegment (ctx : DVBSubContext) (spu : DvbSpu) (segment : Segment) : SegmentResult :=
  let unchanged (ctx : DVBSubContext) : SegmentResult :=
    { ctx := ctx, spu := spu, ret := 0, stores := [], composed := [] }
  if followsPage ctx segment.pageId then
    if segment.segmentType = DVBSUB_PAGE_SEGMENT then
      displayEndSegment (ctx.parsePageSegment segment.buf segment.segmentLength) spu
    else if segment.segmentType = DVBSUB_REGION_SEGMENT then
      unchanged (ctx.parseRegionSegment segment.buf segment.segmentLength)
    else if segment.segmentType = DVBSUB_CLUT_SEGMENT then
      unchanged (ctx.parseClutSegment segment.buf segment.segmentLength)
    else if segment.segmentType = DVBSUB_OBJECT_SEGMENT then
      let result := parseObjectSegment ctx segment.buf segment.segmentLength
      { ctx := result.ctx, spu := spu, ret := result.ret, stores := result.stores, composed := [] }
    else if segment.segmentType = DVBSUB_DISPLAYDEFINITION_SEGMENT then
      unchanged (ctx.parseDisplayDefinitionSegment segment.buf segment.segmentLength)
    else if segment.segmentType = DVBSUB_DISPLAY_SEGMENT then
      displayEndSegment ctx spu
    else if segment.segmentType = DVBSUB_ST_STUFFING then
      displayEndSegment ctx spu
    else
      unchanged ctx
  else
    unchanged ctx

/-- `updateParameter`: the pages to follow. -/
def updateParameter (ctx : DVBSubContext) (compositionId ancillaryId : ℤ) : DVBSubContext :=
  if compositionId ≤ 0 ∧ ancillaryId ≤ 0 then
    { ctx with compositionId := -1, ancillaryId := -1 }
  else
    { ctx with compositionId := compositionId, ancillaryId := ancillaryId }

/-- What changes the context: a segment that comes while an item is being filled, or new
parameters. -/
inductive Event where
  | segment (spu : DvbSpu) (segment : Segment)
  | updateParameter (compositionId ancillaryId : ℤ)

/-- The decoder as a step function on its context. -/
def exec (ctx : DVBSubContext) : Event → DVBSubContext
  | .segment spu segment => (decodeSegment ctx spu segment).ctx
  | .updateParameter compositionId ancillaryId =>
    Dvb.updateParameter ctx compositionId ancillaryId

/-! ## What a segment does -/

/-- Composing a display set moves displays of the page and nothing else. -/
theorem saveResult2Spu_ctx (ctx : DVBSubContext) (spu : DvbSpu) :
    (saveResult2Spu ctx spu).ctx = { ctx with
      displayList := (boundDisplays ctx ctx.displayList ⟨-1, -1, 0, 0⟩).2 } := by
  unfold saveResult2Spu
  dsimp only
  split
  · rfl
  · split_ifs <;> rfl

/-- The regions drawn are those of the context, each with the CLUT it names. -/
theorem mem_drawDisplays {ctx : DVBSubContext} {bounds : Bounds}
    {displays : List DVBSubRegionDisplay} {c : Composition}
    (h : c ∈ drawDisplays ctx bounds displays) :
    c.region ∈ ctx.regionList ∧ c.clut ∈ ctx.clutList ∧ c.region.height ≤ 1080 ∧
      c.region.width ≤ 1920 := by
  induction displays with
  | nil => cases h
  | cons display rest ih =>
    rw [drawDisplays] at h
    split at h
    · cases h
    · rename_i region hregion
      split at h
      · cases h
      · rename_i clut hclut
        dsimp only at h
        split at h
        · cases h
        · rename_i hcheck
          push Not at hcheck
          rcases List.mem_cons.mp h with rfl | h
          · exact ⟨Keyed.mem_of_get hregion, Keyed.mem_of_get hclut, hcheck.2.1, hcheck.2.2⟩
          · exact ih h

theorem mem_composed {ctx : DVBSubContext} {spu : DvbSpu} {c : Composition}
    (h : c ∈ (saveResult2Spu ctx spu).composed) :
    c.region ∈ ctx.regionList ∧ c.clut ∈ ctx.clutList ∧ c.region.height ≤ 1080 ∧
      c.region.width ≤ 1920 := by
  unfold saveResult2Spu at h
  dsimp only at h
  split at h
  · cases h
  · split_ifs at h
    · cases h
    · cases h
    · rename_i bounds _ _ _
      have hdraw : ∃ displays, c ∈ drawDisplays { ctx with displayList := displays } bounds
          displays := ⟨_, h⟩
      obtain ⟨displays, hdraw⟩ := hdraw
      have hmem := mem_drawDisplays hdraw
      exact hmem

/-- What a segment does, by its type. -/
theorem decodeSegment_branches (ctx : DVBSubContext) (spu : DvbSpu) (segment : Segment) :
    decodeSegment ctx spu segment =
      displayEndSegment (ctx.parsePageSegment segment.buf segment.segmentLength) spu ∨
    (segment.segmentType = DVBSUB_REGION_SEGMENT ∧ followsPage ctx segment.pageId ∧
      decodeSegment ctx spu segment =
        ⟨ctx.parseRegionSegment segment.buf segment.segmentLength, spu, 0, [], []⟩) ∨
    decodeSegment ctx spu segment =
      ⟨ctx.parseClutSegment segment.buf segment.segmentLength, spu, 0, [], []⟩ ∨
    decodeSegment ctx spu segment =
      ⟨ctx.parseDisplayDefinitionSegment segment.buf segment.segmentLength, spu, 0, [], []⟩ ∨
    decodeSegment ctx spu segment =
      ⟨(parseObjectSegment ctx segment.buf segment.segmentLength).ctx, spu,
        (parseObjectSegment ctx segment.buf segment.segmentLength).ret,
        (parseObjectSegment ctx segment.buf segment.segmentLength).stores, []⟩ ∨
    decodeSegment ctx spu segment = displayEndSegment ctx spu ∨
    decodeSegment ctx spu segment = ⟨ctx, spu, 0, [], []⟩ := by
  unfold decodeSegment
  dsimp only
  by_cases hpage : followsPage ctx segment.pageId
  · rw [if_pos hpage]
    by_cases htype : segment.segmentType = DVBSUB_PAGE_SEGMENT
    · exact Or.inl (if_pos htype)
    rw [if_neg htype]
    by_cases hregion : segment.segmentType = DVBSUB_REGION_SEGMENT
    · exact Or.inr (Or.inl ⟨hregion, hpage, if_pos hregion⟩)
    rw [if_neg hregion]
    refine Or.inr (Or.inr ?_)
    by_cases hclut : segment.segmentType = DVBSUB_CLUT_SEGMENT
    · exact Or.inl (if_pos hclut)
    rw [if_neg hclut]
    by_cases hobject : segment.segmentType = DVBSUB_OBJECT_SEGMENT
    · exact Or.inr (Or.inr (Or.inl (if_pos hobject)))
    rw [if_neg hobject]
    by_cases hdefinition : segment.segmentType = DVBSUB_DISPLAYDEFINITION_SEGMENT
    · exact Or.inr (Or.inl (if_pos hdefinition))
    rw [if_neg hdefinition]
    refine Or.inr (Or.inr (Or.inr ?_))
    by_cases hdisplay : segment.segmentType = DVBSUB_DISPLAY_SEGMENT
    · exact Or.inl (if_pos hdisplay)
    rw [if_neg hdisplay]
    by_cases hstuffing : segment.segmentType = DVBSUB_ST_STUFFING
    · exact Or.inl (if_pos hstuffing)
    · exact Or.inr (if_neg hstuffing)
  · rw [if_neg hpage]
    exact Or.inr (Or.inr (Or.inr (Or.inr (Or.inr (Or.inr rfl)))))

/-- What a segment can do to the context. -/
theorem decodeSegment_cases (ctx : DVBSubContext) (spu : DvbSpu) (segment : Segment) :
    (∃ displays, (decodeSegment ctx spu segment).ctx = { ctx with displayList := displays }) ∨
    (∃ displays, (decodeSegment ctx spu segment).ctx =
      { ctx.parsePageSegment segment.buf segment.segmentLength with displayList := displays }) ∨
    (segment.segmentType = DVBSUB_REGION_SEGMENT ∧ followsPage ctx segment.pageId ∧
      (decodeSegment ctx spu segment).ctx =
        ctx.parseRegionSegment segment.buf segment.segmentLength) ∨
    (decodeSegment ctx spu segment).ctx =
      ctx.parseClutSegment segment.buf segment.segmentLength ∨
    (decodeSegment ctx spu segment).ctx =
      ctx.parseDisplayDefinitionSegment segment.buf segment.segmentLength ∨
    (decodeSegment ctx spu segment).ctx =
      (parseObjectSegment ctx segment.buf segment.segmentLength).ctx := by
  rcases decodeSegment_branches ctx spu segment with
    hpage | ⟨hregion, hfollows, hresult⟩ | hclut | hdefinition | hobject | hend | hnone
  · rw [hpage, displayEndSegment, saveResult2Spu_ctx]
    exact Or.inr (Or.inl ⟨_, rfl⟩)
  · rw [hresult]
    exact Or.inr (Or.inr (Or.inl ⟨hregion, hfollows, rfl⟩))
  · rw [hclut]
    exact Or.inr (Or.inr (Or.inr (Or.inl rfl)))
  · rw [hdefinition]
    exact Or.inr (Or.inr (Or.inr (Or.inr (Or.inl rfl))))
  · rw [hobject]
    exact Or.inr (Or.inr (Or.inr (Or.inr (Or.inr rfl))))
  · rw [hend, displayEndSegment, saveResult2Spu_ctx]
    exact Or.inl ⟨_, rfl⟩
  · rw [hnone]
    exact Or.inl ⟨ctx.displayList, rfl⟩

/-- Regions are drawn at the end of a display set, and of a page segment. -/
theorem decodeSegment_composed (ctx : DVBSubContext) (spu : DvbSpu) (segment : Segment) :
    (decodeSegment ctx spu segment).composed = [] ∨
    ∃ ctx' spu', (ctx' = ctx ∨
        ctx' = ctx.parsePageSegment segment.buf segment.segmentLength) ∧
      (decodeSegment ctx spu segment).composed = (saveResult2Spu ctx' spu').composed := by
  rcases decodeSegment_branches ctx spu segment with
    hpage | ⟨-, -, hregion⟩ | hclut | hdefinition | hobject | hend | hnone
  · rw [hpage]
    exact Or.inr ⟨_, _, Or.inr rfl, rfl⟩
  · rw [hregion]
    exact Or.inl rfl
  · rw [hclut]
    exact Or.inl rfl
  · rw [hdefinition]
    exact Or.inl rfl
  · rw [hobject]
    exact Or.inl rfl
  · rw [hend]
    exact Or.inr ⟨_, _, Or.inl rfl, rfl⟩
  · rw [hnone]
    exact Or.inl rfl

/-! ## Packets -/

/-- The segment whose sync byte is at `p`. -/
def segmentAt (pSrc : Source) (p : ℕ) : Segment where
  segmentType := (pSrc (p + 1)).toNat
  pageId := AV_RB16 pSrc (p + 2)
  segmentLength := AV_RB16 pSrc (p + 4)
  buf := fun i => pSrc (p + 6 + i)

/-- The first pass of `decodeSubtitle`, of at most `fuel` segments: no segment is cut off. -/
def checkSegments (pSrc : Source) (size : ℕ) : ℕ → ℕ → Bool
  | 0, _ => true
  | fuel + 1, p =>
    if p + 6 ≤ size ∧ pSrc p = 0x0f then
      if size < p + 6 + (segmentAt pSrc p).segmentLength then
        false
      else
        checkSegments pSrc size fuel (p + 6 + (segmentAt pSrc p).segmentLength)
    else
      true

/-- The second pass of `decodeSubtitle`, of at most `fuel` segments; `ret` is the value the
function returns. -/
def decodeSegments (pSrc : Source) (size : ℕ) : ℕ → ℕ → DVBSubContext → DvbSpu → SegmentResult
  | 0, p, ctx, spu => { ctx := ctx, spu := spu, ret := p, stores := [], composed := [] }
  | fuel + 1, p, ctx, spu =>
    if p + 6 ≤ size ∧ pSrc p = 0x0f then
      let segment := segmentAt pSrc p
      if size < p + 6 + segment.segmentLength then
        { ctx := ctx, spu := spu, ret := -1, stores := [], composed := [] }
      else
        let result := decodeSegment ctx spu segment
        if result.ret = -1 then
          result
        else
          let rest := decodeSegments pSrc size fuel (p + 6 + segment.segmentLength) result.ctx
            result.spu
          { rest with
            stores := result.stores ++ rest.stores
            composed := result.composed ++ rest.composed }
    else
      { ctx := ctx, spu := spu, ret := p, stores := [], composed := [] }

/-- `decodeSubtitle`. -/
def decodeSubtitle (ctx : DVBSubContext) (spu : DvbSpu) (pSrc : Source) (size : ℕ) :
    SegmentResult :=
  let spu := { spu with
    spuWidth := 0
    spuHeight := 0
    spuStartX := 0
    spuStartY := 0
    spuOriginDisplayW := 720
    spuOriginDisplayH := 576 }
  if size ≤ 6 ∨ pSrc 0 ≠ 0x0f then
    { ctx := ctx, spu := spu, ret := -1, stores := [], composed := [] }
  else if checkSegments pSrc size size 0 then
    decodeSegments pSrc size size 0 ctx spu
  else
    { ctx := ctx, spu := spu, ret := -1, stores := [], composed := [] }

/-- More passes than bytes change nothing: the second pass ends by itself. -/
theorem decodeSegments_add_fuel {pSrc : Source} {size fuel : ℕ} (k : ℕ) {p : ℕ}
    {ctx : DVBSubContext} {spu : DvbSpu} (hfuel : size ≤ p + fuel) :
    decodeSegments pSrc size (fuel + k) p ctx spu = decodeSegments pSrc size fuel p ctx spu := by
  induction fuel generalizing p ctx spu with
  | zero =>
    cases k with
    | zero => rfl
    | succ k =>
      rw [Nat.zero_add, decodeSegments, decodeSegments, if_neg (by omega)]
  | succ fuel ih =>
    rw [Nat.succ_add, decodeSegments, decodeSegments]
    split
    · dsimp only
      rw [ih (by omega)]
    · rfl

/-- The second pass is a run of the decoder. -/
theorem decodeSegments_run (pSrc : Source) (size fuel p : ℕ) (ctx : DVBSubContext)
    (spu : DvbSpu) :
    ∃ events : List Event,
      (decodeSegments pSrc size fuel p ctx spu).ctx = events.foldl exec ctx := by
  induction fuel generalizing p ctx spu with
  | zero => exact ⟨[], rfl⟩
  | succ fuel ih =>
    rw [decodeSegments]
    split
    · dsimp only
      split
      · exact ⟨[], rfl⟩
      · split
        · exact ⟨[.segment spu (segmentAt pSrc p)], rfl⟩
        · obtain ⟨events, hevents⟩ := ih (p + 6 + (segmentAt pSrc p).segmentLength)
            (decodeSegment ctx spu (segmentAt pSrc p)).ctx
            (decodeSegment ctx spu (segmentAt pSrc p)).spu
          exact ⟨.segment spu (segmentAt pSrc p) :: events, hevents⟩
    · exact ⟨[], rfl⟩

/-- **What a packet makes of the context is a run over its segments.** -/
theorem decodeSubtitle_run (ctx : DVBSubContext) (spu : DvbSpu) (pSrc : Source) (size : ℕ) :
    ∃ events : List Event, (decodeSubtitle ctx spu pSrc size).ctx = events.foldl exec ctx := by
  unfold decodeSubtitle
  dsimp only
  split_ifs
  · exact ⟨[], rfl⟩
  · exact decodeSegments_run _ _ _ _ _ _
  · exact ⟨[], rfl⟩

end Dvb
end AmlSubtitle
