import AmlSubtitle.Lib.Keyed
import AmlSubtitle.Lib.Thread
import AmlSubtitle.Lib.Words

/-!
# The DVB decoder context

`DVBSubContext` of `subtitle/parser/DvbParser.cpp` and the segments that change it
without looking at pixels: page composition, region composition, CLUT definition
and display definition.

* A segment is read through a pointer into the packet.  `Source` is what the
  pointer reaches: the byte at each offset from the start of the segment, those
  past its end included, since some reads go there.
* The regions, the objects, the CLUTs and the page's region displays are lists of
  records, newest first, as the source keeps them.
* The object displays are nodes of a heap, `displays`, since each of them is
  threaded on two lists at once: that of its region by `regionListNext` and that
  of its object by `objectListNext`.  A pointer is the address of a node.
  `nextPtr` is what the next allocation returns, and `dangling` is set where a
  loop follows a pointer to a freed node or comes round in a circle.
* `malloc` succeeds, except that no allocation of a negative `int` does: converted
  to `size_t` it asks for nearly the whole address space.
-/

namespace AmlSubtitle
namespace Dvb

open Thread

/-- The bytes a pointer into a packet reaches. -/
abbrev Source := ℕ → UInt8

/-- The source that holds some bytes, and zeros after them. -/
def sourceOf (bytes : List UInt8) : Source := fun i => bytes.getD i 0

/-- `AV_RB16`. -/
def AV_RB16 (buf : Source) (i : ℕ) : ℕ := (buf i).toNat <<< 8 ||| (buf (i + 1)).toNat

theorem AV_RB16_lt (buf : Source) (i : ℕ) : AV_RB16 buf i < 2 ^ 16 := by
  have hhigh : (buf i).toNat <<< 8 < 2 ^ 16 := by
    have hbyte : (buf i).toNat < 256 := (buf i).toNat_lt
    rw [Nat.shiftLeft_eq]
    omega
  exact Nat.or_lt_two_pow hhigh ((buf (i + 1)).toNat_lt.trans (by decide))

/-- `RGBA`. -/
def RGBA (r g b a : ℕ) : UInt32 := UInt32.ofNat (a <<< 24 ||| r <<< 16 ||| g <<< 8 ||| b)

/-! ## Data -/

/-- `DVBSubCLUT`: the words of `clut4`, `clut16` and `clut256`, one array after the
other as they lie in the structure. -/
structure DVBSubCLUT where
  id : ℕ
  words : List UInt32
  deriving DecidableEq, Repr

/-- The tables of a `DVBSubCLUT`. -/
inductive ClutTable where
  | clut4
  | clut16
  | clut256
  deriving DecidableEq, Repr

namespace ClutTable

/-- Where a table starts among the words. -/
def start : ClutTable → ℕ
  | clut4 => 0
  | clut16 => 4
  | clut256 => 20

/-- The entries of a table. -/
def size : ClutTable → ℕ
  | clut4 => 4
  | clut16 => 16
  | clut256 => 256

end ClutTable

/-- `DVBSubObjectDisplay`. -/
structure DVBSubObjectDisplay where
  objectId : ℕ
  regionId : ℕ
  xPos : ℕ
  yPos : ℕ
  fgcolor : ℕ
  bgcolor : ℕ
  regionListNext : Option ℕ
  objectListNext : Option ℕ
  deriving DecidableEq, Repr

/-- `DVBSubObject`. -/
structure DVBSubObject where
  id : ℕ
  type : ℕ
  displayList : Option ℕ
  deriving DecidableEq, Repr

/-- `DVBSubRegionDisplay`.  `saveResult2Spu` may move it above the screen. -/
structure DVBSubRegionDisplay where
  regionId : ℕ
  xPos : ℤ
  yPos : ℤ
  deriving DecidableEq, Repr

/-- `DVBSubRegion`; no bytes stand at a null `pbuf`. -/
structure DVBSubRegion where
  id : ℕ
  width : ℕ
  height : ℕ
  depth : ℕ
  clut : ℕ
  bgcolor : ℕ
  pbuf : List UInt8
  bufSize : ℤ
  displayList : Option ℕ
  deriving DecidableEq, Repr

/-- A new region, whose other fields `memset` clears. -/
def DVBSubRegion.new (regionId : ℕ) : DVBSubRegion where
  id := regionId
  width := 0
  height := 0
  depth := 0
  clut := 0
  bgcolor := 0
  pbuf := []
  bufSize := 0
  displayList := none

/-- `DVBSubDisplayDefinition`. -/
structure DVBSubDisplayDefinition where
  version : ℕ
  x : ℤ
  y : ℤ
  width : ℤ
  height : ℤ
  deriving DecidableEq, Repr

/-- `DVBSubContext`. -/
structure DVBSubContext where
  compositionId : ℤ
  ancillaryId : ℤ
  timeOut : ℕ
  regionList : List DVBSubRegion
  clutList : List DVBSubCLUT
  objectList : List DVBSubObject
  displayListSize : ℕ
  displayList : List DVBSubRegionDisplay
  displayDefinition : Option DVBSubDisplayDefinition
  displays : ℕ → Option DVBSubObjectDisplay
  nextPtr : ℕ
  dangling : Bool

/-- The context `DvbParser::init` makes. -/
def init : DVBSubContext where
  compositionId := -1
  ancillaryId := -1
  timeOut := 0
  regionList := []
  clutList := []
  objectList := []
  displayListSize := 0
  displayList := []
  displayDefinition := none
  displays := fun _ => none
  nextPtr := 0
  dangling := false

/-! ## The default CLUT -/

/-- `gDefaultClut.clut16[i]` for `i` from 1. -/
def defaultClut16 (i : ℕ) : UInt32 :=
  let full := if i < 8 then 255 else 127
  RGBA (if i &&& 1 ≠ 0 then full else 0) (if i &&& 2 ≠ 0 then full else 0)
    (if i &&& 4 ≠ 0 then full else 0) 255

/-- `gDefaultClut.clut256[i]` for `i` from 1. -/
def defaultClut256 (i : ℕ) : UInt32 :=
  if i < 8 then
    RGBA (if i &&& 1 ≠ 0 then 255 else 0) (if i &&& 2 ≠ 0 then 255 else 0)
      (if i &&& 4 ≠ 0 then 255 else 0) 63
  else
    let level (base low high lowBit highBit : ℕ) : ℕ :=
      base + (if i &&& lowBit ≠ 0 then low else 0) + (if i &&& highBit ≠ 0 then high else 0)
    match i &&& 0x88 with
    | 0x00 => RGBA (level 0 85 170 1 0x10) (level 0 85 170 2 0x20) (level 0 85 170 4 0x40) 255
    | 0x08 => RGBA (level 0 85 170 1 0x10) (level 0 85 170 2 0x20) (level 0 85 170 4 0x40) 127
    | 0x80 =>
      RGBA (level 127 43 85 1 0x10) (level 127 43 85 2 0x20) (level 127 43 85 4 0x40) 255
    | _ => RGBA (level 0 43 85 1 0x10) (level 0 43 85 2 0x20) (level 0 43 85 4 0x40) 255

/-- The words of `gDefaultClut`. -/
def gDefaultClut : List UInt32 :=
  [RGBA 0 0 0 0, RGBA 255 255 255 255, RGBA 0 0 0 255, RGBA 127 127 127 255] ++
    RGBA 0 0 0 0 :: (List.range 15).map (fun i => defaultClut16 (i + 1)) ++
    RGBA 0 0 0 0 :: (List.range 255).map (fun i => defaultClut256 (i + 1))

namespace DVBSubContext

/-! ## Looking up -/

/-- `getObject`. -/
def getObject (ctx : DVBSubContext) (objectId : ℕ) : Option DVBSubObject :=
  Keyed.get DVBSubObject.id ctx.objectList objectId

/-- `getClut`. -/
def getClut (ctx : DVBSubContext) (clutId : ℕ) : Option DVBSubCLUT :=
  Keyed.get DVBSubCLUT.id ctx.clutList clutId

/-- `getRegion`. -/
def getRegion (ctx : DVBSubContext) (regionId : ℕ) : Option DVBSubRegion :=
  Keyed.get DVBSubRegion.id ctx.regionList regionId

/-- A write through the pointer `getObject` returns. -/
def modifyObject (ctx : DVBSubContext) (objectId : ℕ) (f : DVBSubObject → DVBSubObject) :
    DVBSubContext :=
  { ctx with objectList := Keyed.modify DVBSubObject.id ctx.objectList objectId f }

/-- A write through the pointer `getRegion` returns. -/
def modifyRegion (ctx : DVBSubContext) (regionId : ℕ) (f : DVBSubRegion → DVBSubRegion) :
    DVBSubContext :=
  { ctx with regionList := Keyed.modify DVBSubRegion.id ctx.regionList regionId f }

/-! ## Deleting -/

/-- `*dispObjectPtr = v`: the write through a pointer into the display list of an
object. -/
def writeLink (ctx : DVBSubContext) (objectId : ℕ) (v : Option ℕ) : Link ℕ → DVBSubContext
  | .head => ctx.modifyObject objectId fun object => { object with displayList := v }
  | .after p =>
    { ctx with
      displays := Function.update ctx.displays p
        ((ctx.displays p).map fun display => { display with objectListNext := v }) }

/-- An object that has lost its last display is taken off the object list. -/
def dropEmptyObject (ctx : DVBSubContext) (objectId : ℕ) : DVBSubContext :=
  match ctx.getObject objectId with
  | none => ctx
  | some object =>
    if object.displayList.isNone then
      { ctx with objectList := Keyed.remove DVBSubObject.id ctx.objectList objectId }
    else
      ctx

/-- The part of a pass of `deleteRegionDisplayList` that takes `display`, at `p`, off
its object's list. -/
def unlinkFromObject (ctx : DVBSubContext) (p : ℕ) (display : DVBSubObjectDisplay) :
    DVBSubContext :=
  match ctx.getObject display.objectId with
  | none => ctx
  | some object =>
    match findLink DVBSubObjectDisplay.objectListNext ctx.displays p ctx.nextPtr .head
        object.displayList with
    | .found link =>
      (ctx.writeLink display.objectId display.objectListNext link).dropEmptyObject
        display.objectId
    | .absent => ctx
    | .dangling => { ctx with dangling := true }

/-- `deleteRegionDisplayList`, of at most `fuel` passes, for a region whose
`displayList` is the last argument.  The region's list is empty afterwards. -/
def deleteRegionDisplayList : ℕ → DVBSubContext → Option ℕ → DVBSubContext
  | _, ctx, none => ctx
  | 0, ctx, some _ => { ctx with dangling := true }
  | fuel + 1, ctx, some p =>
    match ctx.displays p with
    | none => { ctx with dangling := true }
    | some display =>
      let ctx := ctx.unlinkFromObject p display
      deleteRegionDisplayList fuel
        { ctx with displays := Function.update ctx.displays p none } display.regionListNext

/-- `deleteCluts`. -/
def deleteCluts (ctx : DVBSubContext) : DVBSubContext := { ctx with clutList := [] }

/-- `deleteObjects`. -/
def deleteObjects (ctx : DVBSubContext) : DVBSubContext := { ctx with objectList := [] }

/-- The loop of `deleteRegions` over the regions left. -/
def deleteRegionsLoop : List DVBSubRegion → DVBSubContext → DVBSubContext
  | [], ctx => { ctx with regionList := [] }
  | region :: rest, ctx =>
    deleteRegionsLoop rest
      (deleteRegionDisplayList ctx.nextPtr { ctx with regionList := rest } region.displayList)

/-- `deleteRegions`. -/
def deleteRegions (ctx : DVBSubContext) : DVBSubContext := deleteRegionsLoop ctx.regionList ctx

/-! ## Page composition -/

/-- `DVB_TIME_OUT_LONG_DURATION`. -/
def DVB_TIME_OUT_LONG_DURATION : ℕ := 30

/-- `DVB_TIME_OUT_ADJUST`. -/
def DVB_TIME_OUT_ADJUST : ℕ := 5

/-- `DVBSUB_PCS_STATE_ACQUISITION`. -/
def DVBSUB_PCS_STATE_ACQUISITION : ℕ := 1

/-- `DVBSUB_PCS_STATE_MODE_CHANGE`. -/
def DVBSUB_PCS_STATE_MODE_CHANGE : ℕ := 2

/-- The loop of `parsePageSegment`, of at most `fuel` passes: the display of a region
is taken off `tmpDisplayList` if it is there, and goes to the front of the page's
list. -/
def pageRegions (buf : Source) (bufEnd : ℕ) :
    ℕ → ℕ → List DVBSubRegionDisplay → DVBSubContext → DVBSubContext
  | 0, _, _, ctx => ctx
  | fuel + 1, i, tmpDisplayList, ctx =>
    if i + 5 < bufEnd then
      let regionId := (buf i).toNat
      let display : DVBSubRegionDisplay :=
        { regionId := regionId, xPos := AV_RB16 buf (i + 2), yPos := AV_RB16 buf (i + 4) }
      pageRegions buf bufEnd fuel (i + 6)
        (Keyed.remove DVBSubRegionDisplay.regionId tmpDisplayList regionId)
        { ctx with
          displayList := display :: ctx.displayList
          displayListSize := ctx.displayListSize + 1 }
    else
      ctx

/-- `page_state` of a page composition segment. -/
def pageState (buf : Source) : ℕ := ((buf 1).toNat >>> 2) &&& 3

/-- The page starts over: an acquisition point or a mode change. -/
def isEpochStart (buf : Source) : Prop :=
  pageState buf = DVBSUB_PCS_STATE_ACQUISITION ∨ pageState buf = DVBSUB_PCS_STATE_MODE_CHANGE

instance (buf : Source) : Decidable (isEpochStart buf) := by
  unfold isEpochStart
  infer_instance

/-- The start of `parsePageSegment`: the time-out of the page, and what is deleted where
the page starts over. -/
def startPage (ctx : DVBSubContext) (buf : Source) : DVBSubContext :=
  let timeOut := (buf 0).toNat
  let ctx := { ctx with
    timeOut := if DVB_TIME_OUT_LONG_DURATION ≤ timeOut then DVB_TIME_OUT_ADJUST else timeOut }
  if isEpochStart buf then ctx.deleteRegions.deleteObjects.deleteCluts else ctx

/-- `parsePageSegment`. -/
def parsePageSegment (ctx : DVBSubContext) (buf : Source) (bufSize : ℕ) : DVBSubContext :=
  if bufSize < 1 then
    ctx
  else
    let ctx := ctx.startPage buf
    pageRegions buf bufSize bufSize 2 ctx.displayList
      { ctx with displayList := [], displayListSize := 0 }

/-! ## Region composition -/

/-- The region of the segment, which is added to the region list if it is not on it. -/
def addRegion (ctx : DVBSubContext) (regionId : ℕ) : DVBSubContext :=
  if (ctx.getRegion regionId).isNone then
    { ctx with regionList := DVBSubRegion.new regionId :: ctx.regionList }
  else
    ctx

end DVBSubContext

namespace DVBSubRegion

/-- The area of a region, an `int`. -/
@[irreducible] def area (region : DVBSubRegion) : ℤ :=
  Words.asSigned 32 (region.width * region.height)

theorem area_eq (region : DVBSubRegion) :
    region.area = Words.asSigned 32 (region.width * region.height) := by
  unfold area
  exact Eq.refl _

/-- The size a region composition segment gives the region. -/
def setSize (region : DVBSubRegion) (buf : Source) : DVBSubRegion :=
  { region with width := AV_RB16 buf 2, height := AV_RB16 buf 4 }

/-- The region with a buffer of its area, whose bytes are whatever `malloc` leaves there,
or with none where `malloc` fails. -/
def reallocate (region : DVBSubRegion) : DVBSubRegion :=
  { region with bufSize := region.area, pbuf := List.replicate region.area.toNat 0 }

/-- `region->depth` of a region composition segment. -/
def depthOf (buf : Source) : ℕ :=
  let depth := 1 <<< (((buf 6).toNat >>> 2) &&& 7)
  if depth < 2 ∨ 8 < depth then 4 else depth

/-- `region->bgcolor` of a region composition segment. -/
def bgcolorOf (buf : Source) : ℕ :=
  if depthOf buf = 8 then
    (buf 8).toNat
  else if depthOf buf = 4 then
    ((buf 9).toNat >>> 4) &&& 15
  else
    ((buf 9).toNat >>> 2) &&& 3

/-- The depths a region can have. -/
def IsDepth (depth : ℕ) : Prop := depth = 2 ∨ depth = 4 ∨ depth = 8

theorem isDepth_depthOf (buf : Source) : IsDepth (depthOf buf) := by
  have hbits : ((buf 6).toNat >>> 2) &&& 7 < 8 := Nat.and_lt_two_pow (n := 3) _ (by decide)
  rw [depthOf, IsDepth]
  generalize ((buf 6).toNat >>> 2) &&& 7 = bits at hbits
  interval_cases bits <;> decide

/-- The background colour of a region segment fits the depth it sets. -/
theorem bgcolorOf_lt (buf : Source) : bgcolorOf buf < 2 ^ depthOf buf := by
  rw [bgcolorOf]
  rcases isDepth_depthOf buf with h | h | h
  · rw [h, if_neg (by decide), if_neg (by decide)]
    exact Nat.and_lt_two_pow (n := 2) _ (by decide)
  · rw [h, if_neg (by decide), if_pos rfl]
    exact Nat.and_lt_two_pow (n := 4) _ (by decide)
  · rw [h, if_pos rfl]
    exact (buf 8).toNat_lt

/-- The rest of the header of a region composition segment. -/
def setHeader (region : DVBSubRegion) (buf : Source) : DVBSubRegion :=
  { region with depth := depthOf buf, clut := (buf 7).toNat, bgcolor := bgcolorOf buf }

/-- `memset(region->pbuf, region->bgcolor, region->bufSize)`. -/
def fill (region : DVBSubRegion) : DVBSubRegion :=
  { region with pbuf := List.replicate region.bufSize.toNat (UInt8.ofNat region.bgcolor) }

@[simp] theorem reallocate_bufSize (region : DVBSubRegion) :
    region.reallocate.bufSize = region.area := rfl

@[simp] theorem setHeader_bufSize (region : DVBSubRegion) (buf : Source) :
    (region.setHeader buf).bufSize = region.bufSize := rfl

/-- The fill flag of a region composition segment. -/
def fillFlag (buf : Source) : Bool := ((buf 1).toNat >>> 3) &&& 1 == 1

end DVBSubRegion

namespace DVBSubContext

open DVBSubRegion

/-- `DVBSUB_OT_BASIC_CHARACTER`. -/
def DVBSUB_OT_BASIC_CHARACTER : ℕ := 1

/-- `DVBSUB_OT_COMPOSITE_STRING`. -/
def DVBSUB_OT_COMPOSITE_STRING : ℕ := 2

/-- The object of a display, which is added to the object list if it is not on it, and
its type. -/
def addObject (ctx : DVBSubContext) (objectId type : ℕ) : DVBSubContext :=
  let ctx :=
    if (ctx.getObject objectId).isNone then
      { ctx with
        objectList := { id := objectId, type := 0, displayList := none } :: ctx.objectList }
    else
      ctx
  ctx.modifyObject objectId fun object => { object with type := type }

/-- The first display of a region. -/
def regionHead (ctx : DVBSubContext) (regionId : ℕ) : Option ℕ :=
  (ctx.getRegion regionId).bind DVBSubRegion.displayList

/-- The first display of an object. -/
def objectHead (ctx : DVBSubContext) (objectId : ℕ) : Option ℕ :=
  (ctx.getObject objectId).bind DVBSubObject.displayList

/-- A new display goes to the front of the lists of its region and of its object. -/
def addDisplay (ctx : DVBSubContext) (display : DVBSubObjectDisplay) : DVBSubContext :=
  let p := ctx.nextPtr
  let display := { display with
    regionListNext := ctx.regionHead display.regionId
    objectListNext := ctx.objectHead display.objectId }
  let ctx := ctx.modifyRegion display.regionId fun region => { region with displayList := some p }
  let ctx := ctx.modifyObject display.objectId fun object => { object with displayList := some p }
  { ctx with displays := Function.update ctx.displays p (some display), nextPtr := p + 1 }

/-- The loop of `parseRegionSegment` over the object displays, of at most `fuel` passes. -/
def regionDisplays (buf : Source) (bufEnd regionId : ℕ) :
    ℕ → ℕ → DVBSubContext → DVBSubContext
  | 0, _, ctx => ctx
  | fuel + 1, i, ctx =>
    if i + 5 < bufEnd then
      let objectId := AV_RB16 buf i
      let type := (buf (i + 2)).toNat >>> 6
      -- only characters carry their two colours
      let coloured := (type = DVBSUB_OT_BASIC_CHARACTER ∨ type = DVBSUB_OT_COMPOSITE_STRING) ∧
        i + 6 + 1 < bufEnd
      let display : DVBSubObjectDisplay :=
        { objectId := objectId
          regionId := regionId
          xPos := AV_RB16 buf (i + 2) &&& 0xfff
          yPos := AV_RB16 buf (i + 4) &&& 0xfff
          fgcolor := if coloured then (buf (i + 6)).toNat else 0
          bgcolor := if coloured then (buf (i + 7)).toNat else 0
          regionListNext := none
          objectListNext := none }
      regionDisplays buf bufEnd regionId fuel (if coloured then i + 8 else i + 6)
        ((ctx.addObject objectId type).addDisplay display)
    else
      ctx

/-- The region of a region composition segment after its header: a new buffer is filled
in any case.  The flag says whether the buffer could be allocated; where it could not,
the function returns with the region as it is then. -/
def regionOf (region : DVBSubRegion) (buf : Source) : DVBSubRegion × Bool :=
  let region := region.setSize buf
  if region.area ≠ region.bufSize then
    if region.area < 0 then
      (region.reallocate, false)
    else
      ((region.reallocate.setHeader buf).fill, true)
  else if fillFlag buf then
    ((region.setHeader buf).fill, true)
  else
    (region.setHeader buf, true)

/-- The region keeps its id and its list. -/
theorem regionOf_keeps (region : DVBSubRegion) (buf : Source) :
    (regionOf region buf).1.id = region.id ∧
      (regionOf region buf).1.displayList = region.displayList := by
  rw [regionOf]
  split_ifs <;> exact ⟨rfl, rfl⟩

/-- `parseRegionSegment`. -/
def parseRegionSegment (ctx : DVBSubContext) (buf : Source) (bufSize : ℕ) : DVBSubContext :=
  if bufSize < 10 then
    ctx
  else
    let regionId := (buf 0).toNat
    let ctx := ctx.addRegion regionId
    match ctx.getRegion regionId with
    | none => ctx
    | some region =>
      let parsed := regionOf region buf
      if parsed.2 then
        let ctx := ctx.modifyRegion regionId fun _ => { parsed.1 with displayList := none }
        let ctx := deleteRegionDisplayList ctx.nextPtr ctx region.displayList
        regionDisplays buf bufSize regionId bufSize 10 ctx
      else
        ctx.modifyRegion regionId fun _ => parsed.1

/-- `parseRegionSegment` once the region is there. -/
theorem parseRegionSegment_eq {ctx : DVBSubContext} {buf : Source} {bufSize : ℕ}
    {region : DVBSubRegion} (hsize : ¬ bufSize < 10)
    (hregion : (ctx.addRegion (buf 0).toNat).getRegion (buf 0).toNat = some region) :
    ctx.parseRegionSegment buf bufSize =
      if (regionOf region buf).2 then
        regionDisplays buf bufSize (buf 0).toNat bufSize 10
          (((ctx.addRegion (buf 0).toNat).modifyRegion (buf 0).toNat
            fun _ => { (regionOf region buf).1 with displayList := none }).deleteRegionDisplayList
              (ctx.addRegion (buf 0).toNat).nextPtr region.displayList)
      else
        (ctx.addRegion (buf 0).toNat).modifyRegion (buf 0).toNat
          fun _ => (regionOf region buf).1 := by
  rw [parseRegionSegment, if_neg hsize]
  dsimp only
  rw [hregion]
  rfl

/-! ## CLUT definition -/

/-- `FIX(x)` of the five factors of the conversion, as the compiler folds them. -/
def FIX_CR_R : ℤ := 1634

def FIX_CB_G : ℤ := 401

def FIX_CR_G : ℤ := 832

def FIX_CB_B : ℤ := 2066

def FIX_Y : ℤ := 1192

/-- `ONE_HALF`. -/
def ONE_HALF : ℤ := 512

/-- `cm[v >> SCALEBITS]`: the crop table holds the value cropped to a byte. -/
def crop (v : ℤ) : ℕ := (max 0 (min 255 (v / 1024))).toNat

/-- `YUV_TO_RGB1_CCIR`, `YUV_TO_RGB2_CCIR` and `RGBA` with the alpha turned round. -/
def yuvToRgba (y cr cb alpha : ℕ) : UInt32 :=
  let cb := (cb : ℤ) - 128
  let cr := (cr : ℤ) - 128
  let y := ((y : ℤ) - 16) * FIX_Y
  RGBA (crop (y + (FIX_CR_R * cr + ONE_HALF)))
    (crop (y + (-FIX_CB_G * cb - FIX_CR_G * cr + ONE_HALF)))
    (crop (y + (FIX_CB_B * cb + ONE_HALF))) (255 - alpha)

/-- The colour of an entry of a CLUT definition segment, whose values start at `i`. -/
def entryColour (buf : Source) (i : ℕ) (fullRange : Bool) : UInt32 :=
  let b (k : ℕ) := (buf (i + k)).toNat
  let (y, cr, cb, alpha) :=
    if fullRange then
      (b 0, b 1, b 2, b 3)
    else
      (b 0 &&& 0xfc, ((b 0 &&& 3) <<< 2 ||| (b 1 >>> 6) &&& 3) <<< 4, (b 1 <<< 2) &&& 0xf0,
        (b 1 <<< 6) &&& 0xc0)
  if y = 0 then yuvToRgba y 0 0 0xff else yuvToRgba y cr cb alpha

/-- A write to a table of a CLUT. -/
def writeClut (words : List UInt32) (table : ClutTable) (entryId : ℕ) (colour : UInt32) :
    List UInt32 :=
  words.set (table.start + entryId) colour

/-- The loop of `parseClutSegment`, of at most `fuel` passes: the words of the CLUT
after it. -/
def clutEntries (buf : Source) (bufEnd : ℕ) : ℕ → ℕ → List UInt32 → List UInt32
  | 0, _, words => words
  | fuel + 1, i, words =>
    if i + 4 < bufEnd then
      let entryId := (buf i).toNat
      let depth := (buf (i + 1)).toNat &&& 0xe0
      if depth = 0 then
        words
      else
        let fullRange := (buf (i + 1)).toNat &&& 1 == 1
        let colour := entryColour buf (i + 2) fullRange
        let words := if depth &&& 0x80 ≠ 0 then writeClut words .clut4 entryId colour else words
        let words := if depth &&& 0x40 ≠ 0 then writeClut words .clut16 entryId colour else words
        let words := if depth &&& 0x20 ≠ 0 then writeClut words .clut256 entryId colour else words
        clutEntries buf bufEnd fuel (if fullRange then i + 6 else i + 4) words
    else
      words

/-- `parseClutSegment`. -/
def parseClutSegment (ctx : DVBSubContext) (buf : Source) (bufSize : ℕ) : DVBSubContext :=
  let clutId := (buf 0).toNat
  let clutList :=
    if (ctx.getClut clutId).isNone then
      { id := clutId, words := gDefaultClut } :: ctx.clutList
    else
      ctx.clutList
  { ctx with
    clutList := Keyed.modify DVBSubCLUT.id clutList clutId fun clut =>
      { clut with words := clutEntries buf bufSize bufSize 2 clut.words } }

/-! ## Display definition -/

/-- `parseDisplayDefinitionSegment`. -/
def parseDisplayDefinitionSegment (ctx : DVBSubContext) (buf : Source) (bufSize : ℕ) :
    DVBSubContext :=
  let infoByte := (buf 0).toNat
  let ddsVersion := infoByte >>> 4
  if bufSize < 5 ∨ ctx.displayDefinition.any (fun displayDef => displayDef.version = ddsVersion)
  then
    ctx
  else
    let displayDef : DVBSubDisplayDefinition :=
      { version := ddsVersion
        x := 0
        y := 0
        width := AV_RB16 buf 1 + 1
        height := AV_RB16 buf 3 + 1 }
    -- display_window_flag
    if infoByte &&& (1 <<< 3) ≠ 0 ∧ 13 ≤ bufSize then
      let horizontalMin : ℤ := AV_RB16 buf 5
      let horizontalMax : ℤ := AV_RB16 buf 7
      let verticalMin : ℤ := AV_RB16 buf 9
      let verticalMax : ℤ := AV_RB16 buf 11
      { ctx with
        displayDefinition := some
          { version := ddsVersion
            x := horizontalMin
            y := verticalMin
            width := horizontalMax - horizontalMin + 1
            height := verticalMax - verticalMin + 1 } }
    else
      { ctx with displayDefinition := some displayDef }

end DVBSubContext
end Dvb
end AmlSubtitle
