import Mathlib.Tactic

/-!
# The PGS parser

The segments of `subtitle/parser/PgsParser.cpp`: what each of them makes of the context
`mPgsContext`, from the constructor on.

* A segment is read through a pointer into its packet.  `Source` is what the pointer
  reaches: the byte at each offset from the start of the segment, those past its end
  included, since some reads go there.
* The palettes, the objects and the object references are arrays.  A `count` says how many
  palettes and objects are there; what is behind it stays in the array until it is written
  again.
* The results of parsing carry the number of references that were read and the end of the
  bytes that were read.
* An `assert` that fails has no result.
-/

namespace AmlSubtitle
namespace Pgs

/-- The bytes a pointer into a packet reaches. -/
abbrev Source := ℕ → UInt8

/-- The source that holds some bytes, and zeros after them. -/
def sourceOf (bytes : List UInt8) : Source := fun i => bytes.getD i 0

/-- `bytestream_get_byte`. -/
def bytestreamGetByte (buf : Source) (i : ℕ) : ℕ := (buf i).toNat

/-- `bytestream_get_be16`. -/
def bytestreamGetBe16 (buf : Source) (i : ℕ) : ℕ := (buf i).toNat * 256 + (buf (i + 1)).toNat

/-- `bytestream_get_be24`. -/
def bytestreamGetBe24 (buf : Source) (i : ℕ) : ℕ :=
  (buf i).toNat * 65536 + (buf (i + 1)).toNat * 256 + (buf (i + 2)).toNat

/-- The `n` bytes from `i` on. -/
def bytes (buf : Source) (i n : ℕ) : List UInt8 := (List.range n).map fun k => buf (i + k)

@[simp] theorem length_bytes (buf : Source) (i n : ℕ) : (bytes buf i n).length = n := by
  rw [bytes, List.length_map, List.length_range]

theorem bytestreamGetBe24_lt (buf : Source) (i : ℕ) : bytestreamGetBe24 buf i < 2 ^ 24 := by
  have hhigh : (buf i).toNat < 256 := (buf i).toNat_lt
  have hmid : (buf (i + 1)).toNat < 256 := (buf (i + 1)).toNat_lt
  have hlow : (buf (i + 2)).toNat < 256 := (buf (i + 2)).toNat_lt
  rw [bytestreamGetBe24]
  omega

/-! ## Data -/

/-- `MAX_EPOCH_PALETTES`. -/
def MAX_EPOCH_PALETTES : ℕ := 8

/-- `MAX_EPOCH_OBJECTS`. -/
def MAX_EPOCH_OBJECTS : ℕ := 64

/-- `MAX_OBJECT_REFS`. -/
def MAX_OBJECT_REFS : ℕ := 2

structure PGSSubObjectRef where
  id : ℕ
  windowId : ℕ
  compositionFlag : UInt8
  x : ℕ
  y : ℕ
  cropX : ℕ
  cropY : ℕ
  cropW : ℕ
  cropH : ℕ
  deriving DecidableEq, Repr

/-- The rectangles to present are not here: they are written in copies of the context only. -/
structure PGSSubPresentation where
  videoWidth : ℕ
  videoHeight : ℕ
  idNumber : ℕ
  paletteId : ℕ
  objectCount : ℕ
  objects : ℕ → PGSSubObjectRef
  pts : ℤ

structure PGSSubObject where
  id : ℕ
  w : ℕ
  h : ℕ
  rle : List UInt8
  rleBufferSize : ℕ
  rleDataLen : ℕ
  rleRemainingLen : ℕ
  deriving DecidableEq, Repr

structure PGSSubObjects where
  count : ℕ
  object : ℕ → PGSSubObject

structure PGSSubPalette where
  id : ℕ
  argb : UInt8 → ℕ

structure PGSSubPalettes where
  count : ℕ
  palette : ℕ → PGSSubPalette

structure PGSSubContext where
  presentation : PGSSubPresentation
  palettes : PGSSubPalettes
  objects : PGSSubObjects

/-- `memset` of the context. -/
def PGSSubContext.zero : PGSSubContext where
  presentation := ⟨0, 0, 0, 0, 0, fun _ => ⟨0, 0, 0, 0, 0, 0, 0, 0, 0⟩, 0⟩
  palettes := ⟨0, fun _ => ⟨0, fun _ => 0⟩⟩
  objects := ⟨0, fun _ => ⟨0, 0, 0, [], 0, 0, 0⟩⟩

/-- The search of `findObject` and `findPalette` for an id among the first `count`. -/
def find (count : ℕ) (ids : ℕ → ℕ) (id : ℕ) : Option ℕ :=
  (List.range count).find? fun i => ids i = id

def findObject (id : ℕ) (objects : PGSSubObjects) : Option ℕ :=
  find objects.count (fun i => (objects.object i).id) id

def findPalette (id : ℕ) (palettes : PGSSubPalettes) : Option ℕ :=
  find palettes.count (fun i => (palettes.palette i).id) id

/-- The object in a slot is changed. -/
def PGSSubObjects.modify (objects : PGSSubObjects) (i : ℕ) (f : PGSSubObject → PGSSubObject) :
    PGSSubObjects :=
  { objects with object := Function.update objects.object i (f (objects.object i)) }

/-- The palette in a slot is changed. -/
def PGSSubPalettes.modify (palettes : PGSSubPalettes) (i : ℕ) (f : PGSSubPalette → PGSSubPalette) :
    PGSSubPalettes :=
  { palettes with palette := Function.update palettes.palette i (f (palettes.palette i)) }

/-! ## Presentation composition -/

/-- The objects lose their data; the palettes are only counted out. -/
def flushPgsContext (ctx : PGSSubContext) : PGSSubContext :=
  { ctx with
    objects := {
      count := 0
      object := fun i =>
        if i < ctx.objects.count then
          { ctx.objects.object i with rle := [], rleBufferSize := 0, rleRemainingLen := 0 }
        else
          ctx.objects.object i }
    palettes := { ctx.palettes with count := 0 } }

/-- A presentation, the number of references that were read for it, and the end of the
bytes that were read. -/
structure Composed where
  presentation : PGSSubPresentation
  refs : ℕ
  reach : ℕ

/-- The reference at `pos`.  Without the cropping flag the old cropping stays. -/
def readRef (buf : Source) (pos : ℕ) (old : PGSSubObjectRef) : PGSSubObjectRef × ℕ :=
  let object := { old with
    id := bytestreamGetBe16 buf pos
    windowId := bytestreamGetByte buf (pos + 2)
    compositionFlag := buf (pos + 3)
    x := bytestreamGetBe16 buf (pos + 4)
    y := bytestreamGetBe16 buf (pos + 6) }
  if object.compositionFlag &&& 0x80 ≠ 0 then
    ({ object with
      cropX := bytestreamGetBe16 buf (pos + 8)
      cropY := bytestreamGetBe16 buf (pos + 10)
      cropW := bytestreamGetBe16 buf (pos + 12)
      cropH := bytestreamGetBe16 buf (pos + 14) }, pos + 16)
  else
    (object, pos + 8)

/-- The loop over the object references, with `n` to read from the `i`th on, at `pos`. -/
def readRefs (buf : Source) (bufSize : ℕ) : ℕ → ℕ → ℕ → PGSSubPresentation → Composed
  | 0, i, pos, p => ⟨p, i, pos⟩
  | n + 1, i, pos, p =>
    if bufSize < pos + 8 then
      ⟨{ p with objectCount := i }, i, pos⟩
    else
      let object := readRef buf pos (p.objects i)
      if object.1.x > p.videoWidth ∨ object.1.y > p.videoHeight then
        ⟨{ p with objects := Function.update p.objects i { object.1 with x := 0, y := 0 } }, i + 1,
          object.2⟩
      else
        readRefs buf bufSize n (i + 1) object.2
          { p with objects := Function.update p.objects i object.1 }

/-- The composition state of the segment. -/
def compositionState (buf : Source) : ℕ := bytestreamGetByte buf 7 / 64

/-- The fields in front of the references. -/
def readHead (buf : Source) (p : PGSSubPresentation) : PGSSubPresentation :=
  { p with
    videoWidth := bytestreamGetBe16 buf 0
    videoHeight := bytestreamGetBe16 buf 2
    idNumber := bytestreamGetBe16 buf 5
    paletteId := bytestreamGetByte buf 9
    objectCount := bytestreamGetByte buf 10 }

/-- What a segment makes of the presentation. -/
def compose (buf : Source) (bufSize : ℕ) (p : PGSSubPresentation) : Composed :=
  let p := readHead buf p
  if p.objectCount > MAX_OBJECT_REFS then
    ⟨{ p with objectCount := 2 }, 0, 11⟩
  else
    readRefs buf bufSize p.objectCount 0 11 p

/-- `parsePresentationSegment`. -/
def parsePresentationSegment (ctx : PGSSubContext) (buf : Source) (bufSize : ℕ) : PGSSubContext :=
  let flushed := if compositionState buf ≠ 0 then flushPgsContext ctx else ctx
  { flushed with presentation := (compose buf bufSize ctx.presentation).presentation }

/-! ## Palette definition -/

/-- `cm[i]`: the crop table. -/
def crop (i : ℤ) : ℕ := (max 0 (min i 255)).toNat

/-- The colour of a palette entry.  The constants are those of `FIX`. -/
def yuvToArgb (bt709 : Bool) (y1 cr1 cb1 alpha : ℕ) : ℕ :=
  let cb : ℤ := cb1 - 128
  let cr : ℤ := cr1 - 128
  let rAdd := if bt709 then 512 + 1836 * cr else 1634 * cr + 512
  let gAdd := if bt709 then 512 - 218 * cb - 546 * cr else - 401 * cb - 832 * cr + 512
  let bAdd := if bt709 then 512 + 2163 * cb else 2066 * cb + 512
  let y : ℤ := (y1 - 16) * 1192
  alpha * 2 ^ 24 + crop ((y + rAdd) / 1024) * 2 ^ 16 + crop ((y + gAdd) / 1024) * 2 ^ 8 +
    crop ((y + bAdd) / 1024)

/-- BT.709 is the default, BT.601 is for small videos. -/
def isBt709 (p : PGSSubPresentation) : Bool := p.videoHeight = 0 ∨ p.videoHeight > 576

/-- The colours of the entries from `pos` on, as long as an entry starts in the segment. -/
def readColours (buf : Source) (bufSize : ℕ) (bt709 : Bool) : ℕ → ℕ → List (UInt8 × ℕ)
  | 0, _ => []
  | n + 1, pos =>
    if pos < bufSize then
      (buf pos, yuvToArgb bt709 (bytestreamGetByte buf (pos + 1)) (bytestreamGetByte buf (pos + 2))
        (bytestreamGetByte buf (pos + 3)) (bytestreamGetByte buf (pos + 4))) ::
        readColours buf bufSize bt709 n (pos + 5)
    else
      []

/-- Colours are written one after the other. -/
def writeColours (argb : UInt8 → ℕ) (colours : List (UInt8 × ℕ)) : UInt8 → ℕ :=
  colours.foldl (fun argb colour => Function.update argb colour.1 colour.2) argb

/-- The slot of the palette a segment defines, and the palettes with the id in the slot. -/
def paletteSlot (palettes : PGSSubPalettes) (id : ℕ) : Option (ℕ × PGSSubPalettes) :=
  match findPalette id palettes with
  | some i => some (i, palettes)
  | none =>
    if palettes.count ≥ MAX_EPOCH_PALETTES then
      none
    else
      some (palettes.count,
        { palettes.modify palettes.count ({ · with id := id }) with count := palettes.count + 1 })

/-- `parsePaletteSegment`. -/
def parsePaletteSegment (ctx : PGSSubContext) (buf : Source) (bufSize : ℕ) : PGSSubContext :=
  match paletteSlot ctx.palettes (bytestreamGetByte buf 0) with
  | none => ctx
  | some (i, palettes) =>
    let colours := readColours buf bufSize (isBt709 ctx.presentation) bufSize 2
    { ctx with
      palettes := palettes.modify i fun palette =>
        { palette with argb := writeColours palette.argb colours } }

/-- The end of the bytes that are read for the entries from `pos` on. -/
def coloursReach (bufSize : ℕ) : ℕ → ℕ → ℕ
  | 0, pos => pos
  | n + 1, pos => if pos < bufSize then coloursReach bufSize n (pos + 5) else pos

/-! ## Object definition -/

/-- The slot of the object a segment defines, and the objects with the id in the slot. -/
def objectSlot (objects : PGSSubObjects) (id : ℕ) : Option (ℕ × PGSSubObjects) :=
  match findObject id objects with
  | some i => some (i, objects)
  | none =>
    if objects.count ≥ MAX_EPOCH_OBJECTS then
      none
    else
      some (objects.count,
        { objects.modify objects.count ({ · with id := id }) with count := objects.count + 1 })

/-- `rle_bitmap_len`, which wraps around below zero. -/
def rleBitmapLen (buf : Source) : ℕ := (bytestreamGetBe24 buf 4 + (2 ^ 32 - 4)) % 2 ^ 32

/-- A segment continues the data of an object. -/
def isContinuation (buf : Source) : Prop := buf 3 &&& 0x80 = 0

instance (buf : Source) : Decidable (isContinuation buf) := inferInstanceAs (Decidable (_ = _))

/-- The object after a segment with more data for it, or `none` where the segment is
rejected; and the second `none` is the `assert` that fails. -/
def continueObject (object : PGSSubObject) (buf : Source) (bufSize : ℕ) :
    Option (Option PGSSubObject) :=
  if bufSize - 4 > object.rleRemainingLen then
    some none
  else
    let rle := object.rle ++ bytes buf 4 (bufSize - 4)
    let rleDataLen := (object.rleDataLen + (bufSize - 4)) % 2 ^ 32
    if rle.length ≠ rleDataLen then
      none
    else
      some (some { object with
        rle := rle
        rleDataLen := rleDataLen
        rleRemainingLen := object.rleRemainingLen - (bufSize - 4) })

/-- The object after a segment that starts its data, or `none` where the segment is
rejected. -/
def startObject (p : PGSSubPresentation) (object : PGSSubObject) (buf : Source) (bufSize : ℕ) :
    Option PGSSubObject :=
  if bufSize - 4 ≤ 7 then
    none
  else if bufSize - 11 > rleBitmapLen buf then
    none
  else
    let width := bytestreamGetBe16 buf 7
    let height := bytestreamGetBe16 buf 9
    if p.videoWidth < width ∨ p.videoHeight < height ∨ width = 0 ∨ height = 0 then
      none
    else
      some { object with
        w := width
        h := height
        rle := bytes buf 11 (bufSize - 11)
        rleDataLen := bufSize - 11
        rleRemainingLen := rleBitmapLen buf - (bufSize - 11) }

/-- The object after a segment for it. -/
def defineObject (p : PGSSubPresentation) (object : PGSSubObject) (buf : Source) (bufSize : ℕ) :
    Option (Option PGSSubObject) :=
  if isContinuation buf then continueObject object buf bufSize
  else some (startObject p object buf bufSize)

/-- `parseObjectSegment`: the id of the object, -1 where the segment is rejected, and the
context. -/
def parseObjectSegment (ctx : PGSSubContext) (buf : Source) (bufSize : ℕ) :
    Option (ℤ × PGSSubContext) :=
  if bufSize ≤ 4 then
    some (-1, ctx)
  else
    match objectSlot ctx.objects (bytestreamGetBe16 buf 0) with
    | none => some (-1, ctx)
    | some (i, objects) =>
      match defineObject ctx.presentation (objects.object i) buf bufSize with
      | none => none
      | some none => some (-1, { ctx with objects := objects })
      | some (some object) =>
        some (object.id, { ctx with objects := objects.modify i fun _ => object })

/-! ## The segments -/

/-- A segment in its packet. -/
structure Segment where
  pts : ℤ
  type : ℕ
  length : ℕ
  buf : Source

/-- `PALETTE_DEFINITION_SEGMENT`. -/
def PALETTE_DEFINITION_SEGMENT : ℕ := 0x14

/-- `OBJECT_DEFINITION_SEGMENT`. -/
def OBJECT_DEFINITION_SEGMENT : ℕ := 0x15

/-- `PRESENTATION_COMPOSITION_SEGMENT`. -/
def PRESENTATION_COMPOSITION_SEGMENT : ℕ := 0x16

/-- `END_DISPLAY_SEGMENT`. -/
def END_DISPLAY_SEGMENT : ℕ := 0x80

/-- The parser: its context, and the copies of it that were queued to be decoded. -/
structure PgsParser where
  mPgsContext : PGSSubContext
  mPgsContextList : List PGSSubContext

namespace PgsParser

/-- The constructor. -/
def create : PgsParser := ⟨.zero, []⟩

/-- What `decode` does with one segment; a window definition and an unknown type leave the
parser as it is. -/
def decode (parser : PgsParser) (segment : Segment) : Option PgsParser :=
  let ctx := parser.mPgsContext
  if segment.type = PRESENTATION_COMPOSITION_SEGMENT then
    let ctx := { ctx with presentation := { ctx.presentation with pts := segment.pts } }
    some { parser with mPgsContext := parsePresentationSegment ctx segment.buf segment.length }
  else if segment.type = PALETTE_DEFINITION_SEGMENT then
    some { parser with mPgsContext := parsePaletteSegment ctx segment.buf segment.length }
  else if segment.type = OBJECT_DEFINITION_SEGMENT then
    (parseObjectSegment ctx segment.buf segment.length).map fun parsed =>
      { parser with mPgsContext := parsed.2 }
  else if segment.type = END_DISPLAY_SEGMENT then
    some { parser with mPgsContextList := parser.mPgsContextList ++ [ctx] }
  else
    some parser

/-- A run of segments. -/
def decodeAll (parser : PgsParser) : List Segment → Option PgsParser
  | [] => some parser
  | segment :: segments => (parser.decode segment).bind fun parser => parser.decodeAll segments

end PgsParser

end Pgs
end AmlSubtitle
