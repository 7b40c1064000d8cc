import AmlSubtitle.Lib.Words
import AmlSubtitle.Parser.PgsObject

/-!
# Rendering of PGS display sets

What `handleDisplayEndSegment` makes of a context that was queued: `decodeRleAndRenderBitmap`
decodes the objects it refers to and colours them with its palette, and `postDecodedItem`
posts an item for each of them.

* The run-length data of an object is a vector.  `decodeRle` looks for its end between codes
  only, and what a code reads behind the end is memory: `rleSource` is the data with some
  memory behind it.
* Sizes are `int`: an area, and four times an area, wrap around.  `malloc` gives memory for
  every size that is not negative.
-/

namespace AmlSubtitle
namespace Pgs

open Words

/-! ## Run-length data -/

/-- The data of an object, with the memory behind it. -/
def rleSource (rle : List UInt8) (behind : Source) : Source :=
  fun i => if i < rle.length then rle.getD i 0 else behind (i - rle.length)

/-- A colour, how often it comes, and the end of its code. -/
structure Code where
  color : UInt8
  run : ℕ
  next : ℕ

/-- The code at `pos`. -/
def readCode (buf : Source) (pos : ℕ) : Code :=
  let color := buf pos
  if color = 0 then
    let flags := buf (pos + 1)
    let run := (flags &&& 0x3f).toNat
    let long : ℕ × ℕ :=
      if flags &&& 0x40 ≠ 0 then (run * 256 + bytestreamGetByte buf (pos + 2), pos + 3)
      else (run, pos + 2)
    if flags &&& 0x80 ≠ 0 then ⟨buf long.2, long.1, long.2 + 1⟩ else ⟨0, long.1, long.2⟩
  else
    ⟨color, 1, pos + 1⟩

/-- The pixels that were written, whether they are the image, and the end of the bytes that
were read. -/
structure Decoded where
  pixels : List UInt8
  ok : Bool
  reach : ℕ
  deriving DecidableEq, Repr

/-- The loop of `decodeRle`, at `pos` in data of the given size, after `lines` ends of lines.
Each code takes a byte at least, so that the size is enough fuel. -/
def decodeCodes (buf : Source) (size w h : ℕ) : ℕ → ℕ → ℕ → List UInt8 → Decoded
  | 0, pos, _, pixels => ⟨pixels, decide (w * h ≤ pixels.length), pos⟩
  | fuel + 1, pos, lines, pixels =>
    if pos < size ∧ lines < h then
      let code := readCode buf pos
      if code.run > 0 ∧ pixels.length + code.run ≤ w * h then
        decodeCodes buf size w h fuel code.next lines
          (pixels ++ List.replicate code.run code.color)
      else if code.run = 0 then
        if pixels.length % w > 0 then
          ⟨pixels, false, code.next⟩
        else
          decodeCodes buf size w h fuel code.next (lines + 1) pixels
      else
        decodeCodes buf size w h fuel code.next lines pixels
    else
      ⟨pixels, decide (w * h ≤ pixels.length), pos⟩

/-- `decodeRle`. -/
def decodeRle (rle : List UInt8) (behind : Source) (w h : ℕ) : Decoded :=
  decodeCodes (rleSource rle behind) rle.length w h rle.length 0 0 []

theorem lt_next_readCode (buf : Source) (pos : ℕ) : pos < (readCode buf pos).next := by
  unfold readCode
  dsimp only
  split_ifs <;> dsimp only <;> omega

/-- More fuel than there are bytes left changes nothing. -/
theorem decodeCodes_fuel {buf : Source} {size w h fuel fuel' pos lines : ℕ}
    {pixels : List UInt8} (hfuel : size ≤ pos + fuel) (hle : fuel ≤ fuel') :
    decodeCodes buf size w h fuel' pos lines pixels =
      decodeCodes buf size w h fuel pos lines pixels := by
  induction fuel generalizing fuel' pos lines pixels with
  | zero =>
    cases fuel' with
    | zero => rfl
    | succ fuel' =>
      have hend : ¬ (pos < size ∧ lines < h) := by omega
      simp only [decodeCodes, if_neg hend]
  | succ fuel ih =>
    obtain ⟨fuel', rfl⟩ := Nat.exists_eq_add_of_le' (show 1 ≤ fuel' by omega)
    have hnext := lt_next_readCode buf pos
    have hrest : ∀ lines pixels, decodeCodes buf size w h fuel' (readCode buf pos).next lines
        pixels = decodeCodes buf size w h fuel (readCode buf pos).next lines pixels :=
      fun _ _ => ih (by omega) (by omega)
    rw [decodeCodes, decodeCodes]
    simp only [hrest]

/-! ### The bytes that are read -/

section Reach

variable {buf buf' : Source} {rle : List UInt8} {behind behind' : Source}
  {size w h fuel pos lines : ℕ} {pixels : List UInt8}

theorem agreeTo_rleSource (rle : List UInt8) (behind behind' : Source) :
    AgreeTo rle.length (rleSource rle behind) (rleSource rle behind') := by
  intro i hi
  rw [rleSource, rleSource, if_pos hi, if_pos hi]

theorem readCode_congr (hagree : AgreeTo size buf buf') (hnext : (readCode buf pos).next ≤ size) :
    readCode buf pos = readCode buf' pos := by
  have hlt := lt_next_readCode buf pos
  have hcolor : buf pos = buf' pos := hagree pos (by omega)
  unfold readCode at hnext ⊢
  dsimp only at hnext ⊢
  rw [← hcolor]
  by_cases hzero : buf pos = 0
  · rw [if_pos hzero] at hnext
    rw [if_pos hzero, if_pos hzero]
    have hflags : buf (pos + 1) = buf' (pos + 1) :=
      hagree (pos + 1) (by split_ifs at hnext <;> dsimp only at hnext <;> omega)
    rw [← hflags]
    by_cases hlong : buf (pos + 1) &&& 0x40 ≠ 0
    · rw [if_pos hlong] at hnext
      have hrun : bytestreamGetByte buf (pos + 2) = bytestreamGetByte buf' (pos + 2) :=
        bytestreamGetByte_congr hagree
          (by split_ifs at hnext <;> dsimp only at hnext <;> omega)
      rw [if_pos hlong, if_pos hlong, ← hrun]
      by_cases hcolour : buf (pos + 1) &&& 0x80 ≠ 0
      · rw [if_pos hcolour] at hnext
        rw [if_pos hcolour, if_pos hcolour, hagree (pos + 3) (by dsimp only at hnext; omega)]
      · rw [if_neg hcolour, if_neg hcolour]
    · rw [if_neg hlong] at hnext
      rw [if_neg hlong, if_neg hlong]
      by_cases hcolour : buf (pos + 1) &&& 0x80 ≠ 0
      · rw [if_pos hcolour] at hnext
        rw [if_pos hcolour, if_pos hcolour, hagree (pos + 2) (by dsimp only at hnext; omega)]
      · rw [if_neg hcolour, if_neg hcolour]
  · rw [if_neg hzero, if_neg hzero]

/-- The bytes are read forwards. -/
theorem le_reach_decodeCodes : pos ≤ (decodeCodes buf size w h fuel pos lines pixels).reach := by
  induction fuel generalizing pos lines pixels with
  | zero => exact le_rfl
  | succ fuel ih =>
    have hnext := (lt_next_readCode buf pos).le
    unfold decodeCodes
    dsimp only
    split_ifs
    · exact hnext.trans ih
    · exact hnext
    · exact hnext.trans ih
    · exact hnext.trans ih
    · exact le_rfl

/-- Where no byte behind the end is read, the bytes behind it do not matter. -/
theorem decodeCodes_congr (hagree : AgreeTo size buf buf')
    (hreach : (decodeCodes buf size w h fuel pos lines pixels).reach ≤ size) :
    decodeCodes buf size w h fuel pos lines pixels =
      decodeCodes buf' size w h fuel pos lines pixels := by
  induction fuel generalizing pos lines pixels with
  | zero => rfl
  | succ fuel ih =>
    unfold decodeCodes at hreach ⊢
    dsimp only at hreach ⊢
    by_cases hloop : pos < size ∧ lines < h
    · rw [if_pos hloop] at hreach
      rw [if_pos hloop, if_pos hloop]
      have hcode : readCode buf pos = readCode buf' pos := by
        refine readCode_congr hagree (le_trans ?_ hreach)
        split_ifs
        · exact le_reach_decodeCodes
        · exact le_rfl
        · exact le_reach_decodeCodes
        · exact le_reach_decodeCodes
      rw [← hcode]
      split_ifs at hreach ⊢
      · exact ih hreach
      · rfl
      · exact ih hreach
      · exact ih hreach
    · rw [if_neg hloop, if_neg hloop]

theorem decodeRle_congr (behind' : Source)
    (hreach : (decodeRle rle behind w h).reach ≤ rle.length) :
    decodeRle rle behind' w h = decodeRle rle behind w h :=
  (decodeCodes_congr (agreeTo_rleSource rle behind behind') hreach).symm

end Reach

/-! ## Bitmaps -/

/-- The image of an object on the screen. -/
structure AVSubtitleRect where
  x : ℕ
  y : ℕ
  w : ℕ
  h : ℕ
  bitmap : Option (List UInt8)
  bitmapSize : ℤ
  isValid : Bool
  isForcedDisplay : Bool
  objectSegmentId : ℕ
  deriving DecidableEq, Repr

/-- A rectangle of a context that was queued. -/
def AVSubtitleRect.zero : AVSubtitleRect := ⟨0, 0, 0, 0, none, 0, false, false, 0⟩

/-- `decodedRleSize`. -/
def decodedRleSize (object : PGSSubObject) : ℤ := asSigned 32 (object.w * object.h)

/-- `bitmapSize`. -/
def bitmapSize (object : PGSSubObject) : ℤ := asSigned 32 (4 * decodedRleSize object)

/-- `renderRle2Bitmap`: blue, green, red and alpha of each pixel.  Without memory there is
no bitmap. -/
def renderRle2Bitmap (argb : UInt8 → ℕ) (object : PGSSubObject) (pixels : List UInt8) :
    Option (List UInt8) :=
  if bitmapSize object < 0 then none else some (pixels.flatMap fun pixel => leBytes 4 (argb pixel))

/-- The rectangle of the `i`th reference, and whether the next is rendered; `none` where the
assertion that there are decoded pixels fails. -/
def renderObject (argb : UInt8 → ℕ) (i : ℕ) (ref : PGSSubObjectRef) (object : PGSSubObject)
    (behind : Source) (rect : AVSubtitleRect) : Option (AVSubtitleRect × Bool) :=
  let rect := { rect with x := ref.x, y := ref.y, isValid := true }
  if object.rle = [] then
    none
  else
    let rect := { rect with w := object.w, h := object.h }
    if object.rleRemainingLen ≠ 0 then
      some ({ rect with isValid := false }, false)
    else if decodedRleSize object < 0 then
      some (rect, false)
    else
      let decoded := decodeRle object.rle behind object.w object.h
      if decoded.ok then
        some ({ rect with
          bitmap := renderRle2Bitmap argb object decoded.pixels
          bitmapSize := bitmapSize object
          isForcedDisplay := ref.compositionFlag &&& 0x40 ≠ 0
          objectSegmentId := i }, true)
      else
        some ({ rect with w := 0, h := 0, isValid := false }, true)

/-- The loop over the references, with `n` to render from the `i`th on.  `behind` is the
memory behind the data of the object in each slot. -/
def renderObjects (ctx : PGSSubContext) (argb : UInt8 → ℕ) (behind : ℕ → Source) :
    ℕ → ℕ → (ℕ → AVSubtitleRect) → Option (ℕ → AVSubtitleRect)
  | 0, _, rects => some rects
  | n + 1, i, rects =>
    match findObject (ctx.presentation.objects i).id ctx.objects with
    | none => renderObjects ctx argb behind n (i + 1) rects
    | some k =>
      match renderObject argb i (ctx.presentation.objects i) (ctx.objects.object k) (behind k)
          (rects i) with
      | none => none
      | some (rect, goesOn) =>
        if goesOn then
          renderObjects ctx argb behind n (i + 1) (Function.update rects i rect)
        else
          some (Function.update rects i rect)

/-- `decodeRleAndRenderBitmap`: the rectangles afterwards. -/
def decodeRleAndRenderBitmap (ctx : PGSSubContext) (behind : ℕ → Source) :
    Option (ℕ → AVSubtitleRect) :=
  match findPalette ctx.presentation.paletteId ctx.palettes with
  | none => some fun _ => .zero
  | some j =>
    renderObjects ctx (ctx.palettes.palette j).argb behind ctx.presentation.objectCount 0
      fun _ => .zero

/-! ## Items -/

/-- The fields of `AML_SPUVAR` that are set in an item for a display set. -/
structure DecodedItem where
  isImmediatePresent : Bool
  spuStartX : ℕ
  spuStartY : ℕ
  spuWidth : ℕ
  spuHeight : ℕ
  spuOriginDisplayW : ℕ
  spuOriginDisplayH : ℕ
  pts : ℤ
  mDelay : ℤ
  objectSegmentId : ℕ
  bufferSize : ℤ
  spuData : Option (List UInt8)
  deriving DecidableEq, Repr

/-- `DEFAULT_DURATION_SECOND` in units of the time stamps. -/
def DEFAULT_DURATION : ℤ := 30 * 1000 * 90

/-- The item that takes the `i`th image off the screen. -/
def clearItem (p : PGSSubPresentation) (isImmediatePresent : Bool) (i : ℕ) : DecodedItem :=
  ⟨isImmediatePresent, 0, 0, 0, 0, p.videoWidth, p.videoHeight, p.pts, p.pts, i, 0, none⟩

/-- The item for a rectangle. -/
def shownItem (p : PGSSubPresentation) (isImmediatePresent : Bool) (rect : AVSubtitleRect) :
    DecodedItem :=
  ⟨isImmediatePresent, rect.x, rect.y, rect.w, rect.h, p.videoWidth, p.videoHeight, p.pts,
    p.pts + DEFAULT_DURATION, rect.objectSegmentId, rect.bitmapSize, rect.bitmap⟩

/-- The items that take the images off the screen, when there are fewer objects than in the
display set before, or none. -/
def clearItems (p : PGSSubPresentation) (mPreviousObjectNum : ℕ) (isImmediatePresent : Bool) :
    List DecodedItem :=
  if p.objectCount < mPreviousObjectNum ∨ p.objectCount = 0 then
    (List.range MAX_OBJECT_REFS).map (clearItem p isImmediatePresent)
  else
    []

/-- The items for the valid rectangles of objects. -/
def shownItems (ctx : PGSSubContext) (rects : ℕ → AVSubtitleRect) (isImmediatePresent : Bool) :
    List DecodedItem :=
  (List.range ctx.presentation.objectCount).filterMap fun i =>
    match findObject (ctx.presentation.objects i).id ctx.objects with
    | none => none
    | some _ =>
      if (rects i).isValid then some (shownItem ctx.presentation isImmediatePresent (rects i))
      else none

/-- `postDecodedItem`: the items that are posted.  `mPreviousObjectNum` is the number of
objects of the display set before. -/
def postDecodedItem (ctx : PGSSubContext) (rects : ℕ → AVSubtitleRect)
    (mPreviousObjectNum : ℕ) (isImmediatePresent : Bool) : List DecodedItem :=
  clearItems ctx.presentation mPreviousObjectNum isImmediatePresent ++
    shownItems ctx rects isImmediatePresent

/-- A display set is decoded and its items are posted. -/
def decodedItems (ctx : PGSSubContext) (behind : ℕ → Source) (mPreviousObjectNum : ℕ) :
    Option (List DecodedItem) :=
  (decodeRleAndRenderBitmap ctx behind).map fun rects =>
    postDecodedItem ctx rects mPreviousObjectNum true

end Pgs
end AmlSubtitle
