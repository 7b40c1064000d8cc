import AmlSubtitle.Parser.DvdPixel
import AmlSubtitle.Parser.VobSubControl

/-!
# `parser/ExtParser/VobSubIndex.cpp`: the bitmap of a subtitle packet

`genSubBitmap` has `do_vob_sub_cmd` set the fields of a packet, `vob_fill_pixel` fill the two
halves of a plane with its pixels, and `convert2bto32b` take their colours from the palette.

* The codes, the pixels and the ends of the lines are those of the DVD parser; a width is any
  `unsigned short` here, and the count of the decoded pixels is one too.
* An allocation succeeds.  `fuel` bounds the loops that have no bound of their own.
* `LinesFit`: the codes of a field lie in the packet, and their pixels in half of the plane.
* `rendersInBounds_iff`: the packets that are drawn without a read outside the packet, a write
  outside the plane or a lookup outside the tables.
-/

namespace AmlSubtitle
namespace VobSub

open Dvb (Source sourceOf)
open AmlSubtitle.Dvd (Fill At Inside inside_append fillCode endLine changeData codeBits runPixels
  roundUp wordByte)

/-! ## `vob_fill_pixel` -/

/-- `OSD_HALF_SIZE`. -/
def OSD_HALF_SIZE : ℕ := 1920 * 1280 / 8

/-- A pass of the loop over the codes of a line, with the count of the decoded pixels. -/
def fillRun (data : Source) (rownum change_data : ℕ) (s : Fill) : Fill :=
  let s := fillCode data rownum change_data s
  { s with nDecodedPixNum := s.nDecodedPixNum % 2 ^ 16 }

/-- The loops over the lines and over the codes of a line, of at most `fuel` passes together: a
pass is a code, or the end of a line. -/
def fillPasses (data : Source) (rownum change_data : ℕ) : ℕ → ℕ → Fill → Fill
  | 0, _, s => s
  | _ + 1, 0, s => s
  | fuel + 1, lines + 1, s =>
    if s.nDecodedPixNum < rownum then
      fillPasses data rownum change_data fuel (lines + 1) (fillRun data rownum change_data s)
    else
      fillPasses data rownum change_data fuel lines (endLine rownum s)

/-- `vob_fill_pixel`, where `n` is 1 for the upper half of the plane and 2 for the lower one. -/
def vob_fill_pixel (data : Source) (fuel : ℕ) (spu : VobSpu) (n : ℕ) : VobSpu × Fill :=
  let change_data := changeData 4 spu.spuAlpha
  let lookups := if spu.spuAlpha &&& 0xf ≠ 0 then [0, change_data] else []
  let pixelIn := if n = 1 then spu.topPxdAddr else spu.bottomPxdAddr
  let filled := fillPasses data spu.spuWidth change_data fuel (spu.spuHeight / 2)
    { pixelIn := pixelIn, lookups := lookups }
  let spuAlpha := ((spu.spuAlpha &&& 0xfff0) ||| 0xf <<< (change_data <<< 2)) % 2 ^ 16
  (if spu.spuAlpha &&& 0xf ≠ 0 ∧ n = 2 then { spu with spuAlpha := spuAlpha } else spu, filled)

/-! ## `convert2bto32b` -/

/-- What `convert2bto32b` looks up, and the words that it writes, one behind the other. -/
structure Converted where
  paletteLookups : List ℤ
  colourLookups : List ℕ
  dist : List ℕ

/-- The colours of the eight pixels of two bytes. -/
def pixelColours (a b : ℕ) : List ℕ :=
  [(b &&& 0xc0) >>> 6, (b &&& 0x30) >>> 4, (b &&& 0x0c) >>> 2, b &&& 0x03,
    (a &&& 0xc0) >>> 6, (a &&& 0x30) >>> 4, (a &&& 0x0c) >>> 2, a &&& 0x03]

/-- The place of byte `i` of the bitmap in the plane, whose halves hold every second line. -/
def sourcePlace (bytesPerLine i : ℕ) : ℕ :=
  let linenumber := i / bytesPerLine
  (if linenumber &&& 1 ≠ 0 then OSD_HALF_SIZE else 0) + linenumber / 2 * bytesPerLine +
    i % bytesPerLine

/-- `convert2bto32b`.  What stands outside the table is a word of its own. -/
def convert2bto32b (palette : ℤ → ℕ) (source : Source) (length bytesPerLine spu_color
    subtitle_alpha : ℕ) : Converted :=
  let aAlpha1 := (subtitle_alpha >>> 8) >>> 4 &&& 0xf
  let aAlpha2 := subtitle_alpha &&& 0xf
  let aAlpha3 := subtitle_alpha >>> 4 &&& 0xf
  let index0 : ℤ := ((spu_color >>> 8) >>> 4 &&& 0xf : ℕ) - 1
  let index1 : ℤ := (spu_color >>> 8 &&& 0xf : ℕ) - 1
  let index2 : ℤ := (spu_color >>> 4 &&& 0xf : ℕ) - 1
  let index3 : ℤ := (spu_color &&& 0xf : ℕ) - 1
  let shown := fun (aAlpha : ℕ) index =>
    ((if aAlpha = 0 then 0xff000000 else 0) + palette index) % 2 ^ 32
  let (lookups, pal1, pal2) :=
    if aAlpha1 = 0 ∧ aAlpha2 = 0 then ([], 0xff000000, 0xffffffff)
    else if aAlpha1 = 0 ∨ aAlpha2 = 0 then ([index1], shown 0 index1, 0xff000000)
    else ([index1, index2], shown aAlpha1 index1, shown aAlpha2 index2)
  -- the background is transparent
  let RGBA_Pal := [shown 1 index0, pal1, pal2, shown aAlpha3 index3]
  let colours := (List.range ((length + 1) / 2)).flatMap fun k =>
    let place := sourcePlace bytesPerLine (2 * k)
    pixelColours (source place).toNat (source (place + 1)).toNat
  { paletteLookups := index0 :: lookups ++ [index3]
    colourLookups := colours
    dist := colours.map fun colour => RGBA_Pal.getD colour 0 }

/-! ## `genSubBitmap` -/

/-- The plane, of two halves. -/
def vob_pixData (top bottom : Fill) : Source := fun k =>
  if k < OSD_HALF_SIZE then wordByte top.words k else wordByte bottom.words (k - OSD_HALF_SIZE)

/-- What `genSubBitmap` draws. -/
structure Bitmap where
  spu : VobSpu
  top : Fill
  bottom : Fill
  converted : Converted

/-- The bitmap of the fields that `do_vob_sub_cmd` has set. -/
def drawBitmap (palette : ℤ → ℕ) (data : Source) (fuel : ℕ) (spu : VobSpu) : Bitmap :=
  let (spu, top) := vob_fill_pixel data fuel spu 1
  let (spu, bottom) := vob_fill_pixel data fuel spu 2
  let spu := { spu with spuWidth := (((spu.spuWidth + 7) >>> 3) <<< 3) % 2 ^ 16 }
  let rawByte := spu.spuHeight * spu.spuWidth / 4
  { spu := spu
    top := top
    bottom := bottom
    converted := convert2bto32b palette (vob_pixData top bottom) rawByte (spu.spuWidth / 4)
      spu.spuColor spu.spuAlpha }

/-- The reads of a field lie in the packet, its writes in half of the plane, and its lookups in
`PixelData`. -/
structure FillInside (size : ℕ) (s : Fill) : Prop where
  reads : Inside 0 size s.reads
  writes : ∀ w ∈ s.writes, 2 * w + 1 < OSD_HALF_SIZE
  lookups : ∀ k ∈ s.lookups, k < 4

/-- The bitmap is drawn inside, and so are the lookups in the palette and in `RGBA_Pal`. -/
structure Bitmap.InBounds (size : ℕ) (bitmap : Bitmap) : Prop where
  top : FillInside size bitmap.top
  bottom : FillInside size bitmap.bottom
  palette : ∀ k ∈ bitmap.converted.paletteLookups, 0 ≤ k ∧ k < 16
  colours : ∀ k ∈ bitmap.converted.colourLookups, k < 4

/-- A packet, of which `size` bytes are there, is drawn in bounds: `do_vob_sub_cmd` reads inside,
and if it succeeds, the bitmap is in bounds. -/
def RendersInBounds (palette : ℤ → ℕ) (data : Source) (size : ℕ) : Prop :=
  ∀ fuel, (do_vob_sub_cmd data fuel {}).Good size fun spu =>
    ∀ fuel, (drawBitmap palette data fuel spu).InBounds size

/-! ## The lines of a field -/

/-- The lines of a field, from bit `i` on and behind `done` pixels, whose next pixel is `pos`: the
four bytes that are read for each code lie in the packet, and its pixels in half of the plane. -/
inductive LinesFit (data : Source) (size start width : ℕ) : ℕ → ℕ → ℕ → ℕ → Prop where
  | nil {i done pos} : LinesFit data size start width 0 i done pos
  | line {lines i done pos} (hfull : width ≤ done)
      (hrest : LinesFit data size start width lines (roundUp 8 i) (done - width) (roundUp 8 pos)) :
      LinesFit data size start width (lines + 1) i done pos
  | code {lines i done pos} (hdone : done < width)
      (hread : start + 2 * ((i - 8 * start) / 16) + 4 ≤ size)
      (hplane : pos + runPixels data width i done ≤ 4 * OSD_HALF_SIZE)
      (hrest : LinesFit data size start width (lines + 1) (i + codeBits data i)
        ((done + runPixels data width i done) % 2 ^ 16) (pos + runPixels data width i done)) :
      LinesFit data size start width (lines + 1) i done pos

/-- The loops stand at bit `i` of a field whose words are counted from `start` on. -/
structure Standing (start i done pos : ℕ) (s : Fill) : Prop extends At i done pos s where
  start_le : start ≤ s.pixelIn
  even : (s.pixelIn - start) % 2 = 0

section Lines

variable {data : Source} {size start width change_data lines i done pos : ℕ} {s : Fill}

theorem Standing.pixelIn (h : Standing start i done pos s) :
    s.pixelIn = start + 2 * ((i - 8 * start) / 16) := by
  have hbit := h.bit
  have hlt := h.bitPos
  have hstart := h.start_le
  have heven := h.even
  omega

theorem putPixels_pixelIn (colour n : ℕ) (s : Fill) :
    (Dvd.putPixels colour n s).pixelIn = s.pixelIn := by
  induction n generalizing s with
  | zero => rfl
  | succ n ih => exact ih (Dvd.putPixel colour s)

/-- A code moves the reader by a word or not at all. -/
theorem fillCode_pixelIn (data : Source) (width change_data : ℕ) (s : Fill) :
    (fillCode data width change_data s).pixelIn = s.pixelIn ∨
      (fillCode data width change_data s).pixelIn = s.pixelIn + 2 := by
  have hskip : ∀ nBits, (Dvd.skipBits s nBits).pixelIn = s.pixelIn ∨
      (Dvd.skipBits s nBits).pixelIn = s.pixelIn + 2 := by
    intro nBits
    rw [Dvd.skipBits]
    split_ifs
    · exact .inr rfl
    · exact .inl rfl
  rw [fillCode]
  dsimp only
  split_ifs <;> rw [putPixels_pixelIn] <;> exact hskip _

theorem runPixels_pos (data : Source) (i : ℕ) (hdone : done < width) :
    0 < runPixels data width i done := by
  rw [runPixels]
  split_ifs <;> omega

/-- The pixels of a run lie in half of the plane. -/
theorem forall_run_lt_iff (pos : ℕ) {n : ℕ} (hn : 0 < n) (colour : ℕ) :
    (∀ w ∈ ((List.replicate n colour).zipIdx pos).map fun store => store.2 / 8,
      2 * w + 1 < OSD_HALF_SIZE) ↔ pos + n ≤ 4 * OSD_HALF_SIZE := by
  have hhalf : OSD_HALF_SIZE = 307200 := rfl
  rw [List.forall_mem_map, Dvd.forall_zipIdx_iff _ pos fun k => 2 * (k / 8) + 1 < OSD_HALF_SIZE,
    List.length_replicate, hhalf]
  constructor
  · intro h
    have hlast := h (pos + n - 1) (List.mem_range'_1.mpr ⟨by omega, by omega⟩)
    omega
  · intro h k hk
    have hrange := List.mem_range'_1.mp hk
    omega

/-- A code. -/
theorem Standing.fillRun (h : Standing start i done pos s) (hdone : done < width)
    (data : Source) (change_data size : ℕ) :
    Standing start (i + codeBits data i) ((done + runPixels data width i done) % 2 ^ 16)
        (pos + runPixels data width i done) (fillRun data width change_data s) ∧
      (FillInside size (fillRun data width change_data s) ↔ FillInside size s ∧
        start + 2 * ((i - 8 * start) / 16) + 4 ≤ size ∧
          pos + runPixels data width i done ≤ 4 * OSD_HALF_SIZE) := by
  obtain ⟨hat, hwrites, hreads⟩ := h.toAt.fillCode hdone data change_data
  have hmove := fillCode_pixelIn data width change_data s
  have hstart := h.start_le
  have heven := h.even
  refine ⟨⟨⟨hat.bit, hat.bitPos, hat.nibble, ?_, hat.ptr, hat.offset⟩, ?_, ?_⟩, ?_⟩
  · exact congrArg (· % 2 ^ 16) hat.done
  · show start ≤ (fillCode data width change_data s).pixelIn
    omega
  · show ((fillCode data width change_data s).pixelIn - start) % 2 = 0
    omega
  · obtain ⟨l, hl, hlt⟩ := hwrites.lookups
    have hrun := forall_run_lt_iff pos (runPixels_pos data i hdone)
      (Dvd.exchanged change_data (Dvd.codeColour data i))
    have hword : Inside 0 size (List.range' s.pixelIn 4) ↔
        start + 2 * ((i - 8 * start) / 16) + 4 ≤ size := by
      rw [← h.pixelIn]
      exact @Dvd.inside_range' 0 size 3 s.pixelIn (Nat.zero_le _)
    constructor
    · rintro ⟨hread, hwrite, hlookup⟩
      have hread' : Inside 0 size (fillCode data width change_data s).reads := hread
      have hwrite' : ∀ w ∈ (fillCode data width change_data s).writes,
        2 * w + 1 < OSD_HALF_SIZE := hwrite
      have hlookup' : ∀ k ∈ (fillCode data width change_data s).lookups, k < 4 := hlookup
      rw [hreads, inside_append] at hread'
      rw [hwrites.writes, List.forall_mem_append] at hwrite'
      rw [hl, List.forall_mem_append] at hlookup'
      exact ⟨⟨hread'.1, hwrite'.1, hlookup'.1⟩, hword.mp hread'.2, hrun.mp hwrite'.2⟩
    · rintro ⟨⟨hread, hwrite, hlookup⟩, hin, hplane⟩
      refine ⟨?_, ?_, ?_⟩
      · show Inside 0 size (fillCode data width change_data s).reads
        rw [hreads]
        exact inside_append.mpr ⟨hread, hword.mpr hin⟩
      · show ∀ w ∈ (fillCode data width change_data s).writes, 2 * w + 1 < OSD_HALF_SIZE
        rw [hwrites.writes]
        exact List.forall_mem_append.mpr ⟨hwrite, hrun.mpr hplane⟩
      · show ∀ k ∈ (fillCode data width change_data s).lookups, k < 4
        rw [hl]
        exact List.forall_mem_append.mpr ⟨hlookup, hlt⟩

/-- The end of a line. -/
theorem Standing.endLine (h : Standing start i done pos s) (width size : ℕ) :
    Standing start (roundUp 8 i) (done - width) (roundUp 8 pos) (endLine width s) ∧
      (FillInside size (endLine width s) ↔ FillInside size s) := by
  have hstart := h.start_le
  have heven := h.even
  refine ⟨⟨(h.toAt.endLine width).1, ?_, ?_⟩, ?_⟩
  · rw [Dvd.endLine_eq]
    dsimp only
    split_ifs <;> omega
  · rw [Dvd.endLine_eq]
    dsimp only
    split_ifs <;> omega
  · rw [Dvd.endLine_eq]
    exact ⟨fun h => ⟨h.reads, h.writes, h.lookups⟩, fun h => ⟨h.reads, h.writes, h.lookups⟩⟩

theorem fillPasses_code {fuel : ℕ} (h : Standing start i done pos s) (hdone : done < width) :
    fillPasses data width change_data (fuel + 1) (lines + 1) s =
      fillPasses data width change_data fuel (lines + 1)
        (VobSub.fillRun data width change_data s) := by
  rw [fillPasses, h.done, if_pos hdone]

theorem fillPasses_line {fuel : ℕ} (h : Standing start i done pos s) (hfull : width ≤ done) :
    fillPasses data width change_data (fuel + 1) (lines + 1) s =
      fillPasses data width change_data fuel lines (Dvd.endLine width s) := by
  rw [fillPasses, h.done, if_neg (Nat.not_lt.mpr hfull)]

/-- Lines that fit are filled inside. -/
theorem LinesFit.inside (h : LinesFit data size start width lines i done pos)
    (hs : Standing start i done pos s) (hinside : FillInside size s) (fuel : ℕ) :
    FillInside size (fillPasses data width change_data fuel lines s) := by
  induction h generalizing s fuel with
  | nil =>
    cases fuel with
    | zero => exact hinside
    | succ fuel => exact hinside
  | line hfull hrest ih =>
    cases fuel with
    | zero => exact hinside
    | succ fuel =>
      obtain ⟨hnext, hiff⟩ := hs.endLine width size
      rw [fillPasses_line hs hfull]
      exact ih hnext (hiff.mpr hinside) fuel
  | code hdone hread hplane hrest ih =>
    cases fuel with
    | zero => exact hinside
    | succ fuel =>
      obtain ⟨hnext, hiff⟩ := hs.fillRun hdone data change_data size
      rw [fillPasses_code hs hdone]
      exact ih hnext (hiff.mpr ⟨hinside, hread, hplane⟩) fuel

/-- Lines that are filled inside fit: each pass takes a line or some of the plane. -/
theorem linesFit_of_inside (hs : Standing start i done pos s)
    (h : ∀ fuel, FillInside size (fillPasses data width change_data fuel lines s)) :
    LinesFit data size start width lines i done pos := by
  induction hleft : 4 * OSD_HALF_SIZE - pos + lines using Nat.strong_induction_on
    generalizing lines i done pos s with
  | _ left ih =>
    cases lines with
    | zero => exact .nil
    | succ lines =>
      by_cases hdone : done < width
      · obtain ⟨hnext, hiff⟩ := hs.fillRun hdone data change_data size
        have hcode : ∀ fuel, FillInside size (fillPasses data width change_data fuel (lines + 1)
            (VobSub.fillRun data width change_data s)) := fun fuel => by
          rw [← fillPasses_code hs hdone]
          exact h (fuel + 1)
        obtain ⟨-, hread, hplane⟩ := hiff.mp (hcode 0)
        have hpos := runPixels_pos data i hdone
        exact .code hdone hread hplane (ih _ (by omega) hnext hcode rfl)
      · have hfull := Nat.not_lt.mp hdone
        obtain ⟨hnext, -⟩ := hs.endLine width size
        have hround : pos ≤ roundUp 8 pos := by
          unfold roundUp
          omega
        refine .line hfull (ih _ (by omega) hnext (fun fuel => ?_) rfl)
        rw [← fillPasses_line hs hfull]
        exact h (fuel + 1)

/-- **The lines of a field** are filled inside exactly if they fit. -/
theorem fillPasses_inside_iff (hs : Standing start i done pos s) :
    (∀ fuel, FillInside size (fillPasses data width change_data fuel lines s)) ↔
      FillInside size s ∧ LinesFit data size start width lines i done pos := by
  constructor
  · intro h
    refine ⟨?_, linesFit_of_inside hs h⟩
    have hstart := h 0
    rwa [fillPasses] at hstart
  · rintro ⟨hinside, hfit⟩ fuel
    exact hfit.inside hs hinside fuel

end Lines

/-! ## The contrast -/

theorem changeData_le (nibbles alpha : ℕ) : changeData nibbles alpha ≤ nibbles := by
  induction nibbles generalizing alpha with
  | zero => exact le_rfl
  | succ nibbles ih =>
    rw [changeData]
    split_ifs
    · exact Nat.succ_le_succ (ih _)
    · exact Nat.zero_le _

/-- The contrast that the second call leaves: its lowest nibble is cleared, and the highest one is
that of the contrast, or set as the first one that was not. -/
theorem exchangedAlpha (alpha : ℕ) :
    let alpha' := if alpha &&& 0xf ≠ 0 then
      ((alpha &&& 0xfff0) ||| 0xf <<< (changeData 4 alpha <<< 2)) % 2 ^ 16 else alpha
    alpha' &&& 0xf = 0 ∧
      (alpha' >>> 12 &&& 0xf = 0 ↔ alpha >>> 12 &&& 0xf = 0 ∧ changeData 4 alpha ≠ 3) := by
  dsimp only
  split_ifs with hnibble
  · have hlow : ∀ z, z % 2 ^ 16 &&& 0xf = z &&& 0xf := fun z => by
      rw [Nat.and_two_pow_sub_one_eq_mod _ 4, Nat.and_two_pow_sub_one_eq_mod _ 4]
      omega
    have hhigh : ∀ z, (z % 2 ^ 16) >>> 12 &&& 0xf = z >>> 12 &&& 0xf := fun z => by
      rw [Nat.and_two_pow_sub_one_eq_mod _ 4, Nat.and_two_pow_sub_one_eq_mod _ 4,
        Nat.shiftRight_eq_div_pow, Nat.shiftRight_eq_div_pow]
      omega
    have hmask : ((alpha &&& 0xfff0) >>> 12 &&& 0xf) = alpha >>> 12 &&& 0xf := by
      rw [Nat.shiftRight_and_distrib, Nat.and_assoc]
      rfl
    have hcount : ∀ c, c ≤ 4 → c ≠ 0 → 0xf <<< (c <<< 2) &&& 0xf = 0 ∧
        (0xf <<< (c <<< 2) >>> 12 &&& 0xf = 0 ↔ c ≠ 3) := by
      decide
    obtain ⟨hset, hset'⟩ := hcount (changeData 4 alpha) (changeData_le 4 alpha) (by
      rw [changeData, if_pos hnibble]
      exact Nat.succ_ne_zero _)
    rw [hlow, hhigh, Nat.and_or_distrib_right, hset, Nat.or_zero, Nat.and_assoc,
      Nat.shiftRight_or_distrib, Nat.and_or_distrib_right, hmask, Nat.or_eq_zero_iff, hset']
    exact ⟨Nat.and_zero alpha, Iff.rfl⟩
  · have hzero : alpha &&& 0xf = 0 := not_not.mp hnibble
    have hcount : changeData 4 alpha = 0 := by rw [changeData, if_neg hnibble]
    exact ⟨hzero, by simp [hcount]⟩

/-! ## The colours -/

/-- An index into the palette, one less than a nibble. -/
theorem index_iff (n : ℕ) :
    (0 ≤ ((n &&& 0xf : ℕ) : ℤ) - 1 ∧ ((n &&& 0xf : ℕ) : ℤ) - 1 < 16) ↔ n &&& 0xf ≠ 0 := by
  have hle : n &&& 0xf ≤ 0xf := Nat.and_le_right
  omega

/-- The lookups in the palette, of a contrast whose lowest nibble is cleared. -/
theorem forall_paletteLookups_iff (palette : ℤ → ℕ) (source : Source)
    (length bytesPerLine spu_color : ℕ) {alpha : ℕ} (halpha : alpha &&& 0xf = 0) :
    (∀ k ∈ (convert2bto32b palette source length bytesPerLine spu_color alpha).paletteLookups,
        0 ≤ k ∧ k < 16) ↔
      spu_color >>> 12 &&& 0xf ≠ 0 ∧ spu_color &&& 0xf ≠ 0 ∧
        (¬ alpha >>> 12 &&& 0xf = 0 → spu_color >>> 8 &&& 0xf ≠ 0) := by
  unfold convert2bto32b
  rw [halpha, ← Nat.shiftRight_add, ← Nat.shiftRight_add]
  by_cases hhigh : alpha >>> (8 + 4) &&& 0xf = 0
  · simp only [hhigh, and_self, if_true, List.forall_mem_cons, List.cons_append, List.nil_append,
      List.not_mem_nil, false_imp_iff, implies_true, and_true, index_iff]
    simp
  · simp only [hhigh, or_true, if_true, if_false, List.forall_mem_cons,
      List.cons_append, List.nil_append, List.not_mem_nil, false_imp_iff, implies_true, and_true,
      index_iff]
    simp only [not_false_iff, true_imp_iff]
    tauto

theorem forall_colourLookups (palette : ℤ → ℕ) (source : Source)
    (length bytesPerLine spu_color alpha : ℕ) :
    ∀ k ∈ (convert2bto32b palette source length bytesPerLine spu_color alpha).colourLookups,
      k < 4 := by
  have hpixels : ∀ a b, ∀ k ∈ pixelColours a b, k < 4 := by
    intro a b
    have hmask : ∀ n m : ℕ, n &&& m ≤ m := fun n m => Nat.and_le_right
    have ha₁ := hmask a 0xc0
    have ha₂ := hmask a 0x30
    have ha₃ := hmask a 0x0c
    have ha₄ := hmask a 0x03
    have hb₁ := hmask b 0xc0
    have hb₂ := hmask b 0x30
    have hb₃ := hmask b 0x0c
    have hb₄ := hmask b 0x03
    simp only [pixelColours, List.forall_mem_cons, Nat.shiftRight_eq_div_pow]
    refine ⟨?_, ?_, ?_, ?_, ?_, ?_, ?_, ?_, fun k hk => absurd hk List.not_mem_nil⟩ <;> omega
  intro k hk
  obtain ⟨place, -, hmem⟩ := List.mem_flatMap.mp hk
  exact hpixels _ _ k hmem

/-! ## Packets that are drawn in bounds -/

/-- The fields of a packet are drawn in bounds: a nibble of the contrast is zero, both fields fit,
and the colours that are looked up are not those of the nibble 0. -/
structure BitmapFits (data : Source) (size : ℕ) (spu : VobSpu) : Prop where
  contrast : ∃ j < 4, spu.spuAlpha >>> (4 * j) &&& 0xf = 0
  top : LinesFit data size spu.topPxdAddr spu.spuWidth (spu.spuHeight / 2) (8 * spu.topPxdAddr) 0 0
  bottom : LinesFit data size spu.bottomPxdAddr spu.spuWidth (spu.spuHeight / 2)
    (8 * spu.bottomPxdAddr) 0 0
  background : spu.spuColor >>> 12 &&& 0xf ≠ 0
  last : spu.spuColor &&& 0xf ≠ 0
  fill : spu.spuAlpha >>> 12 &&& 0xf ≠ 0 ∨ changeData 4 spu.spuAlpha = 3 →
    spu.spuColor >>> 8 &&& 0xf ≠ 0

section Bitmaps

variable {data : Source} {size : ℕ} {spu : VobSpu}

@[simp] theorem vob_fill_pixel_first (fuel : ℕ) : (vob_fill_pixel data fuel spu 1).1 = spu := by
  simp [vob_fill_pixel]

/-- A field is filled inside. -/
theorem vob_fill_pixel_inside_iff {n start : ℕ}
    (hstart : (if n = 1 then spu.topPxdAddr else spu.bottomPxdAddr) = start) :
    (∀ fuel, FillInside size (vob_fill_pixel data fuel spu n).2) ↔
      (∃ j < 4, spu.spuAlpha >>> (4 * j) &&& 0xf = 0) ∧
        LinesFit data size start spu.spuWidth (spu.spuHeight / 2) (8 * start) 0 0 := by
  have hs : Standing start (8 * start) 0 0
      { pixelIn := start
        lookups := if spu.spuAlpha &&& 0xf ≠ 0 then [0, changeData 4 spu.spuAlpha] else [] } :=
    ⟨⟨rfl, by simp, rfl, rfl, rfl, rfl⟩, le_rfl, by simp⟩
  simp only [vob_fill_pixel, hstart]
  rw [fillPasses_inside_iff hs, ← Dvd.forall_exchanged_lt_iff]
  refine and_congr_left fun _ => ?_
  exact ⟨FillInside.lookups, fun h => ⟨fun k hk => absurd hk List.not_mem_nil,
    fun k hk => absurd hk List.not_mem_nil, h⟩⟩

/-- The colours of a packet are looked up in the palette. -/
theorem drawBitmap_palette_iff (palette : ℤ → ℕ) (fuel : ℕ) :
    (∀ k ∈ (drawBitmap palette data fuel spu).converted.paletteLookups, 0 ≤ k ∧ k < 16) ↔
      spu.spuColor >>> 12 &&& 0xf ≠ 0 ∧ spu.spuColor &&& 0xf ≠ 0 ∧
        (spu.spuAlpha >>> 12 &&& 0xf ≠ 0 ∨ changeData 4 spu.spuAlpha = 3 →
          spu.spuColor >>> 8 &&& 0xf ≠ 0) := by
  obtain ⟨hlow, hhigh⟩ := exchangedAlpha spu.spuAlpha
  have halpha : (vob_fill_pixel data fuel spu 2).1.spuAlpha = if spu.spuAlpha &&& 0xf ≠ 0 then
      ((spu.spuAlpha &&& 0xfff0) ||| 0xf <<< (changeData 4 spu.spuAlpha <<< 2)) % 2 ^ 16
      else spu.spuAlpha := by
    rw [vob_fill_pixel]
    dsimp only
    split_ifs with hboth hnibble hnibble
    · rfl
    · exact absurd hboth.1 hnibble
    · exact absurd ⟨hnibble, rfl⟩ hboth
    · rfl
  have hcolor : (vob_fill_pixel data fuel spu 2).1.spuColor = spu.spuColor := by
    rw [vob_fill_pixel]
    dsimp only
    split_ifs <;> rfl
  rw [← halpha] at hlow hhigh
  rw [drawBitmap]
  dsimp only
  rw [vob_fill_pixel_first, forall_paletteLookups_iff _ _ _ _ _ hlow, hcolor, hhigh]
  tauto

/-- **A bitmap is drawn in bounds** exactly if it fits. -/
theorem drawBitmap_inBounds_iff (palette : ℤ → ℕ) :
    (∀ fuel, (drawBitmap palette data fuel spu).InBounds size) ↔ BitmapFits data size spu := by
  have htop : ∀ fuel, (drawBitmap palette data fuel spu).top =
      (vob_fill_pixel data fuel spu 1).2 := fun _ => rfl
  have hbottom : ∀ fuel, (drawBitmap palette data fuel spu).bottom =
      (vob_fill_pixel data fuel spu 2).2 := by
    intro fuel
    rw [drawBitmap]
    dsimp only
    rw [vob_fill_pixel_first]
  have hfirst := @vob_fill_pixel_inside_iff data size spu 1 spu.topPxdAddr rfl
  have hsecond := @vob_fill_pixel_inside_iff data size spu 2 spu.bottomPxdAddr rfl
  constructor
  · intro h
    obtain ⟨hcontrast, hlines⟩ := hfirst.mp fun fuel => htop fuel ▸ (h fuel).top
    obtain ⟨-, hlines'⟩ := hsecond.mp fun fuel => hbottom fuel ▸ (h fuel).bottom
    obtain ⟨hbackground, hlast, hfill⟩ := (drawBitmap_palette_iff palette 0).mp (h 0).palette
    exact ⟨hcontrast, hlines, hlines', hbackground, hlast, hfill⟩
  · rintro ⟨hcontrast, hlines, hlines', hbackground, hlast, hfill⟩ fuel
    refine ⟨?_, ?_, ?_, forall_colourLookups _ _ _ _ _ _⟩
    · rw [htop]
      exact hfirst.mpr ⟨hcontrast, hlines⟩ fuel
    · rw [hbottom]
      exact hsecond.mpr ⟨hcontrast, hlines'⟩ fuel
    · exact (drawBitmap_palette_iff palette fuel).mpr ⟨hbackground, hlast, hfill⟩

end Bitmaps

/-- **A packet is drawn in bounds** exactly if its commands, as far as they are read, lie in it,
and, where they come to their end, what they have set fits. -/
theorem rendersInBounds_iff (palette : ℤ → ℕ) (data : Source) (size : ℕ) :
    RendersInBounds palette data size ↔ Admits data size (BitmapFits data size) {} := by
  have hfits : (fun spu => ∀ fuel, (drawBitmap palette data fuel spu).InBounds size) =
      BitmapFits data size := funext fun _ => propext (drawBitmap_inBounds_iff palette)
  rw [RendersInBounds, hfits]
  exact do_vob_sub_cmd_inside_iff

/-- A packet whose only command is their end: no colour is set. -/
def colourless : List UInt8 := [0, 5, 0, 0, 0xff]

/-- A packet of 23 bytes with two lines of two pixels, whose first field is behind it. -/
def fieldBehind : List UInt8 :=
  [0, 23, 0, 0, 3, 0x12, 0x34, 4, 0xff, 0xf0, 5, 0, 0, 1, 0, 0, 1, 6, 0, 23, 0, 4, 0xff]

/-- The palette is looked up in front of its first colour, and the code of a line is read behind
the packet. -/
theorem not_rendersInBounds_colourless :
    ¬ RendersInBounds (fun _ => 0) (sourceOf colourless) 5 ∧
      ¬ RendersInBounds (fun _ => 0) (sourceOf fieldBehind) 23 := by
  constructor
  · intro h
    obtain ⟨hfirst, -⟩ := ((h 0).2 (by decide) 0).palette (-1) (by decide)
    exact absurd hfirst (by decide)
  · intro h
    have hread := ((h 0).2 (by decide) 1).top.reads 23 (by decide)
    exact absurd hread.2 (by decide)

end VobSub
end AmlSubtitle
