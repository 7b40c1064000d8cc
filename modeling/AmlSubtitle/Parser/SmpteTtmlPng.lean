import AmlSubtitle.Lib.Lockstep
import AmlSubtitle.Lib.Words

/-!
# The picture of a SMPTE-TTML image

`decodePng` of `parser/SmpteTtmlParser.cpp` lets libpng read an image and copies the part of it
that is on the display, four bytes a pixel, into the buffer of an item.

* `Png`: what libpng gives, rows with as many bytes a pixel as the colour type has channels after
  the transformations.
* `decodePng`: the copy.  A byte outside a row or outside the buffer is `none`.
* `isSome_run_iff`: a run of the loops, told by the places it reads and writes.
* `copies_iff`: the images, origins and displays for which the loops stay inside.
-/

namespace AmlSubtitle
namespace SmpteTtml

open Words

/-! ## The image -/

inductive ColorType where
  | gray
  | rgb
  | palette
  | grayAlpha
  | rgbAlpha
  deriving DecidableEq, Repr

namespace ColorType

/-- The bytes of a pixel, eight bits a channel. -/
def channels : ColorType → ℕ
  | gray => 1
  | rgb => 3
  | palette => 1
  | grayAlpha => 2
  | rgbAlpha => 4

/-- `png_set_palette_to_rgb`. -/
def paletteToRgb : ColorType → ColorType
  | palette => rgb
  | c => c

/-- `png_set_tRNS_to_alpha`. -/
def tRNSToAlpha : ColorType → ColorType
  | gray => grayAlpha
  | rgb => rgbAlpha
  | c => c

/-- `png_set_gray_to_rgb`. -/
def grayToRgb : ColorType → ColorType
  | gray => rgb
  | grayAlpha => rgbAlpha
  | c => c

/-- The type of the rows: `tRNS` says that the image has a chunk with transparent colours. -/
def transformed (color_type : ColorType) (tRNS : Bool) : ColorType :=
  let c := color_type.paletteToRgb
  let c := if tRNS then c.tRNSToAlpha else c
  if color_type = gray ∨ color_type = grayAlpha then c.grayToRgb else c

/-- The image has transparency. -/
def HasAlpha (color_type : ColorType) (tRNS : Bool) : Prop :=
  color_type = grayAlpha ∨ color_type = rgbAlpha ∨ tRNS = true

instance (color_type : ColorType) (tRNS : Bool) : Decidable (HasAlpha color_type tRNS) :=
  inferInstanceAs (Decidable (_ ∨ _))

theorem channels_transformed (color_type : ColorType) (tRNS : Bool) :
    (transformed color_type tRNS).channels = if HasAlpha color_type tRNS then 4 else 3 := by
  cases color_type <;> cases tRNS <;> rfl

end ColorType

/-- An image and its rows as libpng delivers them.  The depth of the image is gone: the
transformations leave eight bits a channel. -/
structure Png where
  width : ℕ
  height : ℕ
  color_type : ColorType
  tRNS : Bool
  rows : List (List UInt8)
  width_pos : 0 < width
  height_pos : 0 < height
  width_lt : width < 2 ^ 31
  height_lt : height < 2 ^ 31
  length_rows : rows.length = height
  length_row : ∀ row ∈ rows, row.length = width * (color_type.transformed tRNS).channels

/-- Where an item stands on the display. -/
structure Placement where
  spu_start_x : UInt16
  spu_start_y : UInt16
  spu_origin_display_w : UInt32
  spu_origin_display_h : UInt32
  deriving DecidableEq

/-- What the item gets. -/
structure Picture where
  spu_data : List UInt8
  buffer_size : ℕ
  spu_width : ℕ
  spu_height : ℕ
  deriving DecidableEq, Repr

/-! ## The copy -/

/-- `resize_width` and `resize_height`. -/
def resized (size start display : ℕ) : ℕ :=
  if size + start ≤ display then size else asUnsigned 32 (display - start)

/-- The variables of the loops. -/
structure Copy where
  spu_data : List UInt8
  index : ℤ

/-- `row_pointers[y][i]`. -/
def Png.readByte (png : Png) (y : ℕ) (i : ℤ) : Option UInt8 :=
  if 0 ≤ i then png.rows[y]?.bind fun row => row[i.toNat]? else none

/-- `spu->spu_data[index++] = v`. -/
def Copy.put (s : Copy) (v : UInt8) : Option Copy :=
  if 0 ≤ s.index ∧ s.index < s.spu_data.length then
    some ⟨s.spu_data.set s.index.toNat v, asSigned 32 (s.index + 1)⟩
  else none

/-- A byte that the loops copy: its row, its pixel and its channel. -/
structure Place where
  y : ℕ
  x : ℕ
  channel : ℕ

/-- The bytes in the order of the loops: red, green, blue and alpha of each pixel. -/
def places (resize_width resize_height : ℕ) : List Place :=
  (List.range resize_height).flatMap fun y =>
    (List.range resize_width).flatMap fun x => [⟨y, x, 2⟩, ⟨y, x, 1⟩, ⟨y, x, 0⟩, ⟨y, x, 3⟩]

/-- One byte. -/
def copyByte (png : Png) (s : Copy) (p : Place) : Option Copy :=
  (png.readByte p.y (asSigned 32 (p.x * 4 + p.channel))).bind s.put

/-- `decodePng`, the image read.  `memory` is what the new buffer happens to hold. -/
def decodePng (png : Png) (spu : Placement) (memory : ℕ → UInt8) : Option Picture :=
  let resize_width := resized png.width spu.spu_start_x.toNat spu.spu_origin_display_w.toNat
  let resize_height := resized png.height spu.spu_start_y.toNat spu.spu_origin_display_h.toNat
  let buffer_size := resize_width * resize_height * 4 % 2 ^ 32
  (Lockstep.run (copyByte png) ⟨(List.range buffer_size).map memory, 0⟩
    (places resize_width resize_height)).map fun s =>
      { spu_data := s.spu_data
        buffer_size := buffer_size
        spu_width := resize_width % 2 ^ 16
        spu_height := resize_height % 2 ^ 16 }

/-! ## The places that are read and written -/

section Loops

variable (png : Png)

/-- A byte is in its row. -/
def Png.Has (png : Png) (p : Place) : Prop :=
  p.y < png.height ∧ 0 ≤ asSigned 32 (p.x * 4 + p.channel) ∧
    asSigned 32 (p.x * 4 + p.channel) < png.width * (png.color_type.transformed png.tRNS).channels

/-- The index of the `m`-th byte is in a buffer of `n`. -/
def Fits (n m : ℕ) : Prop := 0 ≤ asSigned 32 m ∧ asSigned 32 m < n

theorem isSome_readByte (p : Place) :
    (png.readByte p.y (asSigned 32 (p.x * 4 + p.channel))).isSome ↔ png.Has p := by
  have hrows := png.length_rows
  rw [Png.readByte, Png.Has]
  split_ifs with hi
  · cases hrow : png.rows[p.y]? with
    | none =>
      have hle := List.getElem?_eq_none_iff.mp hrow
      exact iff_of_false Bool.false_ne_true fun h => by omega
    | some row =>
      obtain ⟨hy, hmem⟩ := List.getElem?_eq_some_iff.mp hrow
      have hlength := png.length_row row (hmem ▸ List.getElem_mem hy)
      rw [Option.bind_some, isSome_getElem?, hlength]
      omega
  · exact iff_of_false Bool.false_ne_true fun h => hi h.2.1

/-- The index goes up by one. -/
theorem asSigned_succ (m : ℕ) :
    asSigned 32 (asSigned 32 m + 1) = asSigned 32 ((m + 1 : ℕ) : ℤ) := by
  obtain ⟨k, hk⟩ := exists_eq_asSigned_add 32 m
  have hturns := asSigned_add_mul 32 (asSigned 32 m + 1) k
  have hsum : asSigned 32 m + 1 + k * 2 ^ 32 = ((m + 1 : ℕ) : ℤ) := by
    push_cast
    omega
  rw [← hturns, hsum]

/-- **A run of the loops**: what is read is in the rows, and what is written is in the buffer. -/
theorem isSome_run_iff {n : ℕ} (ps : List Place) (m : ℕ) {spu_data : List UInt8}
    (hdata : spu_data.length = n) :
    (Lockstep.run (copyByte png) ⟨spu_data, asSigned 32 m⟩ ps).isSome ↔
      (∀ p ∈ ps, png.Has p) ∧ ∀ j < ps.length, Fits n (m + j) := by
  induction ps generalizing spu_data m with
  | nil =>
    exact iff_of_true rfl ⟨fun p hp => absurd hp List.not_mem_nil,
      fun j hj => absurd hj (Nat.not_lt_zero j)⟩
  | cons p ps ih =>
    have hread := isSome_readByte png p
    -- the first byte is the `m`-th, and the others follow it
    have hfits : (∀ j < (p :: ps).length, Fits n (m + j)) ↔
        Fits n m ∧ ∀ j < ps.length, Fits n (m + 1 + j) := by
      constructor
      · intro h
        refine ⟨h 0 (Nat.succ_pos _), fun j hj => ?_⟩
        have hnext := h (j + 1) (Nat.succ_lt_succ hj)
        rwa [← Nat.add_assoc, Nat.add_right_comm] at hnext
      · rintro ⟨hfirst, hrest⟩ j hj
        cases j with
        | zero => exact hfirst
        | succ j =>
          have hnext := hrest j (Nat.lt_of_succ_lt_succ hj)
          rwa [Nat.add_right_comm, Nat.add_assoc] at hnext
    rw [List.forall_mem_cons, hfits, ← hread, Lockstep.run, copyByte]
    cases png.readByte p.y (asSigned 32 (p.x * 4 + p.channel)) with
    | none => simp
    | some v =>
      rw [Option.bind_some, Copy.put, hdata, asSigned_succ]
      by_cases hfit : Fits n m
      · have hif : 0 ≤ asSigned 32 m ∧ asSigned 32 m < n := hfit
        have hlength : (spu_data.set (asSigned 32 m).toNat v).length = n := by
          rw [List.length_set, hdata]
        rw [if_pos hif, Option.bind_some, ih (m + 1) hlength]
        simp [hfit]
      · have hif : ¬ (0 ≤ asSigned 32 m ∧ asSigned 32 m < n) := hfit
        rw [if_neg hif]
        simp [hfit]

/-- What the loops read: four channels of each pixel. -/
theorem forall_places_iff {w h : ℕ} {P : Place → Prop} :
    (∀ p ∈ places w h, P p) ↔ ∀ y < h, ∀ x < w, ∀ k < 4, P ⟨y, x, k⟩ := by
  simp only [places, List.mem_flatMap, List.mem_range]
  constructor
  · intro hall y hy x hx k hk
    refine hall _ ⟨y, hy, x, hx, ?_⟩
    interval_cases k <;> simp
  · rintro hall p ⟨y, hy, x, hx, hp⟩
    simp only [List.mem_cons, List.not_mem_nil, or_false] at hp
    rcases hp with rfl | rfl | rfl | rfl <;> exact hall y hy x hx _ (by decide)

theorem length_places (w h : ℕ) : (places w h).length = w * h * 4 := by
  simp [places]
  ring

/-- The indices are in a buffer of the size that is computed if they are in the range of an
`int`. -/
theorem forall_fits_iff (n : ℕ) : (∀ j < n, Fits (n % 2 ^ 32) (0 + j)) ↔ n ≤ 2 ^ 31 := by
  constructor
  · intro h
    by_contra hlt
    obtain ⟨hzero, -⟩ := h (2 ^ 31) (by omega)
    exact absurd hzero (by decide)
  · intro hle j hj
    have hvalue : asSigned 32 ((0 + j : ℕ) : ℤ) = j := by
      rw [Nat.zero_add, asSigned_of_lt (by omega)]
    rw [Fits, hvalue]
    omega

/-- Where the loops stay inside, in terms of the size that they copy. -/
theorem isSome_run_places_iff {w h : ℕ} {spu_data : List UInt8}
    (hdata : spu_data.length = w * h * 4 % 2 ^ 32) :
    (Lockstep.run (copyByte png) ⟨spu_data, 0⟩ (places w h)).isSome ↔
      w = 0 ∨ h = 0 ∨ h ≤ png.height ∧
        4 * w ≤ png.width * (png.color_type.transformed png.tRNS).channels ∧
          w * h * 4 ≤ 2 ^ 31 := by
  have hrun := isSome_run_iff png (places w h) 0 hdata
  have hzero : asSigned 32 ((0 : ℕ) : ℤ) = 0 := by decide
  rw [hzero] at hrun
  rw [hrun, forall_places_iff, length_places, forall_fits_iff]
  rcases Nat.eq_zero_or_pos w with rfl | hw
  · simp
  rcases Nat.eq_zero_or_pos h with rfl | hh
  · simp
  have hpixel : w ≤ w * h := Nat.le_mul_of_pos_right w hh
  have hvalue : w * h * 4 ≤ 2 ^ 31 → ∀ x k : ℕ, x < w → k < 4 →
      asSigned 32 (x * 4 + k) = x * 4 + k := fun hsize x k hx hk =>
    asSigned_eq (by omega) (by omega)
  constructor
  · rintro ⟨hreads, hsize⟩
    refine .inr (.inr ⟨?_, ?_, hsize⟩)
    · obtain ⟨hrow, -⟩ := hreads (h - 1) (by omega) 0 hw 0 (by decide)
      dsimp only at hrow
      omega
    · obtain ⟨-, -, hlast⟩ := hreads 0 hh (w - 1) (by omega) 3 (by decide)
      have hlt := hvalue hsize (w - 1) 3 (by omega) (by decide)
      dsimp only at hlast
      rw [hlt] at hlast
      omega
  · rintro (hzero | hzero | ⟨hrow, hwidth, hsize⟩)
    · omega
    · omega
    · refine ⟨fun y hy x hx k hk => ⟨hy.trans_le hrow, ?_, ?_⟩, hsize⟩
      all_goals dsimp only
      all_goals rw [hvalue hsize x k hx hk]
      all_goals omega

end Loops

/-! ## What is on the display -/

/-- The part of an image that begins at `start` and is on the display. -/
def visible (size start display : ℕ) : ℕ := min size (display - start)

section Resized

variable {size start display : ℕ}

theorem resized_of_le (h : start ≤ display) (hdisplay : display < 2 ^ 32) :
    resized size start display = visible size start display := by
  rw [resized, visible]
  split_ifs with hfits
  · omega
  · rw [← Nat.cast_sub h, asUnsigned_of_lt (by omega)]
    omega

/-- Where the origin is off the display, the size wraps around. -/
theorem lt_resized (h : display < start) (hsize : size < 2 ^ 31) (hstart : start < 2 ^ 16) :
    size < resized size start display := by
  have hwrap := @asUnsigned_of_neg 32 (display - start) (by omega) (by omega)
  rw [resized, if_neg (by omega)]
  omega

theorem resized_eq_zero_iff (hpos : 0 < size) (hsize : size < 2 ^ 31) (hstart : start < 2 ^ 16)
    (hdisplay : display < 2 ^ 32) : resized size start display = 0 ↔ start = display := by
  rcases Nat.lt_or_ge display start with hlt | hle
  · have hwrap := lt_resized hlt hsize hstart
    omega
  · rw [resized_of_le hle hdisplay, visible]
    omega

/-- Only where the origin is on the display no more is copied than there is. -/
theorem resized_le_iff (hsize : size < 2 ^ 31) (hstart : start < 2 ^ 16)
    (hdisplay : display < 2 ^ 32) : resized size start display ≤ size ↔ start ≤ display := by
  rcases Nat.lt_or_ge display start with hlt | hle
  · have hwrap := lt_resized hlt hsize hstart
    omega
  · rw [resized_of_le hle hdisplay]
    exact iff_of_true (min_le_left _ _) hle

end Resized

/-- The loops stay inside: nothing is copied as the origin is where the display ends, or the origin
is on the display, the pixels that are copied have four bytes each in their rows, and their bytes
can be counted by an `int`. -/
def Copies (png : Png) (spu : Placement) : Prop :=
  let sx := spu.spu_start_x.toNat
  let sy := spu.spu_start_y.toNat
  let w := spu.spu_origin_display_w.toNat
  let h := spu.spu_origin_display_h.toNat
  sx = w ∨ sy = h ∨
    sx ≤ w ∧ sy ≤ h ∧
      (ColorType.HasAlpha png.color_type png.tRNS ∨ 4 * visible png.width sx w ≤ 3 * png.width) ∧
        visible png.width sx w * visible png.height sy h * 4 ≤ 2 ^ 31

/-- **The copies that stay inside** the rows and the buffer. -/
theorem copies_iff (png : Png) (spu : Placement) (memory : ℕ → UInt8) :
    (decodePng png spu memory).isSome ↔ Copies png spu := by
  have hsx := spu.spu_start_x.toNat_lt
  have hsy := spu.spu_start_y.toNat_lt
  have hw := spu.spu_origin_display_w.toNat_lt
  have hh := spu.spu_origin_display_h.toNat_lt
  have hwidth := png.width_lt
  have hheight := png.height_lt
  have hwpos := png.width_pos
  have hhpos := png.height_pos
  have hchannels := ColorType.channels_transformed png.color_type png.tRNS
  have hzerox := resized_eq_zero_iff hwpos hwidth hsx hw
  have hzeroy := resized_eq_zero_iff hhpos hheight hsy hh
  have hlex := resized_le_iff hwidth hsx hw
  have hley := resized_le_iff hheight hsy hh
  rw [decodePng, Copies]
  simp only [Option.isSome_map]
  rw [isSome_run_places_iff png (by simp), hchannels, hzerox, hzeroy, hley]
  refine or_congr_right (or_congr_right ?_)
  by_cases hon : spu.spu_start_x.toNat ≤ spu.spu_origin_display_w.toNat ∧
      spu.spu_start_y.toNat ≤ spu.spu_origin_display_h.toNat
  · rw [resized_of_le hon.1 hw, resized_of_le hon.2 hh, and_iff_right hon.1]
    have hle : visible png.width spu.spu_start_x.toNat spu.spu_origin_display_w.toNat ≤
        png.width := min_le_left _ _
    split_ifs with halpha
    · simp only [halpha, true_or, true_and]
      omega
    · simp only [halpha, false_or]
      omega
  · refine iff_of_false (fun h => hon ⟨hlex.mp ?_, h.1⟩) fun h => hon ⟨h.1, h.2.1⟩
    have hrow := h.2.1
    split_ifs at hrow <;> omega

/-- A picture of one pixel without transparency. -/
def onePixel : Png where
  width := 1
  height := 1
  color_type := .rgb
  tRNS := false
  rows := [[10, 20, 30]]
  width_pos := by decide
  height_pos := by decide
  width_lt := by decide
  height_lt := by decide
  length_rows := rfl
  length_row := fun _ hrow => List.eq_of_mem_singleton hrow ▸ rfl

/-- Its alpha would be behind its row. -/
theorem not_copies_onePixel : ¬ ∀ (png : Png) (spu : Placement) (memory : ℕ → UInt8),
    (decodePng png spu memory).isSome := by
  intro h
  exact absurd (h onePixel ⟨0, 0, 720, 500⟩ fun _ => 0) (by decide)

end SmpteTtml
end AmlSubtitle
