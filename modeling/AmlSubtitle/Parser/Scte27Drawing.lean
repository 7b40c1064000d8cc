import AmlSubtitle.Parser.Scte27Bitmap

/-!
# The drawing of an SCTE-27 bitmap

The end of `decodeBitmap`: the outline or the drop shadow of the characters, which is written into
the bitmap itself, and the pixels of the bitmap in a frame of the size of the display.

* `decorate`: the loops over the characters; `mem_writes_decorate` and `pixels_decorate` say what
  they leave.
* `drawing_inBuffers_iff`: when all that is written lies in the bitmap and in the frame.

No index is compared with the size of a buffer.  A place that is not in the bitmap is read and, if
it holds the value of the background, written; what memory holds there is left open.
-/

namespace AmlSubtitle
namespace Scte27

/-! ## The loops -/

/-- The size of the frame.  With these bounds no index of a pixel overflows an `int`. -/
structure Display where
  width : ℕ
  height : ℕ
  width_lt : width < 2 ^ 14
  height_lt : height < 2 ^ 14

/-- The bitmap with the memory around it, and the places that were written. -/
structure Canvas where
  pixels : ℤ → ℕ
  writes : List ℤ

/-- A pixel of the background gets another value. -/
def Canvas.mark (pixel : ℕ) (c : Canvas) (k : ℤ) : Canvas :=
  if c.pixels k = PIXEL_BG then
    { pixels := Function.update c.pixels k pixel, writes := c.writes ++ [k] }
  else c

section Loops

variable (bitmap_h bitmap_v : ℕ)

/-- The places around a pixel of a character; the root of `w * w + h * h` is not more than the
thickness. -/
def outlinePlaces (thickness i j : ℕ) : List ℤ :=
  (List.range (2 * thickness + 1)).flatMap fun (m : ℕ) =>
    (List.range (2 * thickness + 1)).filterMap fun (n : ℕ) =>
      let outline_i : ℤ := i - thickness + m
      let outline_j : ℤ := j - thickness + n
      let w := |outline_i - i|
      let h := |outline_j - j|
      if w * w + h * h ≤ thickness * thickness then some (outline_i * bitmap_h + outline_j)
      else none

/-- The place of the shadow of a pixel. -/
def shadowPlaces (offset_right offset_below i j : ℕ) : List ℤ :=
  [((i + offset_below) * bitmap_h + j + offset_right : ℕ)]

/-- For each pixel of a character, the places around it that are background are marked. -/
def decorate (places : ℕ → ℕ → List ℤ) (pixel : ℕ) (c : Canvas) : Canvas :=
  (List.range bitmap_v).foldl (fun c i =>
    (List.range bitmap_h).foldl (fun c j =>
      if c.pixels ((i * bitmap_h + j : ℕ) : ℤ) = PIXEL_CH then
        (places i j).foldl (Canvas.mark pixel) c
      else c) c) c

end Loops

/-- The outline or the drop shadow. -/
def drawStyle (b : SimpleBitmap) (c : Canvas) : Canvas :=
  match b.style_para with
  | .outlined thickness _ =>
    decorate b.bitmap_h b.bitmap_v (outlinePlaces b.bitmap_h thickness) PIXEL_OL c
  | .drop_shadow shadow_right shadow_bottom _ =>
    decorate b.bitmap_h b.bitmap_v (shadowPlaces b.bitmap_h shadow_right shadow_bottom) PIXEL_DS c
  | _ => c

/-- The value of a pixel is one that is drawn. -/
def drawn (b : SimpleBitmap) (pixel : ℕ) : Bool :=
  if pixel = PIXEL_BG then b.is_framed
  else pixel = PIXEL_CH ∨ pixel = PIXEL_OL ∨ pixel = PIXEL_DS

/-- The bytes of the frame that are written. -/
def composition (b : SimpleBitmap) (d : Display) (pixels : ℤ → ℕ) : List ℕ :=
  let pitch := d.width * 4
  let target_bmp_start := b.top_v * pitch + b.top_h * 4
  (List.range b.bitmap_v).flatMap fun i =>
    let cursor := target_bmp_start + i * pitch
    (List.range b.bitmap_h).flatMap fun j =>
      if drawn b (pixels ((i * b.bitmap_h + j : ℕ) : ℤ)) then
        [cursor + j * 4, cursor + j * 4 + 1, cursor + j * 4 + 2, cursor + j * 4 + 3]
      else []

/-- The places that are written in the bitmap and in the frame. -/
structure Drawing where
  bitmapWrites : List ℤ
  frameWrites : List ℕ

def drawing (b : SimpleBitmap) (d : Display) (pixels : ℤ → ℕ) : Drawing :=
  let c := drawStyle b { pixels := pixels, writes := [] }
  { bitmapWrites := c.writes, frameWrites := composition b d c.pixels }

/-! ## What the loops leave -/

section Mark

variable {pixel : ℕ} (hpixel : pixel ≠ PIXEL_BG) (ks : List ℤ) (c : Canvas) (k : ℤ)

include hpixel in
theorem pixels_foldl_mark : (ks.foldl (Canvas.mark pixel) c).pixels k =
    if c.pixels k = PIXEL_BG ∧ k ∈ ks then pixel else c.pixels k := by
  induction ks generalizing c with
  | nil => simp
  | cons k' ks ih =>
    rw [List.foldl_cons, ih, Canvas.mark]
    by_cases hbg : c.pixels k' = PIXEL_BG
    · rw [if_pos hbg]
      by_cases hk : k = k'
      · subst hk
        simp [hpixel, hbg]
      · simp [hk]
    · rw [if_neg hbg]
      have hne : c.pixels k = PIXEL_BG → k ≠ k' := by
        rintro hk rfl
        exact hbg hk
      by_cases hk : c.pixels k = PIXEL_BG
      · simp [hk, hne hk]
      · simp [hk]

include hpixel in
theorem mem_writes_foldl_mark : k ∈ (ks.foldl (Canvas.mark pixel) c).writes ↔
    k ∈ c.writes ∨ c.pixels k = PIXEL_BG ∧ k ∈ ks := by
  induction ks generalizing c with
  | nil => simp
  | cons k' ks ih =>
    rw [List.foldl_cons, ih, Canvas.mark]
    by_cases hbg : c.pixels k' = PIXEL_BG
    · rw [if_pos hbg]
      by_cases hk : k = k'
      · subst hk
        simp [hpixel, hbg]
      · simp [hk]
    · rw [if_neg hbg]
      have hne : c.pixels k = PIXEL_BG → k ≠ k' := by
        rintro hk rfl
        exact hbg hk
      by_cases hk : c.pixels k = PIXEL_BG
      · simp [hk, hne hk]
      · simp [hk]

end Mark

/-- The pixels of the bitmap, row by row. -/
def cells (bitmap_h bitmap_v : ℕ) : List (ℕ × ℕ) :=
  (List.range bitmap_v).flatMap fun i => (List.range bitmap_h).map fun j => (i, j)

theorem mem_cells {bitmap_h bitmap_v : ℕ} {cell : ℕ × ℕ} :
    cell ∈ cells bitmap_h bitmap_v ↔ cell.1 < bitmap_v ∧ cell.2 < bitmap_h := by
  obtain ⟨i, j⟩ := cell
  simp [cells]

section Decorate

variable {bitmap_h bitmap_v : ℕ} {places : ℕ → ℕ → List ℤ} {pixel : ℕ}

/-- The places of the pixels of characters among `cs`. -/
def marked (bitmap_h : ℕ) (places : ℕ → ℕ → List ℤ) (pixels : ℤ → ℕ) (cs : List (ℕ × ℕ)) :
    List ℤ :=
  cs.flatMap fun cell =>
    if pixels ((cell.1 * bitmap_h + cell.2 : ℕ) : ℤ) = PIXEL_CH then places cell.1 cell.2 else []

theorem marked_cons (pixels : ℤ → ℕ) (cell : ℕ × ℕ) (cs : List (ℕ × ℕ)) :
    marked bitmap_h places pixels (cell :: cs) =
      (if pixels ((cell.1 * bitmap_h + cell.2 : ℕ) : ℤ) = PIXEL_CH then places cell.1 cell.2
        else []) ++ marked bitmap_h places pixels cs := rfl

/-- The loops mark the places of the pixels that are characters from the start on. -/
theorem decorate_eq (hbg : pixel ≠ PIXEL_BG) (hch : pixel ≠ PIXEL_CH) (c : Canvas) :
    decorate bitmap_h bitmap_v places pixel c =
      (marked bitmap_h places c.pixels (cells bitmap_h bitmap_v)).foldl (Canvas.mark pixel) c := by
  have hcells : ∀ (cs : List (ℕ × ℕ)) (c : Canvas),
      cs.foldl (fun c cell =>
        if c.pixels ((cell.1 * bitmap_h + cell.2 : ℕ) : ℤ) = PIXEL_CH then
          (places cell.1 cell.2).foldl (Canvas.mark pixel) c
        else c) c = (marked bitmap_h places c.pixels cs).foldl (Canvas.mark pixel) c := by
    intro cs
    induction cs with
    | nil => exact fun _ => rfl
    | cons cell cs ih =>
      intro c
      rw [List.foldl_cons, ih, marked_cons, List.foldl_append]
      split_ifs with hcell
      · have hsame : ∀ k, ((places cell.1 cell.2).foldl (Canvas.mark pixel) c).pixels k = PIXEL_CH ↔
            c.pixels k = PIXEL_CH := by
          intro k
          rw [pixels_foldl_mark hbg]
          split_ifs with hk
          · exact iff_of_false hch fun h => absurd (hk.1.symm.trans h) (by decide)
          · exact Iff.rfl
        simp only [marked, hsame]
      · rfl
  rw [decorate, ← hcells, cells, List.foldl_flatMap]
  simp only [List.foldl_map]

/-- A place is marked for the sake of a pixel of a character. -/
def Touched (bitmap_h bitmap_v : ℕ) (places : ℕ → ℕ → List ℤ) (pixels : ℤ → ℕ) (k : ℤ) : Prop :=
  ∃ i < bitmap_v, ∃ j < bitmap_h, pixels ((i * bitmap_h + j : ℕ) : ℤ) = PIXEL_CH ∧ k ∈ places i j

theorem mem_marked_cells {pixels : ℤ → ℕ} {k : ℤ} :
    k ∈ marked bitmap_h places pixels (cells bitmap_h bitmap_v) ↔
      Touched bitmap_h bitmap_v places pixels k := by
  simp only [marked, List.mem_flatMap, mem_cells, Prod.exists, Touched]
  constructor
  · rintro ⟨i, j, ⟨hi, hj⟩, hk⟩
    split_ifs at hk with hch
    · exact ⟨i, hi, j, hj, hch, hk⟩
    · cases hk
  · rintro ⟨i, hi, j, hj, hch, hk⟩
    exact ⟨i, j, ⟨hi, hj⟩, by rwa [if_pos hch]⟩

/-- The places that are written are those of the background. -/
theorem mem_writes_decorate (hbg : pixel ≠ PIXEL_BG) (hch : pixel ≠ PIXEL_CH) (c : Canvas)
    (k : ℤ) : k ∈ (decorate bitmap_h bitmap_v places pixel c).writes ↔
      k ∈ c.writes ∨ c.pixels k = PIXEL_BG ∧ Touched bitmap_h bitmap_v places c.pixels k := by
  rw [decorate_eq hbg hch, mem_writes_foldl_mark hbg, mem_marked_cells]

/-- They get the value of the outline or of the shadow. -/
theorem pixels_decorate (hbg : pixel ≠ PIXEL_BG) (hch : pixel ≠ PIXEL_CH) (c : Canvas) (k : ℤ) :
    (c.pixels k = PIXEL_BG ∧ Touched bitmap_h bitmap_v places c.pixels k →
      (decorate bitmap_h bitmap_v places pixel c).pixels k = pixel) ∧
    (¬ (c.pixels k = PIXEL_BG ∧ Touched bitmap_h bitmap_v places c.pixels k) →
      (decorate bitmap_h bitmap_v places pixel c).pixels k = c.pixels k) := by
  rw [← mem_marked_cells, decorate_eq hbg hch, pixels_foldl_mark hbg]
  exact ⟨fun h => if_pos h, fun h => if_neg h⟩

end Decorate

/-! ## The style of a bitmap -/

namespace SimpleBitmap

variable (b : SimpleBitmap)

/-- The outline or the shadow of the pixel at `(i, j)` covers the place `k`. -/
def Covers (i j : ℕ) (k : ℤ) : Prop :=
  match b.style_para with
  | .outlined thickness _ => ∃ di dj : ℤ, di * di + dj * dj ≤ thickness * thickness ∧
      k = (i + di) * b.bitmap_h + (j + dj)
  | .drop_shadow shadow_right shadow_bottom _ =>
    k = (i + shadow_bottom) * b.bitmap_h + (j + shadow_right)
  | _ => False

/-- `bitmap` with `outside` around it. -/
def memory (bitmap : ℕ → ℕ) (outside : ℤ → ℕ) : ℤ → ℕ := fun k =>
  if 0 ≤ k ∧ k < b.bitmap_size then bitmap k.toNat else outside k

/-- A pixel of a character covers the place. -/
def CoveredBy (bitmap : ℕ → ℕ) (k : ℤ) : Prop :=
  ∃ i < b.bitmap_v, ∃ j < b.bitmap_h, bitmap (i * b.bitmap_h + j) = PIXEL_CH ∧ b.Covers i j k

/-- The pixel at `k` gets a colour: it is one of a character, or the frame, an outline or a shadow
is seen there. -/
def Coloured (bitmap : ℕ → ℕ) (k : ℕ) : Prop :=
  bitmap k = PIXEL_CH ∨ bitmap k = PIXEL_OL ∨ bitmap k = PIXEL_DS ∨
    bitmap k = PIXEL_BG ∧ (b.is_framed ∨ b.CoveredBy bitmap k)

end SimpleBitmap

theorem mem_outlinePlaces {bitmap_h thickness i j : ℕ} {k : ℤ} :
    k ∈ outlinePlaces bitmap_h thickness i j ↔
      ∃ di dj : ℤ, di * di + dj * dj ≤ thickness * thickness ∧
        k = (i + di) * bitmap_h + (j + dj) := by
  simp only [outlinePlaces, List.mem_flatMap, List.mem_filterMap, List.mem_range,
    Option.ite_none_right_eq_some, Option.some_inj, abs_mul_abs_self]
  constructor
  · rintro ⟨m, hm, n, hn, hdist, rfl⟩
    refine ⟨m - thickness, n - thickness, ?_, by ring⟩
    have hi : (i : ℤ) - thickness + m - i = m - thickness := by ring
    have hj : (j : ℤ) - thickness + n - j = n - thickness := by ring
    rwa [hi, hj] at hdist
  · rintro ⟨di, dj, hdist, rfl⟩
    have hdi : -(thickness : ℤ) ≤ di ∧ di ≤ thickness :=
      abs_le_of_sq_le_sq' (by nlinarith [mul_self_nonneg dj]) (Int.natCast_nonneg _)
    have hdj : -(thickness : ℤ) ≤ dj ∧ dj ≤ thickness :=
      abs_le_of_sq_le_sq' (by nlinarith [mul_self_nonneg di]) (Int.natCast_nonneg _)
    obtain ⟨m, hm⟩ : ∃ m : ℕ, (m : ℤ) = thickness + di := ⟨(thickness + di).toNat, by omega⟩
    obtain ⟨n, hn⟩ : ∃ n : ℕ, (n : ℤ) = thickness + dj := ⟨(thickness + dj).toNat, by omega⟩
    refine ⟨m, by omega, n, by omega, ?_, ?_⟩
    · have hi : (i : ℤ) - thickness + m - i = di := by omega
      have hj : (j : ℤ) - thickness + n - j = dj := by omega
      rw [hi, hj]
      exact hdist
    · have hi : (i : ℤ) - thickness + m = i + di := by omega
      have hj : (j : ℤ) - thickness + n = j + dj := by omega
      rw [hi, hj]

section Style

variable (b : SimpleBitmap) (bitmap : ℕ → ℕ) (outside : ℤ → ℕ)

/-- The canvas before the style is drawn. -/
def blank : Canvas := { pixels := b.memory bitmap outside, writes := [] }

theorem cell_lt {i j : ℕ} (hi : i < b.bitmap_v) (hj : j < b.bitmap_h) :
    i * b.bitmap_h + j < b.bitmap_size := by
  have hrow : (i + 1) * b.bitmap_h ≤ b.bitmap_v * b.bitmap_h := Nat.mul_le_mul_right _ hi
  rw [SimpleBitmap.bitmap_size, Nat.mul_comm b.bitmap_h]
  rw [Nat.succ_mul] at hrow
  omega

/-- A pixel of the rectangle is one of the bitmap. -/
theorem memory_cell {i j : ℕ} (hi : i < b.bitmap_v) (hj : j < b.bitmap_h) :
    b.memory bitmap outside ((i * b.bitmap_h + j : ℕ) : ℤ) = bitmap (i * b.bitmap_h + j) := by
  have hlt := cell_lt b hi hj
  rw [SimpleBitmap.memory, if_pos ⟨Int.natCast_nonneg _, by exact_mod_cast hlt⟩, Int.toNat_natCast]

theorem touched_iff {places : ℕ → ℕ → List ℤ} (hplaces : ∀ i j k, k ∈ places i j ↔ b.Covers i j k)
    (k : ℤ) : Touched b.bitmap_h b.bitmap_v places (b.memory bitmap outside) k ↔
      b.CoveredBy bitmap k := by
  constructor
  · rintro ⟨i, hi, j, hj, hch, hk⟩
    rw [memory_cell b bitmap outside hi hj] at hch
    exact ⟨i, hi, j, hj, hch, (hplaces i j k).mp hk⟩
  · rintro ⟨i, hi, j, hj, hch, hk⟩
    rw [← memory_cell b bitmap outside hi hj] at hch
    exact ⟨i, hi, j, hj, hch, (hplaces i j k).mpr hk⟩

/-- What a style leaves: it marks the places of the background that the characters cover. -/
structure Styled (pixel : ℕ) (c : Canvas) : Prop where
  writes : ∀ k, k ∈ c.writes ↔ b.memory bitmap outside k = PIXEL_BG ∧ b.CoveredBy bitmap k
  covered : ∀ k, b.memory bitmap outside k = PIXEL_BG → b.CoveredBy bitmap k → c.pixels k = pixel
  same : ∀ k, ¬ (b.memory bitmap outside k = PIXEL_BG ∧ b.CoveredBy bitmap k) →
    c.pixels k = b.memory bitmap outside k

theorem styled_decorate {places : ℕ → ℕ → List ℤ} {pixel : ℕ} (hbg : pixel ≠ PIXEL_BG)
    (hch : pixel ≠ PIXEL_CH) (hplaces : ∀ i j k, k ∈ places i j ↔ b.Covers i j k) :
    Styled b bitmap outside pixel
      (decorate b.bitmap_h b.bitmap_v places pixel (blank b bitmap outside)) := by
  have htouched := touched_iff b bitmap outside hplaces
  refine ⟨fun k => ?_, fun k hk hcov => ?_, fun k hnot => ?_⟩
  · rw [mem_writes_decorate hbg hch]
    simp [blank, htouched]
  · exact (pixels_decorate hbg hch _ k).1 ⟨hk, (htouched k).mpr hcov⟩
  · exact (pixels_decorate hbg hch _ k).2 fun h => hnot ⟨h.1, (htouched k).mp h.2⟩

/-- **The style**, for every kind of it. -/
theorem styled_drawStyle : ∃ pixel, (pixel = PIXEL_OL ∨ pixel = PIXEL_DS) ∧
    Styled b bitmap outside pixel (drawStyle b (blank b bitmap outside)) := by
  have hplain : (∀ i j k, ¬ b.Covers i j k) →
      Styled b bitmap outside PIXEL_OL (blank b bitmap outside) := fun hnone => by
    have hcov : ∀ k, ¬ b.CoveredBy bitmap k := fun k ⟨i, _, j, _, _, hk⟩ => hnone i j k hk
    exact ⟨fun k => by simp [blank, hcov], fun k _ h => absurd h (hcov k), fun k _ => rfl⟩
  cases hstyle : b.style_para with
  | none => exact ⟨PIXEL_OL, .inl rfl, by
      rw [drawStyle, hstyle]
      exact hplain fun i j k => by simp [SimpleBitmap.Covers, hstyle]⟩
  | reserved => exact ⟨PIXEL_OL, .inl rfl, by
      rw [drawStyle, hstyle]
      exact hplain fun i j k => by simp [SimpleBitmap.Covers, hstyle]⟩
  | outlined thickness outline_color =>
    refine ⟨PIXEL_OL, .inl rfl, ?_⟩
    rw [drawStyle, hstyle]
    refine styled_decorate b bitmap outside (by decide) (by decide) fun i j k => ?_
    rw [mem_outlinePlaces, SimpleBitmap.Covers, hstyle]
  | drop_shadow shadow_right shadow_bottom shadow_color =>
    refine ⟨PIXEL_DS, .inr rfl, ?_⟩
    rw [drawStyle, hstyle]
    refine styled_decorate b bitmap outside (by decide) (by decide) fun i j k => ?_
    rw [SimpleBitmap.Covers, hstyle, shadowPlaces, List.mem_singleton]
    push_cast
    rw [add_assoc]

variable {b bitmap outside} in
/-- The pixels of the rectangle that get a colour. -/
theorem Styled.drawn_iff {pixel : ℕ} {c : Canvas} (h : Styled b bitmap outside pixel c)
    (hpixel : pixel = PIXEL_OL ∨ pixel = PIXEL_DS) {i j : ℕ} (hi : i < b.bitmap_v)
    (hj : j < b.bitmap_h) :
    drawn b (c.pixels ((i * b.bitmap_h + j : ℕ) : ℤ)) ↔
      b.Coloured bitmap (i * b.bitmap_h + j) := by
  have hcell := memory_cell b bitmap outside hi hj
  by_cases hbg : bitmap (i * b.bitmap_h + j) = PIXEL_BG
  · by_cases hcov : b.CoveredBy bitmap ((i * b.bitmap_h + j : ℕ) : ℤ)
    · rw [h.covered _ (hcell.trans hbg) hcov]
      refine iff_of_true ?_ (.inr (.inr (.inr ⟨hbg, .inr hcov⟩)))
      rcases hpixel with rfl | rfl <;> rfl
    · rw [h.same _ fun hk => hcov hk.2, hcell, SimpleBitmap.Coloured, hbg]
      push_cast at hcov
      simp [drawn, hcov, PIXEL_BG, PIXEL_CH, PIXEL_OL, PIXEL_DS]
  · rw [h.same _ fun hk => hbg (hcell.symm.trans hk.1), hcell, SimpleBitmap.Coloured]
    simp [drawn, hbg]

end Style

/-! ## The buffers -/

/-- What is written is in the bitmap and in the frame. -/
structure InBuffers (b : SimpleBitmap) (d : Display) (g : Drawing) : Prop where
  bitmapWrites : ∀ k ∈ g.bitmapWrites, 0 ≤ k ∧ k < b.bitmap_size
  frameWrites : ∀ k ∈ g.frameWrites, k < d.width * d.height * 4

/-- The pixels of the frame, for those of the bitmap that are drawn. -/
theorem composition_lt_iff (b : SimpleBitmap) (d : Display) (pixels : ℤ → ℕ) :
    (∀ k ∈ composition b d pixels, k < d.width * d.height * 4) ↔
      ∀ i < b.bitmap_v, ∀ j < b.bitmap_h, drawn b (pixels ((i * b.bitmap_h + j : ℕ) : ℤ)) →
        (b.top_v + i) * d.width + (b.top_h + j) < d.width * d.height := by
  have hplace : ∀ i j, b.top_v * (d.width * 4) + b.top_h * 4 + i * (d.width * 4) + j * 4
      = 4 * ((b.top_v + i) * d.width + (b.top_h + j)) := fun i j => by ring
  constructor
  · intro h i hi j hj hdrawn
    have hmem : 4 * ((b.top_v + i) * d.width + (b.top_h + j)) ∈ composition b d pixels := by
      simp only [composition, List.mem_flatMap, List.mem_range]
      exact ⟨i, hi, j, hj, by rw [if_pos hdrawn, hplace]; simp⟩
    have hlt := h _ hmem
    omega
  · intro h k hk
    simp only [composition, List.mem_flatMap, List.mem_range] at hk
    obtain ⟨i, hi, j, hj, hk⟩ := hk
    split_ifs at hk with hdrawn
    · have hlt := h i hi j hj hdrawn
      rw [hplace] at hk
      simp only [List.mem_cons, List.not_mem_nil, or_false] at hk
      omega
    · cases hk

/-- **The drawing** stays in its buffers, whatever memory holds around the bitmap, exactly if the
outlines and shadows of the characters are in the rectangle and the coloured pixels in the
frame. -/
theorem drawing_inBuffers_iff (b : SimpleBitmap) (d : Display) (bitmap : ℕ → ℕ) :
    (∀ outside : ℤ → ℕ, InBuffers b d (drawing b d (b.memory bitmap outside))) ↔
      (∀ i < b.bitmap_v, ∀ j < b.bitmap_h, bitmap (i * b.bitmap_h + j) = PIXEL_CH →
        ∀ k, b.Covers i j k → 0 ≤ k ∧ k < b.bitmap_size) ∧
      ∀ i < b.bitmap_v, ∀ j < b.bitmap_h, b.Coloured bitmap (i * b.bitmap_h + j) →
        (b.top_v + i) * d.width + (b.top_h + j) < d.width * d.height := by
  have hframe : ∀ outside, (∀ k ∈ (drawing b d (b.memory bitmap outside)).frameWrites,
      k < d.width * d.height * 4) ↔ ∀ i < b.bitmap_v, ∀ j < b.bitmap_h,
        b.Coloured bitmap (i * b.bitmap_h + j) →
          (b.top_v + i) * d.width + (b.top_h + j) < d.width * d.height := fun outside => by
    obtain ⟨pixel, hpixel, hstyled⟩ := styled_drawStyle b bitmap outside
    refine (composition_lt_iff b d _).trans ?_
    exact forall₂_congr fun i hi => forall₂_congr fun j hj => by
      rw [← hstyled.drawn_iff hpixel hi hj]
      rfl
  have hbitmap : ∀ outside, (∀ k ∈ (drawing b d (b.memory bitmap outside)).bitmapWrites,
      0 ≤ k ∧ k < b.bitmap_size) ↔ ∀ k, b.memory bitmap outside k = PIXEL_BG →
        b.CoveredBy bitmap k → 0 ≤ k ∧ k < b.bitmap_size := fun outside => by
    obtain ⟨pixel, -, hstyled⟩ := styled_drawStyle b bitmap outside
    exact forall_congr' fun k => by
      rw [← and_imp, ← hstyled.writes]
      rfl
  constructor
  · intro h
    refine ⟨fun i hi j hj hch k hk => ?_, (hframe fun _ => PIXEL_BG).mp (h _).frameWrites⟩
    by_contra hout
    -- the place is not in the bitmap, and memory holds the value of the background there
    have hmemory : b.memory bitmap (fun _ => PIXEL_BG) k = PIXEL_BG := if_neg hout
    exact hout ((hbitmap _).mp (h _).bitmapWrites k hmemory ⟨i, hi, j, hj, hch, hk⟩)
  · rintro ⟨hcovers, hcoloured⟩ outside
    refine ⟨(hbitmap outside).mpr ?_, (hframe outside).mpr hcoloured⟩
    rintro k - ⟨i, hi, j, hj, hch, hk⟩
    exact hcovers i hi j hj hch k hk

/-- The rectangle of one pixel, with a shadow one pixel to its right. -/
theorem not_inBuffers_shadow : ¬ ∀ (buffer : ℕ → UInt8) b beans (d : Display) (bitmap : ℕ → ℕ)
    (outside : ℤ → ℕ), setUp buffer = .ready b beans →
      InBuffers b d (drawing b d (b.memory bitmap outside)) := by
  intro h
  have hin := h ([0x02, 0, 0, 0, 0, 0, 0, 0x10, 0x01, 0x10, 0, 0, 0, 2].getD · 0) _ _
    ⟨720, 480, by decide, by decide⟩ (fun _ => PIXEL_CH) (fun _ => PIXEL_BG) rfl
  exact absurd (hin.bitmapWrites 1 (by decide)) (by decide)

end Scte27
end AmlSubtitle
