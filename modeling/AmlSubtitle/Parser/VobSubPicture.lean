import AmlSubtitle.Parser.DvdPlane
import AmlSubtitle.Parser.VobSubUnits

/-!
# `parser/ExtParser/VobSubIndex.cpp`: the picture of a unit

The fields of a unit whose lines are coded as runs, and the words that `convert2bto32b` writes.

* `fillPasses_coded`: the loops of `vob_fill_pixel` write the pixels of the runs, from some
  number of passes on.
* `fieldAt_fieldStores`: each pixel of a field stands at its place, and 0 stands at all others.
* `convert2bto32b_dist`: the words are those of the pixels of the plane, row by row.
* `drawBitmap_coded`: the picture of the runs.
* `draws_pictures`: of each unit of a file, its picture at its place on the screen.
-/

namespace AmlSubtitle
namespace VobSub

open Dvb (Source)
open AmlSubtitle.Dvd (At Writes RunCode FieldCoded Fills colours Fill fieldStores exchanged
  changeData roundUp wordByte orPixel)
open Bits Packed

/-! ## The loops -/

section Loops

variable {data : Source} {width i pos change_data : ℕ} {s : Fill}

/-- The codes of a line. -/
theorem fillPasses_runs (hwidth : width < 2 ^ 16) (lines fuel : ℕ) (runs : List RunCode) :
    ∀ {i done pos : ℕ} {s : Fill}, At i done pos s → Fills width done runs →
      HasFields data i (runs.map RunCode.field) → ∃ s',
        fillPasses data width change_data (runs.length + fuel) (lines + 1) s =
          fillPasses data width change_data fuel (lines + 1) s' ∧
        At (i + Bits.width (runs.map RunCode.field)) width
          (pos + (colours width done runs).length) s' ∧
        Writes (((colours width done runs).map (exchanged change_data)).zipIdx pos) s s' := by
  induction runs with
  | nil =>
    intro i done pos s h hfills _
    obtain rfl : done = width := hfills
    refine ⟨s, ?_, h, .refl s⟩
    rw [List.length_nil, Nat.zero_add]
  | cons run runs ih =>
    intro i done pos s h hfills hcodes
    obtain ⟨hdone, hrest⟩ := hfills
    obtain ⟨hfirst, hcodes⟩ := hcodes
    obtain ⟨hbits, hlength, hcolour⟩ := run.code_eq hfirst
    obtain ⟨hat, hwrites, -⟩ := h.fillCode hdone data change_data
    have hpixels : Dvd.runPixels data width i done = run.pixels width done := by
      rw [Dvd.runPixels, hlength, RunCode.pixels]
    rw [hpixels, hbits] at hat
    rw [hpixels, hcolour] at hwrites
    have hle := hrest.length_colours
    -- the count of the pixels is not cut off
    have hcount : fillRun data width change_data s = Dvd.fillCode data width change_data s := by
      rw [fillRun, hat.done, Nat.mod_eq_of_lt (by omega), ← hat.done]
    obtain ⟨s', hpass, hat', hwrites'⟩ := ih hat hrest hcodes
    refine ⟨s', ?_, ?_, ?_⟩
    · rw [List.length_cons, Nat.succ_add, fillPasses, h.done, if_pos hdone, hcount, hpass]
    · rw [List.map_cons, Bits.width_cons, colours, List.length_append, List.length_replicate,
        ← Nat.add_assoc, ← Nat.add_assoc]
      exact hat'
    · rw [colours, List.map_append, List.map_replicate, List.zipIdx_append, List.length_replicate]
      exact hwrites.trans hwrites'

/-- The passes of the loops: one for each code, and one for the end of each line. -/
def passes (lines : List (List RunCode)) : ℕ := (lines.map fun runs => runs.length + 1).sum

/-- **The lines of a coded field** are written, each from the start of a word on. -/
theorem fillPasses_coded (hwidth : width < 2 ^ 16) (n : ℕ) : ∀ {lines : List (List RunCode)}
    {i pos fuel : ℕ} {s : Fill}, n ≤ lines.length → FieldCoded data width i lines → At i 0 pos s →
      passes (lines.take n) ≤ fuel →
      Writes (fieldStores ((lines.take n).map fun runs =>
        (colours width 0 runs).map (exchanged change_data)) pos) s
        (fillPasses data width change_data fuel n s) := by
  induction n with
  | zero =>
    intro lines i pos fuel s _ _ _ _
    cases fuel with
    | zero => exact .refl s
    | succ fuel => exact .refl s
  | succ n ih =>
    intro lines i pos fuel s hn hcoded hat hfuel
    cases lines with
    | nil => exact absurd hn (Nat.not_succ_le_zero n)
    | cons runs lines =>
      obtain ⟨hfills, hcodes, hrest⟩ := hcoded
      rw [List.take_succ_cons, passes, List.map_cons, List.sum_cons, Nat.add_assoc] at hfuel
      obtain ⟨fuel, rfl⟩ := Nat.exists_eq_add_of_le hfuel
      obtain ⟨s', hpass, hat', hwrites⟩ := @fillPasses_runs data width change_data hwidth n
        (1 + passes (lines.take n) + fuel) runs i 0 pos s hat hfills hcodes
      obtain ⟨hat'', hwrites'⟩ := hat'.endLine width
      rw [Nat.sub_self] at hat''
      have hlines := @ih lines _ _ (passes (lines.take n) + fuel) _
        (Nat.le_of_succ_le_succ hn) hrest hat'' (Nat.le_add_right _ _)
      have hstart : runs.length + (1 + ((lines.take n).map fun runs => runs.length + 1).sum) +
          fuel = runs.length + (1 + passes (lines.take n) + fuel) := Nat.add_assoc _ _ _
      have hline : fillPasses data width change_data (1 + passes (lines.take n) + fuel) (n + 1) s' =
          fillPasses data width change_data (passes (lines.take n) + fuel) n
            (Dvd.endLine width s') := by
        rw [Nat.add_assoc, Nat.add_comm 1, fillPasses, hat'.done, if_neg (lt_irrefl width)]
      rw [hstart, hpass, hline, List.take_succ_cons, List.map_cons, fieldStores, List.length_map]
      have hall := (hwrites.trans hwrites').trans hlines
      rw [List.append_nil] at hall
      exact hall

end Loops

/-! ## The plane -/

section Plane

variable {lines : List (List ℕ)} {width : ℕ}

/-- Where the pixels of a field are put. -/
theorem exists_place_of_mem_fieldStores (hwidth : ∀ line ∈ lines, line.length = width) (k : ℕ)
    {store : ℕ × ℕ} (h : store ∈ fieldStores lines (8 * k)) : ∃ y < lines.length, ∃ x < width,
      store.2 = 8 * (k + y * ((width + 7) / 8)) + x := by
  induction lines generalizing k with
  | nil => exact absurd h List.not_mem_nil
  | cons line lines ih =>
    obtain ⟨hline, hlines⟩ := List.forall_mem_cons.mp hwidth
    have hnext : roundUp 8 (8 * k + line.length) = 8 * (k + (width + 7) / 8) := by
      unfold roundUp
      omega
    rw [fieldStores, hnext, List.mem_append] at h
    rcases h with h | h
    · have hle := List.le_snd_of_mem_zipIdx h
      have hlt := List.snd_lt_add_of_mem_zipIdx h
      exact ⟨0, Nat.succ_pos _, store.2 - 8 * k, by omega, by omega⟩
    · obtain ⟨y, hy, x, hx, hplace⟩ := ih hlines _ h
      refine ⟨y + 1, Nat.succ_lt_succ hy, x, hx, ?_⟩
      rw [hplace]
      ring

/-- **Each pixel of a field stands at its place**, and 0 stands at all other places. -/
theorem fieldAt_fieldStores (hwidth : ∀ line ∈ lines, line.length = width)
    (hcolours : ∀ line ∈ lines, ∀ colour ∈ line, colour < 4) {x : ℕ}
    (hx : x < 8 * ((width + 7) / 8)) (y : ℕ) :
    fieldAt 2 8 ((fieldStores lines 0).foldl orPixel fun _ => 0)
        (8 * (y * ((width + 7) / 8)) + x) = (lines.getD y []).getD x 0 := by
  have hsmall : ∀ store ∈ fieldStores lines 0, store.1 < 4 := by
    intro store hstore
    obtain ⟨line, hline, hmem⟩ := Dvd.exists_mem_of_mem_fieldStores hstore
    exact hcolours line hline _ hmem
  have hnone : ∀ store ∈ fieldStores lines 0, fieldAt 2 8 (fun _ => 0) store.2 = 0 := by
    intro store _
    rw [fieldAt, Nat.zero_shiftRight]
    rfl
  have hput := fieldAt_putAll (by decide) hsmall (Dvd.nodup_fieldStores lines 0).1 hnone
  rw [List.foldl_ext _ _ _ fun words store hstore => Dvd.orPixel_eq_put words (hsmall store hstore)]
  by_cases hin : x < width ∧ y < lines.length
  · have hplace := Dvd.mem_fieldStores hwidth hin.1 hin.2 0
    rw [Nat.zero_add] at hplace
    exact hput.1 _ hplace
  · have hnot : 8 * (y * ((width + 7) / 8)) + x ∉ (fieldStores lines 0).map Prod.snd := by
      intro hmem
      obtain ⟨store, hstore, hplace⟩ := List.mem_map.mp hmem
      obtain ⟨y', hy', x', hx', hplace'⟩ := exists_place_of_mem_fieldStores hwidth 0 hstore
      rw [Nat.zero_add, hplace] at hplace'
      have hlast : x' < 8 * ((width + 7) / 8) := by omega
      generalize (width + 7) / 8 = c at hx hplace' hlast
      have hdiv : ∀ z t : ℕ, t < 8 * c → (8 * (z * c) + t) / (8 * c) = z := by
        intro z t ht
        rw [show 8 * (z * c) = 8 * c * z by ring, Nat.mul_add_div (by omega),
          Nat.div_eq_of_lt ht, Nat.add_zero]
      have hrow : y = y' := by
        rw [← hdiv y x hx, hplace', hdiv y' x' hlast]
      rw [← hrow] at hplace' hy'
      exact hin ⟨by omega, hy'⟩
    have hzero : (lines.getD y []).getD x 0 = 0 := by
      by_cases hy : y < lines.length
      · have hlen : (lines.getD y []).length ≤ x := by
          rw [List.getD_eq_getElem _ _ hy, hwidth _ (List.getElem_mem hy)]
          omega
        exact List.getD_eq_default _ _ hlen
      · rw [List.getD_eq_default _ _ (Nat.not_lt.mp hy)]
        rfl
    refine (hput.2 _ hnot).trans ?_
    rw [hzero, fieldAt, Nat.zero_shiftRight]
    rfl

end Plane

/-! ## The words -/

section Words

/-- The numbers below a product, row by row. -/
theorem flatMap_range_mul {α : Type*} (m n : ℕ) (f : ℕ → List α) :
    (List.range (m * n)).flatMap f =
      (List.range m).flatMap fun y => (List.range n).flatMap fun k => f (y * n + k) := by
  induction m with
  | zero => rw [Nat.zero_mul, List.range_zero, List.flatMap_nil, List.flatMap_nil]
  | succ m ih =>
    rw [Nat.succ_mul, List.range_add, List.flatMap_append, ih, List.flatMap_map, List.range_succ,
      List.flatMap_append, List.flatMap_singleton]

/-- The pixels of a word. -/
theorem pixelColours_word (words : ℕ → ℕ) (m : ℕ) :
    pixelColours (wordByte words (2 * m)).toNat (wordByte words (2 * m + 1)).toNat =
      (List.range 8).map fun t => fieldAt 2 8 words (8 * m + t) := by
  have hfield : ∀ t < 8, fieldAt 2 8 words (8 * m + t) = words m >>> (14 - 2 * t) % 2 ^ 2 := by
    intro t ht
    have hplace : place 2 8 (8 * m + t) = 14 - 2 * t := by
      unfold place
      omega
    rw [fieldAt, hplace, Nat.mul_add_div (by decide), Nat.div_eq_of_lt ht, Nat.add_zero]
  have hmask : ∀ a b, pixelColours a b = [b >>> 6 &&& 3, b >>> 4 &&& 3, b >>> 2 &&& 3,
      b >>> 0 &&& 3, a >>> 6 &&& 3, a >>> 4 &&& 3, a >>> 2 &&& 3, a >>> 0 &&& 3] := by
    intro a b
    simp only [pixelColours, Nat.shiftRight_and_distrib]
    rfl
  have hlow : ∀ s ≤ 6, (wordByte words (2 * m)).toNat >>> s &&& 3 = words m >>> s % 2 ^ 2 := by
    intro s hs
    rw [Dvd.wordByte_bits words (2 * m) hs, Nat.mul_div_cancel_left m (by decide),
      Nat.mul_mod_right, Nat.mul_zero, Nat.zero_add]
  have hhigh : ∀ s ≤ 6, (wordByte words (2 * m + 1)).toNat >>> s &&& 3 =
      words m >>> (8 + s) % 2 ^ 2 := by
    intro s hs
    have hword : (2 * m + 1) / 2 = m := by omega
    have hbyte : (2 * m + 1) % 2 = 1 := by omega
    rw [Dvd.wordByte_bits words (2 * m + 1) hs, hword, hbyte]
  have hrange : (List.range 8).map (fun t => fieldAt 2 8 words (8 * m + t)) =
      (List.range 8).map fun t => words m >>> (14 - 2 * t) % 2 ^ 2 :=
    List.map_congr_left fun t ht => hfield t (List.mem_range.mp ht)
  rw [hrange, hmask, hhigh 6 (by decide), hhigh 4 (by decide), hhigh 2 (by decide),
    hhigh 0 (by decide), hlow 6 (by decide), hlow 4 (by decide), hlow 2 (by decide),
    hlow 0 (by decide)]
  rfl

/-- The colours of the four pixels: that of the background, those of the text and of its outline,
which are black and white where both have no contrast, and that of the shadow.  A colour without
contrast is shown. -/
def RGBA_Pal (palette : ℤ → ℕ) (spu_color subtitle_alpha : ℕ) : List ℕ :=
  let contrast := fun k => subtitle_alpha >>> (4 * k) &&& 0xf
  let colour := fun k => palette ((spu_color >>> (4 * k) &&& 0xf : ℕ) - 1)
  let shown := fun (aAlpha : ℕ) rgb => ((if aAlpha = 0 then 0xff000000 else 0) + rgb) % 2 ^ 32
  let text := if contrast 3 = 0 ∧ contrast 0 = 0 then [0xff000000, 0xffffffff]
    else if contrast 3 = 0 ∨ contrast 0 = 0 then [shown 0 (colour 2), 0xff000000]
    else [shown (contrast 3) (colour 2), shown (contrast 0) (colour 1)]
  shown 1 (colour 3) :: (text ++ [shown (contrast 1) (colour 0)])

theorem convert2bto32b_dist (palette : ℤ → ℕ) (source : Source)
    (length bytesPerLine spu_color alpha : ℕ) :
    (convert2bto32b palette source length bytesPerLine spu_color alpha).dist =
      (convert2bto32b palette source length bytesPerLine spu_color alpha).colourLookups.map
        fun colour => (RGBA_Pal palette spu_color alpha).getD colour 0 := by
  have hhigh : ∀ n : ℕ, n >>> 8 >>> 4 = n >>> (4 * 3) := fun n => (Nat.shiftRight_add n 8 4).symm
  unfold convert2bto32b RGBA_Pal
  simp only [hhigh, Nat.mul_zero, Nat.shiftRight_zero]
  split_ifs <;> rfl

/-- The colours of the plane, row by row: every second row stands in its second half. -/
theorem colourLookups_plane (palette : ℤ → ℕ) {top bottom : Fill} {c height : ℕ}
    (spu_color alpha : ℕ) (hplane : (height + 1) / 2 * (2 * c) ≤ OSD_HALF_SIZE) :
    (convert2bto32b palette (vob_pixData top bottom) (height * (8 * c) / 4) (8 * c / 4) spu_color
        alpha).colourLookups =
      (List.range height).flatMap fun y => (List.range (c * 8)).map fun x =>
        fieldAt 2 8 (if y % 2 = 1 then bottom else top).words (8 * (y / 2 * c) + x) := by
  have hlength : (height * (8 * c) / 4 + 1) / 2 = height * c := by
    rw [Nat.mul_left_comm]
    omega
  have hline : 8 * c / 4 = 2 * c := by omega
  have hcolours : (convert2bto32b palette (vob_pixData top bottom) (height * (8 * c) / 4)
      (8 * c / 4) spu_color alpha).colourLookups =
      (List.range (height * c)).flatMap fun k => pixelColours
        (vob_pixData top bottom (sourcePlace (2 * c) (2 * k))).toNat
        (vob_pixData top bottom (sourcePlace (2 * c) (2 * k) + 1)).toNat := by
    unfold convert2bto32b
    dsimp only
    rw [hlength, hline]
  rw [hcolours, flatMap_range_mul]
  refine List.flatMap_congr fun y hy => ?_
  have hrow := List.mem_range.mp hy
  rw [← List.flatMap_singleton' ((List.range (c * 8)).map _), List.flatMap_map, flatMap_range_mul]
  refine List.flatMap_congr fun k hk => ?_
  have hc := List.mem_range.mp hk
  have hword : 2 * (y * c + k) = 2 * c * y + 2 * k := by ring
  have hdiv : 2 * (y * c + k) / (2 * c) = y := by
    rw [hword, Nat.mul_add_div (by omega), Nat.div_eq_of_lt (by omega), Nat.add_zero]
  have hmod : 2 * (y * c + k) % (2 * c) = 2 * k := by
    rw [hword, Nat.mul_add_mod, Nat.mod_eq_of_lt (by omega)]
  -- the word lies in its half
  have hhalf : 2 * (y / 2 * c + k) + 1 < OSD_HALF_SIZE := by
    have hle : (y / 2 + 1) * (2 * c) ≤ (height + 1) / 2 * (2 * c) :=
      Nat.mul_le_mul_right _ (by omega)
    have hnext : (y / 2 + 1) * (2 * c) = 2 * (y / 2 * c) + 2 * c := by ring
    omega
  have hpixels : ∀ words, pixelColours (wordByte words (2 * (y / 2 * c + k))).toNat
      (wordByte words (2 * (y / 2 * c + k) + 1)).toNat =
      (List.range 8).flatMap fun t => [fieldAt 2 8 words (8 * (y / 2 * c) + (k * 8 + t))] := by
    intro words
    rw [pixelColours_word, ← List.map_eq_flatMap]
    refine List.map_congr_left fun t _ => congrArg _ ?_
    ring
  have hplace : y / 2 * (2 * c) + 2 * k = 2 * (y / 2 * c + k) := by ring
  rw [sourcePlace, hdiv, hmod, Nat.and_one_is_mod]
  rcases Nat.mod_two_eq_zero_or_one y with heven | hodd
  · rw [heven, if_neg (fun h => h rfl), if_neg Nat.zero_ne_one, Nat.zero_add, hplace,
      vob_pixData, if_pos (by omega), vob_pixData, if_pos hhalf]
    exact hpixels _
  · rw [hodd, if_pos Nat.one_ne_zero, if_pos rfl, Nat.add_assoc, hplace, vob_pixData,
      if_neg (by omega), vob_pixData, if_neg (by omega), Nat.add_assoc, Nat.add_sub_cancel_left,
      Nat.add_sub_cancel_left]
    exact hpixels _

end Words

/-! ## The picture -/

/-- The contrast with which the colours are taken: its lowest nibble is exchanged with the first
one that is zero. -/
def exchangedContrast (alpha : ℕ) : ℕ :=
  if alpha &&& 0xf ≠ 0 then
    ((alpha &&& 0xfff0) ||| 0xf <<< (changeData 4 alpha <<< 2)) % 2 ^ 16 else alpha

/-- The fields of a unit, whose lines are coded as runs: the lines with even numbers are the top
field, the others the bottom field. -/
structure CodedUnit (data : Source) (spu : VobSpu) where
  top : List (List RunCode)
  bottom : List (List RunCode)
  top_length : spu.spuHeight / 2 ≤ top.length
  bottom_length : spu.spuHeight / 2 ≤ bottom.length
  top_coded : FieldCoded data spu.spuWidth (8 * spu.topPxdAddr) top
  bottom_coded : FieldCoded data spu.spuWidth (8 * spu.bottomPxdAddr) bottom

namespace CodedUnit

variable {data : Source} {spu : VobSpu}

/-- The field of a row. -/
def field (u : CodedUnit data spu) (y : ℕ) : List (List RunCode) :=
  if y % 2 = 1 then u.bottom else u.top

/-- The colour of a pixel, where colour 0 is exchanged with the first one without contrast.  A last
line that has no partner, and the pixels behind the width, keep the 0 of the plane. -/
def pixel (u : CodedUnit data spu) (x y : ℕ) : ℕ :=
  if x < spu.spuWidth ∧ y / 2 < spu.spuHeight / 2 then
    Equiv.swap 0 (changeData 4 spu.spuAlpha)
      ((colours spu.spuWidth 0 ((u.field y).getD (y / 2) [])).getD x 0)
  else 0

end CodedUnit

section Pictures

variable {data : Source} {spu : VobSpu} {fuel : ℕ}

/-- **A field of the plane.** -/
theorem fieldAt_vob_fill_pixel {n start : ℕ} {lines : List (List RunCode)}
    (hstart : (if n = 1 then spu.topPxdAddr else spu.bottomPxdAddr) = start)
    (hcontrast : changeData 4 spu.spuAlpha < 4) (hwidth : spu.spuWidth < 2 ^ 16)
    (hcoded : FieldCoded data spu.spuWidth (8 * start) lines)
    (hlines : spu.spuHeight / 2 ≤ lines.length)
    (hfuel : passes (lines.take (spu.spuHeight / 2)) ≤ fuel) {x : ℕ}
    (hx : x < 8 * ((spu.spuWidth + 7) / 8)) (y : ℕ) :
    fieldAt 2 8 (vob_fill_pixel data fuel spu n).2.words
        (8 * (y * ((spu.spuWidth + 7) / 8)) + x) =
      if x < spu.spuWidth ∧ y < spu.spuHeight / 2 then
        Equiv.swap 0 (changeData 4 spu.spuAlpha)
          ((colours spu.spuWidth 0 (lines.getD y [])).getD x 0)
      else 0 := by
  have hs : At (8 * start) 0 0
      { pixelIn := start
        lookups := if spu.spuAlpha &&& 0xf ≠ 0 then [0, changeData 4 spu.spuAlpha] else [] } :=
    ⟨rfl, by simp, rfl, rfl, rfl, rfl⟩
  have hwrites := @fillPasses_coded data spu.spuWidth (changeData 4 spu.spuAlpha) hwidth
    (spu.spuHeight / 2) lines _ 0 fuel _ hlines hcoded hs hfuel
  generalize hrows : (lines.take (spu.spuHeight / 2)).map (fun runs =>
    (colours spu.spuWidth 0 runs).map (exchanged (changeData 4 spu.spuAlpha))) = rows at hwrites
  have hrow : ∀ row ∈ rows, row.length = spu.spuWidth ∧ ∀ colour ∈ row, colour < 4 := by
    rw [← hrows, List.forall_mem_map]
    intro runs hruns
    have hlength := (hcoded.fills runs (List.mem_of_mem_take hruns)).length_colours
    refine ⟨by rw [List.length_map]; omega, List.forall_mem_map.mpr fun colour hcolour => ?_⟩
    exact Dvd.exchanged_lt hcontrast (Dvd.mem_colours_lt hcolour)
  have hfield := fieldAt_fieldStores (fun row h => (hrow row h).1) (fun row h => (hrow row h).2)
    hx y
  simp only [vob_fill_pixel, hstart]
  rw [hwrites.words, hfield, ← hrows]
  by_cases hin : x < spu.spuWidth ∧ y < spu.spuHeight / 2
  · have hline : y < lines.length := hin.2.trans_le hlines
    have hpixel : x < (colours spu.spuWidth 0 lines[y]).length := by
      have hlength := (hcoded.fills _ (List.getElem_mem hline)).length_colours
      omega
    have hcolour : (colours spu.spuWidth 0 lines[y])[x] < 4 :=
      Dvd.mem_colours_lt (List.getElem_mem hpixel)
    rw [if_pos hin, ← Dvd.exchanged_eq hcontrast (by simpa [hline, hpixel] using hcolour)]
    simp [hin.2, hline, hpixel]
  · rw [if_neg hin]
    by_cases hy : y < spu.spuHeight / 2
    · have hline : y < lines.length := hy.trans_le hlines
      have hlength := (hcoded.fills _ (List.getElem_mem hline)).length_colours
      have hbehind : (colours spu.spuWidth 0 lines[y]).length ≤ x := by omega
      simp [hy, hline, hbehind]
    · simp [hy]

/-- The colour and the contrast of a picture. -/
theorem vob_fill_pixel_second (fuel : ℕ) :
    (vob_fill_pixel data fuel spu 2).1 =
      { spu with spuAlpha := exchangedContrast spu.spuAlpha } := by
  rw [vob_fill_pixel, exchangedContrast]
  dsimp only
  by_cases hnibble : spu.spuAlpha &&& 0xf ≠ 0
  · rw [if_pos ⟨hnibble, rfl⟩, if_pos hnibble]
  · rw [if_neg fun h => hnibble h.1, if_neg hnibble]

/-- **The picture of a unit whose lines are coded as runs.**  If a nibble of the contrast is zero
and the fields fit into the plane, the words are, row by row, the colours of the pixels. -/
theorem drawBitmap_coded (palette : ℤ → ℕ) (u : CodedUnit data spu)
    (hcontrast : ∃ j < 4, spu.spuAlpha >>> (4 * j) &&& 0xf = 0)
    (hwidth : spu.spuWidth + 7 < 2 ^ 16)
    (hplane : (spu.spuHeight + 1) / 2 * (2 * ((spu.spuWidth + 7) / 8)) ≤ OSD_HALF_SIZE)
    (htop : passes (u.top.take (spu.spuHeight / 2)) ≤ fuel)
    (hbottom : passes (u.bottom.take (spu.spuHeight / 2)) ≤ fuel) :
    (drawBitmap palette data fuel spu).converted.dist =
      (List.range spu.spuHeight).flatMap fun y =>
        (List.range ((spu.spuWidth + 7) / 8 * 8)).map fun x =>
          (RGBA_Pal palette spu.spuColor (exchangedContrast spu.spuAlpha)).getD
            (u.pixel x y) 0 := by
  have hchange := (Dvd.changeData_lt_iff 4 spu.spuAlpha).mpr hcontrast
  have hrounded : ((spu.spuWidth + 7) >>> 3) <<< 3 % 2 ^ 16 = 8 * ((spu.spuWidth + 7) / 8) := by
    rw [Nat.shiftRight_eq_div_pow, Nat.shiftLeft_eq]
    omega
  rw [drawBitmap]
  dsimp only
  rw [vob_fill_pixel_first, vob_fill_pixel_second]
  dsimp only
  rw [hrounded, convert2bto32b_dist, colourLookups_plane palette _ _ hplane, List.map_flatMap]
  refine List.flatMap_congr fun y hy => ?_
  rw [List.map_map]
  refine List.map_congr_left fun x hx => ?_
  have hlast : x < 8 * ((spu.spuWidth + 7) / 8) := by
    rw [Nat.mul_comm]
    exact List.mem_range.mp hx
  have hfirst := @fieldAt_vob_fill_pixel data spu fuel 1 spu.topPxdAddr u.top rfl hchange
    (by omega) u.top_coded u.top_length htop x hlast (y / 2)
  have hsecond := @fieldAt_vob_fill_pixel data spu fuel 2 spu.bottomPxdAddr u.bottom rfl hchange
    (by omega) u.bottom_coded u.bottom_length hbottom x hlast (y / 2)
  rw [Function.comp_apply, CodedUnit.pixel, CodedUnit.field]
  by_cases hodd : y % 2 = 1
  · rw [if_pos hodd, if_pos hodd, hsecond]
  · rw [if_neg hodd, if_neg hodd, hfirst]

/-- **The units of a file are drawn.**  However a unit is cut into packets, and wherever it stands
among the others, its pixels come out with their colours, at the place and for the time that its
commands tell. -/
theorem draws_pictures {units before after : List SubUnit} {u : SubUnit}
    (hunits : units = before ++ u :: after) {tail file : List UInt8}
    (hfile : file = units.flatMap SubUnit.bytes ++ tail) (hsmall : file.length < 2 ^ 31)
    (palette : ℤ → ℕ) (mOrigFrame video : ℕ × ℕ) (junk : Source) (hfuel : file.length < fuel)
    (hret : (do_vob_sub_cmd (behind u.data junk) fuel {}).ret = some SUCCESS)
    (hspu : (do_vob_sub_cmd (behind u.data junk) fuel {}).spu = spu)
    (picture : CodedUnit (behind u.data junk) spu)
    (hcontrast : ∃ j < 4, spu.spuAlpha >>> (4 * j) &&& 0xf = 0)
    (hwidth : spu.spuWidth + 7 < 2 ^ 16)
    (hplane : (spu.spuHeight + 1) / 2 * (2 * ((spu.spuWidth + 7) / 8)) ≤ OSD_HALF_SIZE)
    (htop : passes (picture.top.take (spu.spuHeight / 2)) ≤ fuel)
    (hbottom : passes (picture.bottom.take (spu.spuHeight / 2)) ≤ fuel) (mpg : Mpeg) (pts : ℤ) :
    ∃ v, genSubBitmap file u.track palette mOrigFrame video junk fuel mpg pts
        (before.flatMap SubUnit.bytes).length = some (some v) ∧
      v.spu_start_x = spu.spuStartX ∧ v.spu_start_y = spu.spuStartY ∧
      v.spu_width = (spu.spuWidth + 7) / 8 * 8 ∧ v.spu_height = spu.spuHeight ∧
      v.m_delay = pts + (do_vob_sub_cmd (behind u.data junk) fuel {}).duration ∧
      v.spu_data = (List.range v.spu_height).flatMap fun y => (List.range v.spu_width).map fun x =>
        (RGBA_Pal palette spu.spuColor (exchangedContrast spu.spuAlpha)).getD
          (picture.pixel x y) 0 := by
  have hdrawn := drawBitmap_coded palette picture hcontrast hwidth hplane htop hbottom
  have hrounded : ((spu.spuWidth + 7) >>> 3) <<< 3 % 2 ^ 16 = (spu.spuWidth + 7) / 8 * 8 := by
    rw [Nat.shiftRight_eq_div_pow, Nat.shiftLeft_eq]
    omega
  have hfields : (drawBitmap palette (behind u.data junk) fuel spu).spu =
      { spu with spuAlpha := exchangedContrast spu.spuAlpha
                 spuWidth := (spu.spuWidth + 7) / 8 * 8 } := by
    rw [← hrounded, drawBitmap]
    dsimp only
    rw [vob_fill_pixel_first, vob_fill_pixel_second]
  have hunit := @genSubBitmap_unit units before after u hunits tail file hfile hsmall u.track
    palette mOrigFrame video junk fuel hfuel mpg pts
  rw [if_pos rfl, renderUnit, hret, hspu] at hunit
  refine ⟨_, hunit, ?_⟩
  dsimp only
  rw [hfields]
  exact ⟨rfl, rfl, rfl, rfl, rfl, hdrawn⟩

end Pictures

/-- A run up to the end of the line. -/
def wholeLine (colour : Fin 4) : RunCode := ⟨16, 0, colour, by omega, colour.isLt⟩

/-- What the commands of `twoLines` set. -/
def twoLinesSpu : VobSpu :=
  { spuColor := 0x3210, spuAlpha := 0xfff0, spuWidth := 8, spuHeight := 2, topPxdAddr := 4
    bottomPxdAddr := 6 }

theorem twoLines_coded :
    FieldCoded (behind twoLines.data fun _ => 0) 8 32 [[wholeLine 1]] ∧
      FieldCoded (behind twoLines.data fun _ => 0) 8 48 [[wholeLine 2]] :=
  ⟨⟨⟨by decide, rfl⟩, ⟨by decide +kernel, trivial⟩, trivial⟩,
    ⟨by decide, rfl⟩, ⟨by decide +kernel, trivial⟩, trivial⟩

/-- Its lines, one of colour 1 and one of colour 2. -/
def twoLinesPicture : CodedUnit (behind twoLines.data fun _ => 0) twoLinesSpu where
  top := [[wholeLine 1]]
  bottom := [[wholeLine 2]]
  top_length := Nat.le_refl 1
  bottom_length := Nat.le_refl 1
  top_coded := twoLines_coded.1
  bottom_coded := twoLines_coded.2

theorem draws_twoLines :
    ∃ v, genSubBitmap ([emptyUnit, twoLines].flatMap SubUnit.bytes ++ []) 1 Int.toNat (0, 0)
        (720, 576) (fun _ => 0) 100 ⟨0, 0, -1, [], 0⟩ 90000 14 = some (some v) ∧
      v.spu_start_x = 0 ∧ v.spu_start_y = 0 ∧ v.spu_width = 8 ∧ v.spu_height = 2 ∧
      v.m_delay = 90000 + 0 ∧
      v.spu_data = (List.range v.spu_height).flatMap fun y => (List.range v.spu_width).map fun x =>
        (RGBA_Pal Int.toNat 0x3210 (exchangedContrast 0xfff0)).getD (twoLinesPicture.pixel x y) 0 :=
  @draws_pictures _ 100 [emptyUnit, twoLines] [emptyUnit] [] twoLines rfl [] _ rfl (by decide)
    Int.toNat (0, 0) (720, 576) (fun _ => 0) (by decide) (by decide +kernel) (by decide +kernel)
    twoLinesPicture ⟨0, by decide⟩ (by decide) (by decide) (by decide) (by decide)
    ⟨0, 0, -1, [], 0⟩ 90000

end VobSub
end AmlSubtitle
