import AmlSubtitle.Parser.DvdRuns

/-!
# The plane of a DVD frame

Both fields of a frame whose lines are coded as runs, and the plane that `parseInterSpu` reads.

* `fieldAt_spuFillPixel`: a field puts each pixel of its lines at its place.
* `interSpuPixel_fillFields`: what `parseInterSpu` takes for a pixel is the one at that place of
  the field of its row.
* `At.fillLines_reads`: behind the frame the data are zeros, and each line of them is one code.
* `Admitted`: what the copy of the frame and `getSpuCmd` leave in the item.
-/

namespace AmlSubtitle
namespace Dvd

open Dvb (Source sourceOf)
open Bits Packed

/-! ## Words -/

theorem orPixel_eq_put (words : ℕ → ℕ) {store : ℕ × ℕ} (h : store.1 < 4) :
    orPixel words store = put 2 8 words store := by
  have hplace : 14 - 2 * (store.2 % 8) = place 2 8 store.2 := by
    unfold place
    omega
  have hlt : store.1 <<< place 2 8 store.2 < 2 ^ 16 := by
    have hle : 2 ^ place 2 8 store.2 ≤ 2 ^ 14 := Nat.pow_le_pow_right (by decide) (by omega)
    rw [Nat.shiftLeft_eq]
    calc store.1 * 2 ^ place 2 8 store.2 ≤ 3 * 2 ^ 14 := Nat.mul_le_mul (by omega) hle
      _ < 2 ^ 16 := by decide
  rw [orPixel, put, hplace, Nat.mod_eq_of_lt hlt]

/-- The exchange of colours. -/
theorem exchanged_eq {change_data colour : ℕ} (hchange : change_data < 4) (hcolour : colour < 4) :
    exchanged change_data colour = Equiv.swap 0 change_data colour := by
  interval_cases change_data <;> interval_cases colour <;> decide

theorem exchanged_lt {change_data colour : ℕ} (hchange : change_data < 4) (hcolour : colour < 4) :
    exchanged change_data colour < 4 := by
  interval_cases change_data <;> interval_cases colour <;> decide

section Stores

variable {lines : List (List ℕ)} {width : ℕ}

/-- No two pixels have one place. -/
theorem nodup_fieldStores (lines : List (List ℕ)) (pos : ℕ) :
    ((fieldStores lines pos).map Prod.snd).Nodup ∧
      ∀ store ∈ fieldStores lines pos, pos ≤ store.2 := by
  induction lines generalizing pos with
  | nil => simp [fieldStores]
  | cons line lines ih =>
    obtain ⟨hnodup, hbehind⟩ := ih (roundUp 8 (pos + line.length))
    have hround : pos + line.length ≤ roundUp 8 (pos + line.length) := by
      unfold roundUp
      omega
    have hline : ∀ store ∈ line.zipIdx pos, pos ≤ store.2 ∧ store.2 < pos + line.length :=
      fun store hstore =>
        ⟨List.le_snd_of_mem_zipIdx hstore, List.snd_lt_add_of_mem_zipIdx hstore⟩
    rw [fieldStores, List.map_append, List.forall_mem_append]
    refine ⟨List.Nodup.append ?_ hnodup ?_, fun store hstore => (hline store hstore).1,
      fun store hstore => ?_⟩
    · rw [List.zipIdx_map_snd]
      exact List.nodup_range'
    · intro place hplace hplace'
      obtain ⟨store, hstore, rfl⟩ := List.mem_map.mp hplace
      obtain ⟨store', hstore', heq⟩ := List.mem_map.mp hplace'
      have := (hline store hstore).2
      have := hbehind store' hstore'
      omega
    · have := hbehind store hstore
      omega

theorem exists_mem_of_mem_fieldStores {store : ℕ × ℕ} {pos : ℕ}
    (h : store ∈ fieldStores lines pos) :
    ∃ line ∈ lines, store.1 ∈ line := by
  induction lines generalizing pos with
  | nil => simp [fieldStores] at h
  | cons line lines ih =>
    rw [fieldStores, List.mem_append] at h
    rcases h with hline | hrest
    · exact ⟨line, by simp, List.fst_mem_of_mem_zipIdx hline⟩
    · obtain ⟨line', hline', hmem⟩ := ih hrest
      exact ⟨line', List.mem_cons_of_mem _ hline', hmem⟩

/-- A pixel with its place, among lines of one width. -/
theorem mem_fieldStores (hwidth : ∀ line ∈ lines, line.length = width) {x y : ℕ} (hx : x < width)
    (hy : y < lines.length) (k : ℕ) :
    ((lines.getD y []).getD x 0, 8 * (k + y * ((width + 7) / 8)) + x) ∈
      fieldStores lines (8 * k) := by
  induction lines generalizing y k with
  | nil => simp at hy
  | cons line lines ih =>
    obtain ⟨hline, hlines⟩ := List.forall_mem_cons.mp hwidth
    rw [fieldStores, List.mem_append]
    cases y with
    | zero =>
      left
      have hsome : x < line.length := by omega
      rw [List.mk_mem_zipIdx_iff_le_and_getElem?_sub]
      simp [hsome]
    | succ y =>
      right
      have hnext : roundUp 8 (8 * k + line.length) = 8 * (k + (width + 7) / 8) := by
        unfold roundUp
        omega
      have hplace : k + (y + 1) * ((width + 7) / 8) =
          k + (width + 7) / 8 + y * ((width + 7) / 8) := by ring
      rw [hnext, hplace]
      exact ih hlines (Nat.lt_of_succ_lt_succ hy) _

end Stores

/-- **A field** puts each pixel of its lines at its place. -/
theorem fieldAt_spuFillPixel {spu : DvdSpu} {pixelIn : ℕ} (n : ℕ) {lines : List (List RunCode)}
    (hcontrast : changeData 4 spu.spuAlpha < 4)
    (hcoded : FieldCoded spu.spuData spu.spuWidth (8 * pixelIn) lines)
    (hlines : spu.spuHeight / 2 ≤ lines.length) {x y : ℕ} (hx : x < spu.spuWidth)
    (hy : y < spu.spuHeight / 2) :
    fieldAt 2 8 (spuFillPixel spu pixelIn n).2.words (8 * (y * ((spu.spuWidth + 7) / 8)) + x) =
      Equiv.swap 0 (changeData 4 spu.spuAlpha)
        ((colours spu.spuWidth 0 (lines.getD y [])).getD x 0) := by
  obtain ⟨s, hfilled, hzero, -, -⟩ := spuFillPixel_writes spu pixelIn n
  rw [fieldLines_coded hcoded hlines, List.map_map] at hfilled
  generalize hline : (fun line : List ℕ => line.map (exchanged (changeData 4 spu.spuAlpha))) ∘
    colours spu.spuWidth 0 = line at hfilled
  have hwidth : ∀ l ∈ (lines.take (spu.spuHeight / 2)).map line, l.length = spu.spuWidth := by
    rw [List.forall_mem_map, ← hline]
    intro runs hruns
    have hfills := hcoded.fills runs (List.mem_of_mem_take hruns)
    have hlength := hfills.length_colours
    rw [Function.comp_apply, List.length_map]
    omega
  have hcolours : ∀ store ∈ fieldStores ((lines.take (spu.spuHeight / 2)).map line) 0,
      store.1 < 4 := by
    intro store hstore
    obtain ⟨l, hl, hmem⟩ := exists_mem_of_mem_fieldStores hstore
    obtain ⟨runs, -, rfl⟩ := List.mem_map.mp hl
    rw [← hline, Function.comp_apply] at hmem
    obtain ⟨colour, hcolour, heq⟩ := List.mem_map.mp hmem
    rw [← heq]
    exact exchanged_lt hcontrast (mem_colours_lt hcolour)
  have hplace := mem_fieldStores hwidth hx (y := y) (by simp; omega) 0
  rw [Nat.zero_add] at hplace
  have hnone : ∀ store ∈ fieldStores ((lines.take (spu.spuHeight / 2)).map line) (8 * 0),
      fieldAt 2 8 (fun _ => 0) store.2 = 0 := by
    simp [fieldAt]
  have hput := (fieldAt_putAll (by decide) hcolours (nodup_fieldStores _ 0).1 hnone).1 _ hplace
  rw [hfilled.words, hzero, List.foldl_ext _ _ _ fun words store hstore =>
    orPixel_eq_put words (hcolours store hstore)]
  refine hput.trans ?_
  have hrow : y < lines.length := hy.trans_le hlines
  have hpixel : x < (colours spu.spuWidth 0 lines[y]).length := by
    have hlength := (hcoded.fills _ (List.getElem_mem hrow)).length_colours
    omega
  have hcolour : (colours spu.spuWidth 0 lines[y])[x] < 4 :=
    mem_colours_lt (List.getElem_mem hpixel)
  rw [← exchanged_eq hcontrast (by simpa [hrow, hpixel] using hcolour), ← hline]
  simp [hy, hrow, hpixel]

/-! ## The plane -/

/-- Two bits of a byte of words. -/
theorem wordByte_bits (words : ℕ → ℕ) (k : ℕ) {s : ℕ} (hs : s ≤ 6) :
    (wordByte words k).toNat >>> s &&& 3 = words (k / 2) >>> (8 * (k % 2) + s) % 2 ^ 2 := by
  rw [wordByte, UInt8.toNat_ofNat', show (3 : ℕ) = 2 ^ 2 - 1 from rfl,
    Nat.and_two_pow_sub_one_eq_mod, Nat.shiftRight_add]
  refine Nat.eq_of_testBit_eq fun j => ?_
  simp only [Nat.testBit_mod_two_pow, Nat.testBit_shiftRight]
  by_cases hj : j < 2
  · have hlt : s + j < 8 := by omega
    simp [hj, hlt]
  · simp [hj]

section Fields

variable (spu : DvdSpu)

@[simp] theorem spuFillPixel_first (pixelIn : ℕ) : (spuFillPixel spu pixelIn 1).1 = spu := by
  simp [spuFillPixel]

@[simp] theorem spuFillPixel_spuWidth (pixelIn n : ℕ) :
    (spuFillPixel spu pixelIn n).1.spuWidth = spu.spuWidth := by
  simp only [spuFillPixel]
  split_ifs <;> rfl

theorem fillFields_odd : (fillFields spu).2.1 = (spuFillPixel spu spu.topPxdAddr 1).2 := rfl

theorem fillFields_even : (fillFields spu).2.2 = (spuFillPixel spu spu.bottomPxdAddr 2).2 := by
  simp [fillFields]

theorem fillFields_spuWidth : (fillFields spu).1.spuWidth = spu.spuWidth := by
  simp [fillFields]

theorem fillFields_spuData (k : ℕ) : (fillFields spu).1.spuData k =
    if k < VOB_SUB_SIZE / 2 then wordByte (fillFields spu).2.1.words k
    else if k < VOB_SUB_SIZE then wordByte (fillFields spu).2.2.words (k - VOB_SUB_SIZE / 2)
    else 0 := rfl

end Fields

/-- The byte of pixel `x` of a row, whose bytes are exchanged in pairs. -/
theorem pixelByte (row c x : ℕ) {index1 : ℕ}
    (h : index1 = if x / 4 % 2 ≠ 0 then x / 4 - 1 else x / 4 + 1) :
    (row * (2 * c) + index1) / 2 = (8 * (row * c) + x) / 8 ∧
      8 * ((row * (2 * c) + index1) % 2) + (6 - 2 * (x % 4)) = place 2 8 (8 * (row * c) + x) := by
  have hpair : row * (2 * c) = 2 * (row * c) := by ring
  rw [hpair, h, place]
  generalize row * c = m
  constructor
  · split_ifs <;> omega
  · split_ifs <;> omega

/-- **What `parseInterSpu` takes for a pixel** is at its place of the field of its row. -/
theorem interSpuPixel_fillFields {spu : DvdSpu} (hwidth : spu.spuWidth ≤ VOB_SUB_WIDTH)
    (hheight : spu.spuHeight ≤ VOB_SUB_HEIGHT) {x y : ℕ} (hx : x < spu.spuWidth)
    (hy : y < spu.spuHeight) :
    interSpuPixel (fillFields spu).1 x y =
      fieldAt 2 8 (if y % 2 = 1 then (fillFields spu).2.2 else (fillFields spu).2.1).words
        (8 * (y / 2 * ((spu.spuWidth + 7) / 8)) + x) := by
  unfold VOB_SUB_WIDTH at hwidth
  unfold VOB_SUB_HEIGHT at hheight
  have hbytes : ((spu.spuWidth * 2 + 15) >>> 4) <<< 1 = 2 * ((spu.spuWidth + 7) / 8) := by
    rw [Nat.shiftRight_eq_div_pow, Nat.shiftLeft_eq]
    omega
  have hlast : (if x / 4 % 2 ≠ 0 then x / 4 - 1 else x / 4 + 1) < 2 * ((spu.spuWidth + 7) / 8) := by
    split_ifs <;> omega
  generalize hindex : (if x / 4 % 2 ≠ 0 then x / 4 - 1 else x / 4 + 1) = index1 at hlast
  have hhalf : y / 2 * (2 * ((spu.spuWidth + 7) / 8)) + index1 < VOB_SUB_SIZE / 2 := by
    calc y / 2 * (2 * ((spu.spuWidth + 7) / 8)) + index1
        < (y / 2 + 1) * (2 * ((spu.spuWidth + 7) / 8)) := by
          rw [Nat.add_mul, Nat.one_mul]
          exact Nat.add_lt_add_left hlast _
      _ ≤ 640 * 480 := Nat.mul_le_mul (by omega) (by omega)
      _ = VOB_SUB_SIZE / 2 := by decide
  obtain ⟨hword, hplace⟩ := pixelByte (y / 2) ((spu.spuWidth + 7) / 8) x hindex.symm
  have hrow : y >>> 1 = y / 2 := Nat.shiftRight_eq_div_pow y 1
  rw [interSpuPixel, fillFields_spuWidth, hbytes, hindex, fillFields_spuData, hrow,
    Nat.and_one_is_mod, fieldAt]
  rcases Nat.mod_two_eq_zero_or_one y with heven | hodd
  · have hfirst : ¬ (0 : ℕ) ≠ 0 := by decide
    rw [heven, if_neg hfirst, if_neg Nat.zero_ne_one, Nat.add_zero, if_pos hhalf,
      wordByte_bits _ _ (by omega), hword, hplace]
  · have hbehind : y / 2 * (2 * ((spu.spuWidth + 7) / 8)) + VOB_SUB_SIZE / 2 + index1 =
        y / 2 * (2 * ((spu.spuWidth + 7) / 8)) + index1 + VOB_SUB_SIZE / 2 := by ring
    have hnot : ¬ y / 2 * (2 * ((spu.spuWidth + 7) / 8)) + index1 + VOB_SUB_SIZE / 2 <
        VOB_SUB_SIZE / 2 := by omega
    have hlt : y / 2 * (2 * ((spu.spuWidth + 7) / 8)) + index1 + VOB_SUB_SIZE / 2 <
        VOB_SUB_SIZE := by
      have : VOB_SUB_SIZE / 2 + VOB_SUB_SIZE / 2 = VOB_SUB_SIZE := by decide
      omega
    rw [hodd, if_pos Nat.one_ne_zero, if_pos rfl, hbehind, if_neg hnot, if_pos hlt,
      Nat.add_sub_cancel, wordByte_bits _ _ (by omega), hword, hplace]

/-! ## Reads -/

section Reads

variable {data : Source} {s : Fill} {m i done pos : ℕ}

/-- A line that is full has no more codes. -/
theorem fillCodes_full {width : ℕ} (h : width ≤ s.nDecodedPixNum) (change_data fuel : ℕ) :
    fillCodes data width change_data fuel s = s := by
  cases fuel with
  | zero => rfl
  | succ fuel => rw [fillCodes, if_neg (Nat.not_lt.mpr h)]

/-- The reads of a line whose codes begin at bit `bound` at most, and the end of the line.  Behind
byte `m` one code, of sixteen bits, is a line. -/
theorem At.fillCodes_reads (h : At i done pos s) (hzeros : ∀ k, m ≤ k → data k = 0) {bound : ℕ}
    (hi : i ≤ bound) (hbound : 8 * m + 16 ≤ bound) (width change_data fuel : ℕ) :
    (linePixels data width fuel i done).2 ≤ bound + 16 ∧
      ∀ r ∈ (Dvd.fillCodes data width change_data fuel s).reads,
        r ∈ s.reads ∨ 8 * r ≤ bound + 24 := by
  induction fuel generalizing i done pos s with
  | zero => exact ⟨by simpa [linePixels] using hi.trans (Nat.le_add_right _ _), fun r hr => .inl hr⟩
  | succ fuel ih =>
    rw [linePixels, Dvd.fillCodes, h.done]
    split_ifs with hdone
    · obtain ⟨hat, -, hreads⟩ := h.fillCode hdone data change_data
      have hbits := codeBits_cases data i
      have hbit := h.bit
      have hfirst : ∀ r ∈ (Dvd.fillCode data width change_data s).reads,
          r ∈ s.reads ∨ 8 * r ≤ bound + 24 := by
        intro r hr
        rw [hreads, List.mem_append] at hr
        refine hr.imp_right fun hcode => ?_
        have hrange := List.mem_range'_1.mp hcode
        omega
      by_cases hbehind : m ≤ i / 8
      · obtain ⟨hsixteen, hlength, -⟩ := code_zeros fun k hk => hzeros k (hbehind.trans hk)
        have hpixels : done + runPixels data width i done = width := by
          rw [runPixels, if_pos hlength]
          omega
        have hfull : width ≤ (Dvd.fillCode data width change_data s).nDecodedPixNum := by
          rw [hat.done, hpixels]
        have hend : (linePixels data width fuel (i + codeBits data i)
            (done + runPixels data width i done)).2 = i + 16 := by
          rw [hpixels, hsixteen]
          cases fuel with
          | zero => rfl
          | succ fuel => rw [linePixels, if_neg (Nat.lt_irrefl _)]
        rw [fillCodes_full hfull]
        dsimp only
        rw [hend]
        exact ⟨by omega, hfirst⟩
      · obtain ⟨hend, hrest⟩ := ih hat (by omega)
        refine ⟨hend, fun r hr => ?_⟩
        rcases hrest r hr with hbefore | hlater
        · exact hfirst r hbefore
        · exact .inr hlater
    · exact ⟨hi.trans (Nat.le_add_right _ _), fun r hr => .inl hr⟩

theorem endLine_reads (width : ℕ) (s : Fill) : (endLine width s).reads = s.reads := by
  rw [endLine_eq]

/-- **The reads of a field.**  Each line may go on for three bytes more. -/
theorem At.fillLines_reads (h : At i done pos s) (hzeros : ∀ k, m ≤ k → data k = 0) {bound : ℕ}
    (hi : i ≤ bound) (hbound : 8 * m + 16 ≤ bound) (width change_data lines : ℕ) :
    ∀ r ∈ (Dvd.fillLines data width change_data lines s).reads,
      r ∈ s.reads ∨ 8 * r ≤ bound + 24 * lines := by
  induction lines generalizing i done pos s bound with
  | zero => exact fun r hr => .inl hr
  | succ lines ih =>
    obtain ⟨hend, hline⟩ := h.fillCodes_reads hzeros hi hbound width change_data width
    obtain ⟨hat, -⟩ := h.fillCodes data width change_data width
    obtain ⟨hat', -⟩ := hat.endLine width
    have hnext : roundUp 8 (linePixels data width width i done).2 ≤ bound + 24 := by
      unfold roundUp
      omega
    intro r hr
    rw [Dvd.fillLines] at hr
    rcases ih hat' hnext (by omega) r hr with hbefore | hlater
    · rw [endLine_reads] at hbefore
      rcases hline r hbefore with hold | hnew
      · exact .inl hold
      · right
        omega
    · right
      omega

end Reads

/-! ## Frames -/

/-- What the item holds when its bitmap is decoded: fields of sixteen bits, a size that is cut
off, and zeros behind the frame. -/
structure Admitted (spu : DvdSpu) : Prop where
  spuWidth : spu.spuWidth ≤ VOB_SUB_WIDTH
  spuHeight : spu.spuHeight ≤ VOB_SUB_HEIGHT
  topPxdAddr : spu.topPxdAddr < 2 ^ 16
  bottomPxdAddr : spu.bottomPxdAddr < 2 ^ 16
  length : spu.length < 2 ^ 16
  cleared : ∀ k, spu.length ≤ k → spu.spuData k = 0

theorem parameter_lt (data : Source) (p : ℕ) : parameter data p < 2 ^ 16 := by
  have hhigh := (data p).toNat_lt
  have hlow := (data (p + 1)).toNat_lt
  rw [parameter, Nat.shiftLeft_eq]
  omega

theorem Admitted.setCommand {spu : DvdSpu} (h : Admitted spu) (p : ℕ) (command : CommandID) :
    Admitted (setCommand spu p command) := by
  obtain ⟨hwidth, hheight, htop, hbottom, hlength, hcleared⟩ := h
  cases command with
  | SET_DAREA => exact ⟨min_le_right _ _, min_le_right _ _, htop, hbottom, hlength, hcleared⟩
  | SET_DSPXA =>
    exact ⟨hwidth, hheight, parameter_lt _ _, parameter_lt _ _, hlength, hcleared⟩
  | FSTA_DSP | STA_DSP | STP_DSP | SET_COLOR | SET_CONTR | CHG_COLCON | CMD_END =>
    exact ⟨hwidth, hheight, htop, hbottom, hlength, hcleared⟩

theorem Admitted.spuCmdEnd {spu : DvdSpu} (h : Admitted spu) (fuel pCmdData : ℕ) :
    Admitted (spuCmdEnd fuel spu pCmdData).spu := by
  rw [Dvd.spuCmdEnd]
  split_ifs
  · dsimp only
    split
    · exact h
    · exact ⟨h.spuWidth, h.spuHeight, h.topPxdAddr, h.bottomPxdAddr, h.length, h.cleared⟩
  · exact h

theorem Admitted.spuCmdLoop {spu : DvdSpu} (h : Admitted spu) (fuel steps pCmdData : ℕ) :
    Admitted (spuCmdLoop fuel steps spu pCmdData).spu := by
  induction steps generalizing spu pCmdData with
  | zero => exact h
  | succ steps ih =>
    rw [Dvd.spuCmdLoop]
    split_ifs
    · split
      · exact h
      · dsimp only
        split_ifs
        · exact h.spuCmdEnd fuel _
        · exact ih (h.setCommand _ _) _
    · exact h

/-- `getSpuCmd` keeps to it. -/
theorem Admitted.getSpuCmd {spu : DvdSpu} (h : Admitted spu) (fuel : ℕ) :
    Admitted (getSpuCmd fuel spu).spu := by
  rw [Dvd.getSpuCmd]
  split_ifs
  · exact h
  · exact h.spuCmdLoop fuel _ _

/-- The reads of a field stay inside `spu_data`. -/
theorem Admitted.reads_lt {spu : DvdSpu} (h : Admitted spu) {pixelIn : ℕ}
    (hpixel : pixelIn < 2 ^ 16)
    (n : ℕ) : ∀ r ∈ (spuFillPixel spu pixelIn n).2.reads, r < VOB_SUB_SIZE := by
  have hstart : At (8 * pixelIn) 0 0
      { pixelIn := pixelIn
        lookups := if spu.spuAlpha &&& 0xf ≠ 0 then [0, changeData 4 spu.spuAlpha] else [] } :=
    ⟨rfl, by simp, rfl, rfl, rfl, rfl⟩
  have hlength := h.length
  have hheight := h.spuHeight
  unfold VOB_SUB_HEIGHT at hheight
  intro r hr
  have hbound : 8 * pixelIn ≤ 8 * 2 ^ 16 + 16 := by omega
  rcases hstart.fillLines_reads h.cleared hbound (by omega) spu.spuWidth
    (changeData 4 spu.spuAlpha) (spu.spuHeight / 2) r hr with hnone | hread
  · simp at hnone
  · unfold VOB_SUB_SIZE VOB_SUB_WIDTH VOB_SUB_HEIGHT
    omega

/-- A frame whose lines are coded as runs that fill them: the lines with even numbers are the top
field, the others the bottom field. -/
structure CodedFrame (spu : DvdSpu) where
  top : List (List RunCode)
  bottom : List (List RunCode)
  top_length : top.length = (spu.spuHeight + 1) / 2
  bottom_length : bottom.length = spu.spuHeight / 2
  top_coded : FieldCoded spu.spuData spu.spuWidth (8 * spu.topPxdAddr) top
  bottom_coded : FieldCoded spu.spuData spu.spuWidth (8 * spu.bottomPxdAddr) bottom

/-- The colour of a pixel of the frame. -/
def CodedFrame.colour {spu : DvdSpu} (frame : CodedFrame spu) (x y : ℕ) : ℕ :=
  (colours spu.spuWidth 0
    ((if y % 2 = 1 then frame.bottom else frame.top).getD (y / 2) [])).getD x 0

/-- **The bitmap of a frame.**  All reads lie in `spu_data`, and if the lines are coded as runs
that fill them and a nibble of the contrast is zero, each pixel of the lines that are decoded has
its colour, where colour 0 is exchanged with the first one whose contrast is zero. -/
theorem fillFields_decodes {spu : DvdSpu} (h : Admitted spu) :
    (∀ r ∈ (fillFields spu).2.1.reads ++ (fillFields spu).2.2.reads, r < VOB_SUB_SIZE) ∧
      ∀ frame : CodedFrame spu, (∃ j < 4, spu.spuAlpha >>> (4 * j) &&& 0xf = 0) →
        ∀ x < spu.spuWidth, ∀ y < 2 * (spu.spuHeight / 2),
          interSpuPixel (fillFields spu).1 x y =
            Equiv.swap 0 (changeData 4 spu.spuAlpha) (frame.colour x y) := by
  constructor
  · rw [fillFields_odd, fillFields_even, List.forall_mem_append]
    exact ⟨h.reads_lt h.topPxdAddr 1, h.reads_lt h.bottomPxdAddr 2⟩
  · intro frame hnibble x hx y hy
    have hcontrast := (changeData_lt_iff 4 spu.spuAlpha).mpr hnibble
    have hrow : y / 2 < spu.spuHeight / 2 := by omega
    rw [interSpuPixel_fillFields h.spuWidth h.spuHeight hx (by omega), CodedFrame.colour]
    split_ifs
    · rw [fillFields_even]
      exact fieldAt_spuFillPixel 2 hcontrast frame.bottom_coded frame.bottom_length.ge hx hrow
    · have hlines : spu.spuHeight / 2 ≤ frame.top.length := by
        rw [frame.top_length]
        omega
      rw [fillFields_odd]
      exact fieldAt_spuFillPixel 1 hcontrast frame.top_coded hlines hx hrow

/-- Two rows of two pixels of colour 1, with a contrast for colour 0 only. -/
def twoRows : DvdSpu :=
  { spuData := sourceOf [0x90, 0x90], length := 2, spuAlpha := 0x000f, spuWidth := 2
    spuHeight := 2, topPxdAddr := 0, bottomPxdAddr := 1 }

theorem admitted_twoRows : Admitted twoRows :=
  ⟨by decide, by decide, by decide, by decide, by decide,
    fun _ hk => List.getD_eq_default _ _ hk⟩

/-- Its runs. -/
def twoRowsFrame : CodedFrame twoRows where
  top := [[⟨4, 2, 1, by decide, by decide⟩]]
  bottom := [[⟨4, 2, 1, by decide, by decide⟩]]
  top_length := rfl
  bottom_length := rfl
  top_coded := ⟨⟨by decide, rfl⟩, ⟨by decide, trivial⟩, trivial⟩
  bottom_coded := ⟨⟨by decide, rfl⟩, ⟨by decide, trivial⟩, trivial⟩

theorem fillFields_decodes_twoRows :
    (∀ r ∈ (fillFields twoRows).2.1.reads ++ (fillFields twoRows).2.2.reads, r < VOB_SUB_SIZE) ∧
      interSpuPixel (fillFields twoRows).1 1 1 =
        Equiv.swap 0 (changeData 4 0x000f) (twoRowsFrame.colour 1 1) := by
  obtain ⟨hreads, hpixels⟩ := fillFields_decodes admitted_twoRows
  exact ⟨hreads, hpixels twoRowsFrame ⟨1, by decide, by decide⟩ 1 (by decide) 1 (by decide)⟩

/-- A pixel of colour 1 has colour 0 in the plane, as colour 1 is the first without a contrast. -/
theorem not_interSpuPixel_eq_colour :
    ¬ ∀ spu : DvdSpu, Admitted spu → ∀ frame : CodedFrame spu, ∀ x < spu.spuWidth,
      ∀ y < spu.spuHeight, interSpuPixel (fillFields spu).1 x y = frame.colour x y := by
  intro h
  have hpixel := h twoRows admitted_twoRows twoRowsFrame 0 (by decide) 0 (by decide)
  exact absurd hpixel (by decide +kernel)

end Dvd
end AmlSubtitle
