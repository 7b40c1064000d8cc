import AmlSubtitle.Lib.Bits
import AmlSubtitle.Lib.Packed
import AmlSubtitle.Parser.DvdParser

/-!
# The bitmaps of a DVD frame

The loops of `spuFillPixel` against the bits of the data.

* `decodeRL_bitsAt`: a code, with its bits, its length and its colour.
* `fieldLines`: the pixels of the lines of a field, from bit to bit.
* `At.fillLines`: the loops write these pixels, each line from the start of a word on.
* `spuFillPixel_inBounds_iff`: when the writes lie in the half of the plane and the lookups in
  `PixelData`.
-/

namespace AmlSubtitle
namespace Dvd

open Dvb (Source sourceOf)
open Bits Packed

/-! ## Codes -/

/-- The bits of the code from bit `i` on: of four, eight, twelve and sixteen, the fewest that
begin with a one among the first bits. -/
def codeBits (data : Source) (i : ℕ) : ℕ :=
  if 4 ≤ bitsAt data i 4 then 4
  else if 0x10 ≤ bitsAt data i 8 then 8
  else if 0x40 ≤ bitsAt data i 12 then 12
  else 16

/-- The length of the run from bit `i` on, and 0 for a run to the end of the line. -/
def codeLength (data : Source) (i : ℕ) : ℕ := bitsAt data i (codeBits data i) / 4

/-- The colour of the run from bit `i` on. -/
def codeColour (data : Source) (i : ℕ) : ℕ := bitsAt data i (codeBits data i) % 4

section Codes

variable (data : Source) (i : ℕ)

theorem codeBits_cases :
    codeBits data i = 4 ∨ codeBits data i = 8 ∨ codeBits data i = 12 ∨ codeBits data i = 16 := by
  unfold codeBits
  split_ifs <;> simp

theorem codeColour_lt : codeColour data i < 4 := Nat.mod_lt _ (by decide)

/-- **`DecodeRL`** on the sixteen bits from bit `i` on. -/
theorem decodeRL_bitsAt : decodeRL (bitsAt data i 16) =
    (codeBits data i, codeLength data i, codeColour data i) := by
  have hlt := bitsAt_lt data i 16
  have hmask : ∀ k, bitsAt data i 16 &&& 3 <<< k ≠ 0 ↔ bitsAt data i 16 / 2 ^ k % 4 ≠ 0 := by
    intro k
    rw [and_shiftLeft, Nat.shiftRight_eq_div_pow, Nat.and_two_pow_sub_one_eq_mod _ 2,
      Nat.shiftLeft_eq]
    simp
  have hbits : (if bitsAt data i 16 &&& 0xc000 ≠ 0 then 4
      else if bitsAt data i 16 &&& 0x3000 ≠ 0 then 8
      else if bitsAt data i 16 &&& 0x0c00 ≠ 0 then 12
      else 16) = codeBits data i := by
    have hfour : bitsAt data i 4 = bitsAt data i 16 / 2 ^ 12 := bitsAt_take data i 4 12
    have height : bitsAt data i 8 = bitsAt data i 16 / 2 ^ 8 := bitsAt_take data i 8 8
    have htwelve : bitsAt data i 12 = bitsAt data i 16 / 2 ^ 4 := bitsAt_take data i 12 4
    have hfirst : bitsAt data i 16 &&& 0xc000 ≠ 0 ↔ _ := hmask 14
    have hsecond : bitsAt data i 16 &&& 0x3000 ≠ 0 ↔ _ := hmask 12
    have hthird : bitsAt data i 16 &&& 0x0c00 ≠ 0 ↔ _ := hmask 10
    rw [codeBits]
    split_ifs <;> omega
  have hvalue : bitsAt data i (codeBits data i) =
      bitsAt data i 16 >>> (16 - codeBits data i) := by
    rw [Nat.shiftRight_eq_div_pow, bitsAt_take data i (codeBits data i) (16 - codeBits data i)]
    rcases codeBits_cases data i with h | h | h | h <;> rw [h]
  rw [decodeRL, hbits, codeLength, codeColour, hvalue, Nat.shiftRight_add,
    Nat.shiftRight_eq_div_pow _ 2, Nat.and_two_pow_sub_one_eq_mod _ 2]

end Codes

/-- `GetWordFromPixBuffer` is the sixteen bits from a bit on. -/
theorem getWordFromPixBuffer_eq (data : Source) {bitpos : ℕ} (hlt : bitpos < 16) (pixelIn : ℕ) :
    getWordFromPixBuffer data bitpos pixelIn = bitsAt data (8 * pixelIn + bitpos) 16 := by
  have hpair := bitsAt_pair data (pixelIn + 2)
  rw [getWordFromPixBuffer, ← bitsAt_pair, ← hpair]
  split_ifs with hzero
  · rw [hzero, Nat.add_zero]
  · obtain ⟨rest, hrest⟩ : ∃ rest, bitpos + rest = 16 := ⟨16 - bitpos, by omega⟩
    have hsub : 16 - bitpos = rest := by omega
    have hhigh : (bitsAt data (8 * pixelIn) 16 <<< bitpos) % 2 ^ 16 =
        bitsAt data (8 * pixelIn + bitpos) rest * 2 ^ bitpos := by
      rw [bitsAt_drop, hrest, Nat.shiftLeft_eq, ← hrest, Nat.pow_add, Nat.mul_comm (2 ^ bitpos),
        Nat.mul_mod_mul_right]
    have hlow : bitsAt data (8 * (pixelIn + 2)) 16 >>> (16 - bitpos) =
        bitsAt data (8 * pixelIn + 16) bitpos := by
      rw [hsub, Nat.shiftRight_eq_div_pow, bitsAt_take data _ bitpos rest, hrest]
      rfl
    have hlt := bitsAt_lt data (8 * pixelIn + 16) bitpos
    rw [hhigh, hlow, ← Nat.shiftLeft_eq, ← Nat.shiftLeft_add_eq_or_of_lt hlt, Nat.shiftLeft_eq]
    have hjoin := bitsAt_add data (8 * pixelIn + bitpos) rest bitpos
    rw [Nat.add_comm rest bitpos, hrest, Nat.add_assoc, hrest] at hjoin
    exact hjoin.symm

/-! ## Lines -/

/-- The pixels of the run from bit `i` on, in a line of which `done` pixels are there. -/
def runPixels (data : Source) (width i done : ℕ) : ℕ :=
  if codeLength data i = 0 then width - done else codeLength data i

/-- The pixels of a line from bit `i` on, whose first `done` pixels the line before has left
over, and the bit behind its last code.  There are at most `fuel` codes. -/
def linePixels (data : Source) (width : ℕ) : ℕ → ℕ → ℕ → List ℕ × ℕ
  | 0, i, _ => ([], i)
  | fuel + 1, i, done =>
    if done < width then
      let n := runPixels data width i done
      let rest := linePixels data width fuel (i + codeBits data i) (done + n)
      (List.replicate n (codeColour data i) ++ rest.1, rest.2)
    else
      ([], i)

/-- The next multiple. -/
def roundUp (k n : ℕ) : ℕ := k * ((n + (k - 1)) / k)

/-- The pixels of the lines of a field, line by line. -/
def fieldLines (data : Source) (width : ℕ) : ℕ → ℕ → ℕ → List (List ℕ)
  | 0, _, _ => []
  | lines + 1, i, done =>
    let line := linePixels data width width i done
    line.1 :: fieldLines data width lines (roundUp 8 line.2) (done + line.1.length - width)

/-- The pixels of lines with their places, where each line starts a word of eight. -/
def fieldStores : List (List ℕ) → ℕ → List (ℕ × ℕ)
  | [], _ => []
  | line :: lines, pos => line.zipIdx pos ++ fieldStores lines (roundUp 8 (pos + line.length))

/-- The colour that is written for one that is read. -/
def exchanged (change_data colour : ℕ) : ℕ :=
  if change_data ≠ 0 then (pixelData change_data).getD colour 0 else colour

/-- A pixel or-ed into its word. -/
def orPixel (words : ℕ → ℕ) (store : ℕ × ℕ) : ℕ → ℕ :=
  Function.update words (store.2 / 8)
    (words (store.2 / 8) ||| (store.1 <<< (14 - 2 * (store.2 % 8))) % 2 ^ 16)

/-! ## The loops -/

/-- The loops stand at bit `i`, behind `done` pixels of the line, and write pixel `pos` next. -/
structure At (i done pos : ℕ) (s : Fill) : Prop where
  bit : 8 * s.pixelIn + s.bitPos = i
  bitPos : s.bitPos < 16
  nibble : s.bitPos % 4 = 0
  done : s.nDecodedPixNum = done
  ptr : s.ptrPXDWrite = pos / 8
  offset : s.wrOffset = 16 - 2 * (pos % 8)

/-- From `s` to `s'` these pixels are written, and `PixelData` is looked up inside. -/
structure Writes (stores : List (ℕ × ℕ)) (s s' : Fill) : Prop where
  words : s'.words = stores.foldl orPixel s.words
  writes : s'.writes = s.writes ++ stores.map fun store => store.2 / 8
  lookups : ∃ l, s'.lookups = s.lookups ++ l ∧ ∀ k ∈ l, k < 4

section Loops

variable {stores stores' : List (ℕ × ℕ)} {s s' s'' : Fill} {i done pos : ℕ}

theorem Writes.refl (s : Fill) : Writes [] s s :=
  ⟨rfl, by simp, [], by simp, by simp⟩

theorem Writes.trans (h : Writes stores s s') (h' : Writes stores' s' s'') :
    Writes (stores ++ stores') s s'' := by
  obtain ⟨l, hl, hlt⟩ := h.lookups
  obtain ⟨l', hl', hlt'⟩ := h'.lookups
  refine ⟨?_, ?_, l ++ l', ?_, List.forall_mem_append.mpr ⟨hlt, hlt'⟩⟩
  · rw [h'.words, h.words, List.foldl_append]
  · rw [h'.writes, h.writes, List.map_append, List.append_assoc]
  · rw [hl', hl, List.append_assoc]

/-- A lookup in front. -/
theorem Writes.of_lookup (h : Writes stores s' s'') (hwords : s'.words = s.words)
    (hwrites : s'.writes = s.writes) {l : List ℕ} (hlookups : s'.lookups = s.lookups ++ l)
    (hl : ∀ k ∈ l, k < 4) : Writes stores s s'' := by
  have hstart : Writes [] s s' := ⟨hwords, by simp [hwrites], l, hlookups, hl⟩
  exact hstart.trans h

/-- A pixel. -/
theorem At.putPixel (h : At i done pos s) (colour : ℕ) :
    At i done (pos + 1) (putPixel colour s) ∧
      Writes [(colour, pos)] s (putPixel colour s) ∧ (putPixel colour s).reads = s.reads := by
  have hoffset : s.wrOffset - 2 = 14 - 2 * (pos % 8) := by
    rw [h.offset]
    omega
  refine ⟨⟨h.bit, h.bitPos, h.nibble, h.done, ?_, ?_⟩, ⟨?_, ?_, [], by simp [Dvd.putPixel], ?_⟩,
    rfl⟩
  · simp only [Dvd.putPixel, h.ptr, hoffset]
    split_ifs <;> omega
  · simp only [Dvd.putPixel, hoffset]
    split_ifs <;> omega
  · simp only [Dvd.putPixel, h.ptr, hoffset]
    rfl
  · simp [Dvd.putPixel, h.ptr]
  · simp

/-- The pixels of a run. -/
theorem At.putPixels (h : At i done pos s) (colour n : ℕ) :
    At i done (pos + n) (putPixels colour n s) ∧
      Writes ((List.replicate n colour).zipIdx pos) s (putPixels colour n s) ∧
        (putPixels colour n s).reads = s.reads := by
  induction n generalizing pos s with
  | zero => exact ⟨h, .refl s, rfl⟩
  | succ n ih =>
    obtain ⟨hat, hwrites, hreads⟩ := h.putPixel colour
    obtain ⟨hat', hwrites', hreads'⟩ := ih hat
    rw [Nat.add_assoc, Nat.add_comm 1 n] at hat'
    exact ⟨hat', hwrites.trans hwrites', hreads'.trans hreads⟩

/-- A code. -/
theorem At.fillCode (h : At i done pos s) {width : ℕ} (hdone : done < width) (data : Source)
    (change_data : ℕ) :
    let n := runPixels data width i done
    At (i + codeBits data i) (done + n) (pos + n) (fillCode data width change_data s) ∧
      Writes ((List.replicate n (exchanged change_data (codeColour data i))).zipIdx pos) s
        (fillCode data width change_data s) ∧
      (fillCode data width change_data s).reads = s.reads ++ List.range' s.pixelIn 4 := by
  have hcode : decodeRL (getWordFromPixBuffer data s.bitPos s.pixelIn) =
      (codeBits data i, codeLength data i, codeColour data i) := by
    rw [getWordFromPixBuffer_eq data h.bitPos, h.bit, decodeRL_bitsAt]
  have hn : (if codeLength data i = 0 then width - s.nDecodedPixNum % width
      else codeLength data i) = runPixels data width i done := by
    rw [h.done, Nat.mod_eq_of_lt hdone]
    rfl
  have hskip : At (i + codeBits data i) (done + runPixels data width i done) pos
      { skipBits s (codeBits data i) with
        reads := s.reads ++ List.range' s.pixelIn 4
        nDecodedPixNum := s.nDecodedPixNum + runPixels data width i done } := by
    have hbit := h.bit
    have hlt := h.bitPos
    have hnibble := h.nibble
    have hbits := codeBits_cases data i
    rw [skipBits]
    split_ifs with hword
    · exact ⟨by dsimp only; omega, by dsimp only; omega, by dsimp only; omega,
        congrArg (· + _) h.done, h.ptr, h.offset⟩
    · exact ⟨by dsimp only; omega, by dsimp only; omega, by dsimp only; omega,
        congrArg (· + _) h.done, h.ptr, h.offset⟩
  have hkept : (skipBits s (codeBits data i)).words = s.words ∧
      (skipBits s (codeBits data i)).writes = s.writes ∧
        (skipBits s (codeBits data i)).lookups = s.lookups := by
    rw [skipBits]
    split_ifs <;> exact ⟨rfl, rfl, rfl⟩
  obtain ⟨hwords, hwrites, hlookups⟩ := hkept
  dsimp only
  rw [Dvd.fillCode, hcode]
  dsimp only
  rw [hn]
  unfold exchanged
  split_ifs with hchange
  · have hlookup : At (i + codeBits data i) (done + runPixels data width i done) pos
        { skipBits s (codeBits data i) with
          reads := s.reads ++ List.range' s.pixelIn 4
          nDecodedPixNum := s.nDecodedPixNum + runPixels data width i done
          lookups := (skipBits s (codeBits data i)).lookups ++ [codeColour data i] } :=
      ⟨hskip.bit, hskip.bitPos, hskip.nibble, hskip.done, hskip.ptr, hskip.offset⟩
    obtain ⟨hat, hput, hreads⟩ := hlookup.putPixels
      ((pixelData change_data).getD (codeColour data i) 0) (runPixels data width i done)
    refine ⟨hat, hput.of_lookup hwords hwrites (congrArg (· ++ _) hlookups) ?_, hreads⟩
    simpa using codeColour_lt data i
  · obtain ⟨hat, hput, hreads⟩ := hskip.putPixels (codeColour data i)
      (runPixels data width i done)
    have hsame : s.lookups ++ [] = s.lookups := List.append_nil _
    exact ⟨hat, hput.of_lookup hwords hwrites (hlookups.trans hsame.symm) (by simp), hreads⟩

/-- The codes of a line. -/
theorem At.fillCodes (h : At i done pos s) (data : Source) (width change_data fuel : ℕ) :
    let line := linePixels data width fuel i done
    At line.2 (done + line.1.length) (pos + line.1.length)
        (fillCodes data width change_data fuel s) ∧
      Writes ((line.1.map (exchanged change_data)).zipIdx pos) s
        (fillCodes data width change_data fuel s) := by
  induction fuel generalizing i done pos s with
  | zero => exact ⟨h, .refl s⟩
  | succ fuel ih =>
    rw [linePixels, Dvd.fillCodes, h.done]
    split_ifs with hdone
    · obtain ⟨hat, hwrites, -⟩ := h.fillCode hdone data change_data
      obtain ⟨hat', hwrites'⟩ := ih hat
      dsimp only
      rw [List.length_append, List.length_replicate, List.map_append, List.map_replicate,
        List.zipIdx_append, List.length_replicate, ← Nat.add_assoc, ← Nat.add_assoc]
      exact ⟨hat', hwrites.trans hwrites'⟩
    · exact ⟨h, .refl s⟩

/-- The end of a line, field by field. -/
theorem endLine_eq (width : ℕ) (s : Fill) : endLine width s =
    { s with
      bitPos := if s.bitPos = 4 then 8 else if s.bitPos = 12 then 0 else s.bitPos
      pixelIn := if s.bitPos = 12 then s.pixelIn + 2 else s.pixelIn
      ptrPXDWrite := if s.wrOffset ≠ 16 then s.ptrPXDWrite + 1 else s.ptrPXDWrite
      wrOffset := 16
      nDecodedPixNum := s.nDecodedPixNum - width } := by
  obtain ⟨pixelIn, bitPos, nDecodedPixNum, ptrPXDWrite, wrOffset, words, reads, writes,
    lookups⟩ := s
  rw [endLine]
  by_cases hfour : bitPos = 4
  · by_cases hword : wrOffset = 16
    · simp [hfour, hword]
    · simp [hfour, hword]
  · by_cases htwelve : bitPos = 12
    · by_cases hword : wrOffset = 16
      · simp [htwelve, hword]
      · simp [htwelve, hword]
    · by_cases hword : wrOffset = 16
      · simp [hfour, htwelve, hword]
      · simp [hfour, htwelve, hword]

/-- The end of a line. -/
theorem At.endLine (h : At i done pos s) (width : ℕ) :
    At (roundUp 8 i) (done - width) (roundUp 8 pos) (endLine width s) ∧
      Writes [] s (endLine width s) := by
  have hbit := h.bit
  have hlt := h.bitPos
  have hnibble := h.nibble
  have hoffset := h.offset
  have hptr := h.ptr
  have hcases : s.bitPos = 0 ∨ s.bitPos = 4 ∨ s.bitPos = 8 ∨ s.bitPos = 12 := by omega
  rw [endLine_eq]
  refine ⟨⟨?_, ?_, ?_, congrArg (· - width) h.done, ?_, ?_⟩, ?_⟩
  · dsimp only
    unfold roundUp
    split_ifs <;> omega
  · dsimp only
    split_ifs <;> omega
  · dsimp only
    split_ifs <;> omega
  · dsimp only
    unfold roundUp
    split_ifs <;> omega
  · dsimp only
    unfold roundUp
    omega
  · exact ⟨rfl, by simp, [], by simp, by simp⟩

/-- **The lines of a field.** -/
theorem At.fillLines (h : At i done pos s) (data : Source) (width change_data lines : ℕ) :
    Writes (fieldStores ((fieldLines data width lines i done).map fun line =>
      line.map (exchanged change_data)) pos) s (fillLines data width change_data lines s) := by
  induction lines generalizing i done pos s with
  | zero => exact .refl s
  | succ lines ih =>
    obtain ⟨hat, hwrites⟩ := h.fillCodes data width change_data width
    obtain ⟨hat', hwrites'⟩ := hat.endLine width
    have hrest := ih hat'
    rw [fieldLines, Dvd.fillLines, List.map_cons, fieldStores, List.length_map]
    simpa using (hwrites.trans hwrites').trans hrest

end Loops

/-! ## The contrast -/

/-- The count ends before the last nibble if one of them is zero. -/
theorem changeData_lt_iff (nibbles alpha : ℕ) :
    changeData nibbles alpha < nibbles ↔ ∃ j < nibbles, alpha >>> (4 * j) &&& 0xf = 0 := by
  induction nibbles generalizing alpha with
  | zero => simp [changeData]
  | succ nibbles ih =>
    have hnext : ∀ j, alpha >>> 4 >>> (4 * j) = alpha >>> (4 * (j + 1)) := fun j => by
      rw [← Nat.shiftRight_add, Nat.mul_succ, Nat.add_comm]
    rw [changeData]
    split_ifs with hnibble
    · rw [Nat.succ_lt_succ_iff, ih]
      constructor
      · rintro ⟨j, hj, hzero⟩
        exact ⟨j + 1, Nat.succ_lt_succ hj, by rw [← hnext, hzero]⟩
      · rintro ⟨j, hj, hzero⟩
        cases j with
        | zero => exact absurd (by simpa using hzero) hnibble
        | succ j => exact ⟨j, Nat.lt_of_succ_lt_succ hj, by rw [hnext, hzero]⟩
    · exact iff_of_true nibbles.succ_pos ⟨0, nibbles.succ_pos, by simpa using hnibble⟩

/-- The exchange of colours is in `PixelData` exactly if a nibble of the contrast is zero. -/
theorem forall_exchanged_lt_iff (alpha : ℕ) :
    (∀ k ∈ if alpha &&& 0xf ≠ 0 then [0, changeData 4 alpha] else [], k < 4) ↔
      ∃ j < 4, alpha >>> (4 * j) &&& 0xf = 0 := by
  split_ifs with hnibble
  · rw [← changeData_lt_iff]
    simp
  · exact iff_of_true (by simp) ⟨0, by simp, by simpa using hnibble⟩

/-! ## Bounds -/

/-- The words that lines of pixels take. -/
def fieldWords (lines : List (List ℕ)) : ℕ := (lines.map fun line => (line.length + 7) / 8).sum

@[simp] theorem fieldWords_nil : fieldWords [] = 0 := rfl

@[simp] theorem fieldWords_cons (line : List ℕ) (lines : List (List ℕ)) :
    fieldWords (line :: lines) = (line.length + 7) / 8 + fieldWords lines := rfl

theorem fieldWords_map (f : ℕ → ℕ) (lines : List (List ℕ)) :
    fieldWords (lines.map fun line => line.map f) = fieldWords lines := by
  simp [fieldWords, Function.comp_def]

/-- What holds of all the places of a line. -/
theorem forall_zipIdx_iff (line : List ℕ) (pos : ℕ) (P : ℕ → Prop) :
    (∀ store ∈ line.zipIdx pos, P store.2) ↔ ∀ k ∈ List.range' pos line.length, P k := by
  rw [← List.zipIdx_map_snd, List.forall_mem_map]

/-- A line from the start of a word on ends inside a bound. -/
theorem forall_zipIdx_lt_iff (line : List ℕ) {k bound : ℕ} (hk : k ≤ bound) :
    (∀ store ∈ line.zipIdx (8 * k), store.2 / 8 < bound) ↔ k + (line.length + 7) / 8 ≤ bound := by
  rw [forall_zipIdx_iff line (8 * k) fun pos => pos / 8 < bound]
  constructor
  · intro h
    rcases Nat.eq_zero_or_pos line.length with hnone | hsome
    · omega
    · have hlast := h (8 * k + line.length - 1) (List.mem_range'_1.mpr ⟨by omega, by omega⟩)
      omega
  · intro h pos hpos
    have hrange := List.mem_range'_1.mp hpos
    omega

/-- The lines of a field end inside a bound. -/
theorem forall_fieldStores_lt_iff (lines : List (List ℕ)) {k bound : ℕ} (hk : k ≤ bound) :
    (∀ store ∈ fieldStores lines (8 * k), store.2 / 8 < bound) ↔ k + fieldWords lines ≤ bound := by
  induction lines generalizing k with
  | nil => simpa [fieldStores] using hk
  | cons line lines ih =>
    have hnext : roundUp 8 (8 * k + line.length) = 8 * (k + (line.length + 7) / 8) := by
      unfold roundUp
      omega
    rw [fieldStores, List.forall_mem_append, forall_zipIdx_lt_iff line hk, hnext, fieldWords_cons]
    constructor
    · rintro ⟨hline, hrest⟩
      have := (ih hline).mp hrest
      omega
    · intro h
      have hline : k + (line.length + 7) / 8 ≤ bound := by omega
      exact ⟨hline, (ih hline).mpr (by omega)⟩

/-- The writes of a field lie in its half of the plane, and the lookups in `PixelData`. -/
def InBounds (s : Fill) : Prop :=
  (∀ w ∈ s.writes, 2 * w + 1 < VOB_SUB_SIZE / 2) ∧ ∀ k ∈ s.lookups, k < 4

/-- What the loops of `spuFillPixel` write. -/
theorem spuFillPixel_writes (spu : DvdSpu) (pixelIn n : ℕ) :
    ∃ s, Writes (fieldStores ((fieldLines spu.spuData spu.spuWidth (spu.spuHeight / 2)
        (8 * pixelIn) 0).map fun line => line.map (exchanged (changeData 4 spu.spuAlpha))) 0)
      s (spuFillPixel spu pixelIn n).2 ∧ s.words = (fun _ => 0) ∧ s.writes = [] ∧
      s.lookups = if spu.spuAlpha &&& 0xf ≠ 0 then [0, changeData 4 spu.spuAlpha] else [] := by
  have hstart : At (8 * pixelIn) 0 0
      { pixelIn := pixelIn
        lookups := if spu.spuAlpha &&& 0xf ≠ 0 then [0, changeData 4 spu.spuAlpha] else [] } :=
    ⟨rfl, by simp, rfl, rfl, rfl, rfl⟩
  exact ⟨_, hstart.fillLines spu.spuData spu.spuWidth (changeData 4 spu.spuAlpha)
    (spu.spuHeight / 2), rfl, rfl, rfl⟩

/-- The writes lie in the half exactly if it has the words of the lines. -/
theorem forall_writes_iff (spu : DvdSpu) (pixelIn n : ℕ) :
    (∀ w ∈ (spuFillPixel spu pixelIn n).2.writes, 2 * w + 1 < VOB_SUB_SIZE / 2) ↔
      fieldWords (fieldLines spu.spuData spu.spuWidth (spu.spuHeight / 2) (8 * pixelIn) 0) ≤
        VOB_SUB_SIZE / 4 := by
  obtain ⟨s, hfilled, -, hwrites, -⟩ := spuFillPixel_writes spu pixelIn n
  have hbound := forall_fieldStores_lt_iff
    ((fieldLines spu.spuData spu.spuWidth (spu.spuHeight / 2) (8 * pixelIn) 0).map
      fun line => line.map (exchanged (changeData 4 spu.spuAlpha))) (VOB_SUB_SIZE / 4).zero_le
  rw [fieldWords_map, Nat.mul_zero, Nat.zero_add] at hbound
  rw [← hbound, hfilled.writes, hwrites, List.nil_append, List.forall_mem_map]
  refine forall₂_congr fun store _ => ?_
  unfold VOB_SUB_SIZE VOB_SUB_WIDTH VOB_SUB_HEIGHT
  omega

/-- The lookups lie in `PixelData` exactly if a nibble of the contrast is zero. -/
theorem forall_lookups_iff (spu : DvdSpu) (pixelIn n : ℕ) :
    (∀ k ∈ (spuFillPixel spu pixelIn n).2.lookups, k < 4) ↔
      ∃ j < 4, spu.spuAlpha >>> (4 * j) &&& 0xf = 0 := by
  obtain ⟨s, hfilled, -, -, hlookups⟩ := spuFillPixel_writes spu pixelIn n
  obtain ⟨l, hl, hlt⟩ := hfilled.lookups
  rw [← forall_exchanged_lt_iff, hl, hlookups, List.forall_mem_append]
  exact and_iff_left hlt

/-- **The writes of a bitmap lie in its half of the plane, and the lookups in the table**, exactly
if a nibble of the contrast is zero and the lines of the field, each in whole words of eight
pixels, have no more words than the half. -/
theorem spuFillPixel_inBounds_iff (spu : DvdSpu) (pixelIn n : ℕ) :
    InBounds (spuFillPixel spu pixelIn n).2 ↔
      (∃ j < 4, spu.spuAlpha >>> (4 * j) &&& 0xf = 0) ∧
        fieldWords (fieldLines spu.spuData spu.spuWidth (spu.spuHeight / 2) (8 * pixelIn) 0) ≤
          VOB_SUB_SIZE / 4 := by
  rw [InBounds, forall_writes_iff, forall_lookups_iff, and_comm]

/-! ## Zeros -/

section Zeros

variable {data : Source} {i : ℕ}

/-- A code of zeros is a run to the end of the line. -/
theorem code_zeros (h : ∀ k, i / 8 ≤ k → data k = 0) :
    codeBits data i = 16 ∧ codeLength data i = 0 ∧ codeColour data i = 0 := by
  have hbits : codeBits data i = 16 := by
    simp [codeBits, bitsAt_eq_zero h]
  simp [codeLength, codeColour, bitsAt_eq_zero h, hbits]

/-- A line of zeros. -/
theorem linePixels_zeros (h : ∀ k, i / 8 ≤ k → data k = 0) {width done : ℕ} (hdone : done < width)
    (fuel : ℕ) :
    linePixels data width (fuel + 1) i done = (List.replicate (width - done) 0, i + 16) := by
  obtain ⟨hbits, hlength, hcolour⟩ := code_zeros h
  have hend : ¬ done + (width - done) < width := by omega
  rw [linePixels, if_pos hdone, runPixels, hbits, hlength, hcolour]
  cases fuel with
  | zero => simp [linePixels]
  | succ fuel => simp [linePixels, hend]

/-- Lines of zeros. -/
theorem fieldLines_zeros (h : ∀ k, i / 8 ≤ k → data k = 0) {width : ℕ} (hwidth : 0 < width)
    (lines : ℕ) :
    fieldLines data width lines i 0 = List.replicate lines (List.replicate width 0) := by
  induction lines generalizing i with
  | zero => rfl
  | succ lines ih =>
    obtain ⟨fuel, rfl⟩ : ∃ fuel, width = fuel + 1 := ⟨width - 1, by omega⟩
    have hnext : ∀ k, roundUp 8 (i + 16) / 8 ≤ k → data k = 0 := fun k hk => h k (by
      unfold roundUp at hk
      omega)
    rw [fieldLines, linePixels_zeros h hwidth, List.replicate_succ]
    simpa using ih hnext

end Zeros

/-- A run that crosses the end of a row of the largest bitmap, and a contrast without a zero
nibble. -/
theorem not_inBounds_crossingRun :
    ¬ InBounds (spuFillPixel
      { spuData := sourceOf ((List.replicate 7 [0x03, 0xfc]).flatten ++ [0x02, 0x20])
        spuAlpha := 0xfff0, spuWidth := 1920, spuHeight := 1280 } 0 1).2 ∧
    ¬ InBounds (spuFillPixel
      { spuData := sourceOf [0x90], spuAlpha := 0xffff, spuWidth := 2, spuHeight := 2 } 0 1).2 := by
  constructor
  · intro h
    have hwords := (forall_writes_iff _ _ _).mp h.1
    dsimp only at hwords
    generalize hdata : sourceOf ((List.replicate 7 [0x03, 0xfc]).flatten ++ [0x02, 0x20]) = data
      at hwords
    have hzeros : ∀ k, 16 ≤ k → data k = 0 := fun k hk => by
      rw [← hdata]
      exact List.getD_eq_default _ _ hk
    have hfirst : linePixels data 1920 1920 0 0 = (List.replicate 1921 0, 128) := by
      rw [← hdata]
      decide +kernel
    have hsecond : linePixels data 1920 1920 128 1 = (List.replicate 1919 0, 144) :=
      linePixels_zeros (i := 128) (by simpa using hzeros) (by decide) 1919
    have hrest : fieldLines data 1920 638 144 0 = List.replicate 638 (List.replicate 1920 0) :=
      fieldLines_zeros (fun k hk => hzeros k (by omega)) (by decide) 638
    have hlines : fieldLines data 1920 640 0 0 =
        List.replicate 1921 0 :: List.replicate 1919 0 ::
          List.replicate 638 (List.replicate 1920 0) := by
      rw [fieldLines, hfirst]
      dsimp only
      rw [List.length_replicate, show roundUp 8 128 = 128 from rfl, fieldLines, hsecond]
      dsimp only
      rw [List.length_replicate, show roundUp 8 144 = 144 from rfl, hrest]
    have hsum : fieldWords (List.replicate 638 (List.replicate 1920 0)) = 638 * 240 := by
      rw [fieldWords, List.map_replicate, List.sum_replicate, List.length_replicate, smul_eq_mul]
    rw [show 8 * 0 = 0 from rfl, hlines, fieldWords_cons, fieldWords_cons, hsum,
      List.length_replicate, List.length_replicate] at hwords
    exact absurd hwords (by decide)
  · intro h
    exact absurd (h.2 4 (by decide)) (by decide)

end Dvd
end AmlSubtitle
