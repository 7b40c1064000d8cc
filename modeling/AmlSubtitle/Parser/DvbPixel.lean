import AmlSubtitle.Parser.DvbContext

/-!
# Pixel data of DVB objects

`parsePixelDataBlock` of `subtitle/parser/DvbParser.cpp` with the readers of 2-, 4-
and 8-bit pixel strings, and the bit reader of `DvbCommon.h` they use.

The three string readers share one shape: while bits are left and the line is not
full, read one run-length code and store the pixels it stands for.  They differ in
the codes.  So a code is a value of `PixelCode` here, each reader is a function that
reads one code, and `paint` stores the pixels of a code.

* A line is what a reader has stored from `destbuf` on, and `pixelsReads`.  The two
  part where a pixel of the non-modifying colour is skipped: `destbuf` stays.
* A block logs the strings it stores, with the offset into the region's buffer they
  are stored at.

`paint_fits`, `paint_colours` say what a code can store, and `pixelBlock_fits`,
`pixelBlock_colours` what a block can: only bytes of the region's buffer, and only
values the region's depth has room for.
-/

namespace AmlSubtitle
namespace Dvb

/-! ## The bit reader -/

/-- `AV_RB32`. -/
def AV_RB32 (buf : Source) (i : ℕ) : ℕ :=
  (buf i).toNat <<< 24 ||| (buf (i + 1)).toNat <<< 16 ||| (buf (i + 2)).toNat <<< 8 |||
    (buf (i + 3)).toNat

/-- `GetBitContext`: a position in bits after a byte of the source. -/
structure GetBitContext where
  buffer : Source
  start : ℕ
  index : ℕ

namespace GetBitContext

/-- `get_bits`, for at most 25 bits. -/
def getBits (gb : GetBitContext) (n : ℕ) : ℕ × GetBitContext :=
  ((AV_RB32 gb.buffer (gb.start + gb.index >>> 3) <<< (gb.index &&& 7) % 2 ^ 32) >>> (32 - n),
    { gb with index := gb.index + n })

/-- `get_bits1`. -/
def getBits1 (gb : GetBitContext) : ℕ × GetBitContext :=
  (((gb.buffer (gb.start + gb.index >>> 3)).toNat <<< (gb.index &&& 7) % 2 ^ 8) >>> 7,
    { gb with index := gb.index + 1 })

theorem getBits_lt (gb : GetBitContext) {n : ℕ} (hn : n ≤ 32) : (gb.getBits n).1 < 2 ^ n := by
  show _ >>> (32 - n) < 2 ^ n
  rw [Nat.shiftRight_eq_div_pow]
  refine Nat.div_lt_of_lt_mul ?_
  rw [← pow_add, Nat.sub_add_cancel hn]
  exact Nat.mod_lt _ (by decide)

@[simp] theorem getBits_index (gb : GetBitContext) (n : ℕ) :
    (gb.getBits n).2.index = gb.index + n := rfl

@[simp] theorem getBits1_index (gb : GetBitContext) : gb.getBits1.2.index = gb.index + 1 := rfl

end GetBitContext

/-! ## Pixel codes -/

/-- What a run-length code stands for. -/
inductive PixelCode where
  /-- One pixel, stored unless it has the non-modifying colour. -/
  | pixel (bits : ℕ)
  /-- A run, stored unless it has the non-modifying colour. -/
  | run (runLen bits : ℕ)
  /-- A run of colour 0. -/
  | zeros (runLen : ℕ)
  /-- One pixel of colour 0. -/
  | one
  /-- Two pixels of colour 0, stored if both fit. -/
  | two
  /-- The run of an 8-bit string: the non-modifying colour counts, but is stored
  too, and nothing is stored through a map table. -/
  | byteRun (runLen bits : ℕ)
  /-- The end of the string. -/
  | stop
  deriving DecidableEq, Repr

/-- The colours of a code. -/
def PixelCode.Below (limit : ℕ) : PixelCode → Prop
  | .pixel bits => bits < limit
  | .run _ bits => bits < limit
  | .byteRun _ bits => bits < limit
  | _ => True

open GetBitContext

/-- A code of `dvbsub_read_2bit_string`. -/
def readCode2 (gb : GetBitContext) : PixelCode × GetBitContext :=
  let (bits, gb) := gb.getBits 2
  if bits ≠ 0 then
    (.pixel bits, gb)
  else
    let (bits, gb) := gb.getBits1
    if bits = 1 then
      let (runLen, gb) := gb.getBits 3
      let (bits, gb) := gb.getBits 2
      (.run (runLen + 3) bits, gb)
    else
      let (bits, gb) := gb.getBits1
      if bits = 0 then
        let (bits, gb) := gb.getBits 2
        if bits = 2 then
          let (runLen, gb) := gb.getBits 4
          let (bits, gb) := gb.getBits 2
          (.run (runLen + 12) bits, gb)
        else if bits = 3 then
          let (runLen, gb) := gb.getBits 8
          let (bits, gb) := gb.getBits 2
          (.run (runLen + 29) bits, gb)
        else if bits = 1 then
          (.two, gb)
        else
          (.stop, gb)
      else
        (.one, gb)

/-- A code of `dvbsub_read_4bit_string`. -/
def readCode4 (gb : GetBitContext) : PixelCode × GetBitContext :=
  let (bits, gb) := gb.getBits 4
  if bits ≠ 0 then
    (.pixel bits, gb)
  else
    let (bits, gb) := gb.getBits1
    if bits = 0 then
      let (runLen, gb) := gb.getBits 3
      if runLen = 0 then (.stop, gb) else (.zeros (runLen + 2), gb)
    else
      let (bits, gb) := gb.getBits1
      if bits = 0 then
        let (runLen, gb) := gb.getBits 2
        let (bits, gb) := gb.getBits 4
        (.run (runLen + 4) bits, gb)
      else
        let (bits, gb) := gb.getBits 2
        if bits = 2 then
          let (runLen, gb) := gb.getBits 4
          let (bits, gb) := gb.getBits 4
          (.run (runLen + 9) bits, gb)
        else if bits = 3 then
          let (runLen, gb) := gb.getBits 8
          let (bits, gb) := gb.getBits 4
          (.run (runLen + 25) bits, gb)
        else if bits = 1 then
          (.two, gb)
        else
          (.one, gb)

/-- A code of `dvbsub_read_8bit_string`, at a byte of the source. -/
def readCode8 (buf : Source) (src : ℕ) : PixelCode × ℕ :=
  let bits := (buf src).toNat
  if bits ≠ 0 then
    (.pixel bits, src + 1)
  else
    let bits := (buf (src + 1)).toNat
    let runLen := bits &&& 0x7f
    if bits &&& 0x80 = 0 then
      if runLen = 0 then (.stop, src + 2) else (.zeros runLen, src + 2)
    else
      (.byteRun runLen (buf (src + 2)).toNat, src + 3)

/-! ## Storing pixels -/

/-- A line a reader is storing: what it has stored from `destbuf` on, and
`pixelsReads`. -/
structure Line where
  pixelsReads : ℕ
  stored : List UInt8
  deriving DecidableEq, Repr

namespace Line

/-- `*destbuf++ = v; pixelsReads++`. -/
def put (line : Line) (v : UInt8) : Line :=
  { pixelsReads := line.pixelsReads + 1, stored := line.stored ++ [v] }

/-- `while (runLen-- > 0 && pixelsReads < dbufLen)`, storing one pixel in each pass. -/
def putRun (dbufLen : ℕ) (v : UInt8) : ℕ → Line → Line
  | 0, line => line
  | runLen + 1, line =>
    if line.pixelsReads < dbufLen then putRun dbufLen v runLen (line.put v) else line

end Line

/-- The byte stored for a colour: what the map table makes of it, if there is one. -/
def mapped (mapTable : Option (List UInt8)) (bits : ℕ) : UInt8 :=
  match mapTable with
  | some table => table.getD bits 0
  | none => UInt8.ofNat bits

/-- The pixels of a code. -/
def paint (dbufLen nonMod : ℕ) (mapTable : Option (List UInt8)) (line : Line) :
    PixelCode → Line
  | .pixel bits =>
    if nonMod ≠ 1 ∨ bits ≠ 1 then
      line.put (mapped mapTable bits)
    else
      { line with pixelsReads := line.pixelsReads + 1 }
  | .run runLen bits =>
    if nonMod = 1 ∧ bits = 1 then
      { line with pixelsReads := line.pixelsReads + runLen }
    else
      line.putRun dbufLen (mapped mapTable bits) runLen
  | .zeros runLen => line.putRun dbufLen (mapped mapTable 0) runLen
  | .one => line.put (mapped mapTable 0)
  | .two =>
    if line.pixelsReads + 2 ≤ dbufLen then
      (line.put (mapped mapTable 0)).put (mapped mapTable 0)
    else
      { line with pixelsReads := line.pixelsReads + 2 }
  | .byteRun runLen bits =>
    let line :=
      if nonMod = 1 ∧ bits = 1 then
        { line with pixelsReads := line.pixelsReads + runLen }
      else
        line
    if mapTable.isNone then line.putRun dbufLen (mapped mapTable bits) runLen else line
  | .stop => line

/-- The loop of a string reader, of at most `fuel` passes; the flag says whether an end
code has stopped it. -/
def paintCodes {ρ : Type*} (readCode : ρ → PixelCode × ρ) (more : ρ → Bool)
    (dbufLen nonMod : ℕ) (mapTable : Option (List UInt8)) : ℕ → ρ → Line → Bool × ρ × Line
  | 0, r, line => (false, r, line)
  | fuel + 1, r, line =>
    if more r ∧ line.pixelsReads < dbufLen then
      if (readCode r).1 = .stop then
        (true, (readCode r).2, line)
      else
        paintCodes readCode more dbufLen nonMod mapTable fuel (readCode r).2
          (paint dbufLen nonMod mapTable line (readCode r).1)
    else
      (false, r, line)

/-- The line and the new `*srcbuf` of a reader of bits, which reads `lineEnd` bits where
no end code has stopped it. -/
def readBitString (readCode : GetBitContext → PixelCode × GetBitContext) (lineEnd : ℕ)
    (dbufLen : ℕ) (buf : Source) (src bufSize nonMod : ℕ) (mapTable : Option (List UInt8)) :
    Line × ℕ :=
  let (stopped, gb, line) := paintCodes readCode (fun gb => gb.index < bufSize <<< 3) dbufLen
    nonMod mapTable (bufSize <<< 3) { buffer := buf, start := src, index := 0 } ⟨0, []⟩
  let gb := if stopped then gb else (gb.getBits lineEnd).2
  (line, src + (gb.index + 7) >>> 3)

/-- `dvbsub_read_2bit_string`. -/
def dvbsubRead2bitString : ℕ → Source → ℕ → ℕ → ℕ → Option (List UInt8) → Line × ℕ :=
  readBitString readCode2 6

/-- `dvbsub_read_4bit_string`. -/
def dvbsubRead4bitString : ℕ → Source → ℕ → ℕ → ℕ → Option (List UInt8) → Line × ℕ :=
  readBitString readCode4 8

/-- `dvbsub_read_8bit_string`. -/
def dvbsubRead8bitString (dbufLen : ℕ) (buf : Source) (src bufSize nonMod : ℕ)
    (mapTable : Option (List UInt8)) : Line × ℕ :=
  let (stopped, pos, line) := paintCodes (readCode8 buf) (fun pos => pos < src + bufSize)
    dbufLen nonMod mapTable bufSize src ⟨0, []⟩
  (line, if stopped then pos else pos + 1)

/-! ## What a code stores -/

/-- A line has stored no more bytes than it counts pixels, and no more than it has
room for. -/
structure Line.Fits (dbufLen : ℕ) (line : Line) : Prop where
  le_pixelsReads : line.stored.length ≤ line.pixelsReads
  le_dbufLen : line.stored.length ≤ dbufLen

/-- Every byte of a line satisfies `P`. -/
def Line.All (P : UInt8 → Prop) (line : Line) : Prop := ∀ v ∈ line.stored, P v

theorem Line.Fits.put {dbufLen : ℕ} {line : Line} (h : line.Fits dbufLen)
    (hroom : line.pixelsReads < dbufLen) (v : UInt8) : (line.put v).Fits dbufLen := by
  obtain ⟨hle, hlen⟩ := h
  constructor
  · rw [Line.put, List.length_append, List.length_singleton]
    exact Nat.succ_le_succ hle
  · rw [Line.put, List.length_append, List.length_singleton]
    exact lt_of_le_of_lt hle hroom

theorem Line.Fits.skip {dbufLen : ℕ} {line : Line} (h : line.Fits dbufLen) (n : ℕ) :
    Line.Fits dbufLen { line with pixelsReads := line.pixelsReads + n } :=
  ⟨Nat.le_add_right_of_le h.le_pixelsReads, h.le_dbufLen⟩

theorem Line.Fits.putRun {dbufLen : ℕ} {v : UInt8} {runLen : ℕ} {line : Line}
    (h : line.Fits dbufLen) : (line.putRun dbufLen v runLen).Fits dbufLen := by
  induction runLen generalizing line with
  | zero => exact h
  | succ runLen ih =>
    rw [Line.putRun]
    split
    · rename_i hroom
      exact ih (h.put hroom v)
    · exact h

theorem Line.All.put {P : UInt8 → Prop} {line : Line} (h : line.All P) {v : UInt8} (hv : P v) :
    (line.put v).All P := by
  intro b hb
  rcases List.mem_append.mp hb with hb | hb
  · exact h b hb
  · rw [List.mem_singleton.mp hb]
    exact hv

theorem Line.All.putRun {P : UInt8 → Prop} {dbufLen runLen : ℕ} {line : Line} {v : UInt8}
    (h : line.All P) (hv : P v) : (line.putRun dbufLen v runLen).All P := by
  induction runLen generalizing line with
  | zero => exact h
  | succ runLen ih =>
    rw [Line.putRun]
    split
    · exact ih (h.put hv)
    · exact h

/-- A code is only painted while there is room, and leaves the line within it. -/
theorem paint_fits {dbufLen nonMod : ℕ} {mapTable : Option (List UInt8)} {line : Line}
    (h : line.Fits dbufLen) (hroom : line.pixelsReads < dbufLen) (code : PixelCode) :
    (paint dbufLen nonMod mapTable line code).Fits dbufLen := by
  cases code with
  | pixel bits =>
    rw [paint]
    split
    · exact h.put hroom _
    · exact h.skip 1
  | run runLen bits =>
    rw [paint]
    split
    · exact h.skip runLen
    · exact h.putRun
  | zeros runLen => exact h.putRun
  | one => exact h.put hroom _
  | two =>
    rw [paint]
    split
    · rename_i htwo
      have hroom' : line.pixelsReads + 1 < dbufLen := htwo
      exact (h.put hroom _).put hroom' _
    · exact h.skip 2
  | byteRun runLen bits =>
    rw [paint]
    have hskip : Line.Fits dbufLen (if nonMod = 1 ∧ bits = 1 then
        { line with pixelsReads := line.pixelsReads + runLen } else line) := by
      split
      · exact h.skip runLen
      · exact h
    split
    · exact hskip.putRun
    · exact hskip
  | stop => exact h

/-- A code stores bytes that the map table makes of its colours. -/
theorem paint_all {P : UInt8 → Prop} {dbufLen nonMod limit : ℕ}
    {mapTable : Option (List UInt8)} {line : Line} (h : line.All P)
    (hP : ∀ bits < limit, P (mapped mapTable bits)) (hlimit : 0 < limit) {code : PixelCode}
    (hcode : code.Below limit) : (paint dbufLen nonMod mapTable line code).All P := by
  cases code with
  | pixel bits =>
    rw [paint]
    split
    · exact h.put (hP bits hcode)
    · exact h
  | run runLen bits =>
    rw [paint]
    split
    · exact h
    · exact h.putRun (hP bits hcode)
  | zeros runLen => exact h.putRun (hP 0 hlimit)
  | one => exact h.put (hP 0 hlimit)
  | two =>
    rw [paint]
    split
    · exact (h.put (hP 0 hlimit)).put (hP 0 hlimit)
    · exact h
  | byteRun runLen bits =>
    rw [paint]
    have hskip : Line.All P (if nonMod = 1 ∧ bits = 1 then
        { line with pixelsReads := line.pixelsReads + runLen } else line) := by
      split
      · exact h
      · exact h
    split
    · exact hskip.putRun (hP bits hcode)
    · exact hskip
  | stop => exact h

/-! ## What a reader stores -/

theorem readCode2_below (gb : GetBitContext) : (readCode2 gb).1.Below 4 := by
  have hbits : ∀ gb : GetBitContext, (gb.getBits 2).1 < 4 := fun gb => gb.getBits_lt (by decide)
  unfold readCode2
  dsimp only
  split_ifs <;> first | exact hbits _ | trivial

theorem readCode4_below (gb : GetBitContext) : (readCode4 gb).1.Below 16 := by
  have hbits : ∀ gb : GetBitContext, (gb.getBits 4).1 < 16 := fun gb => gb.getBits_lt (by decide)
  unfold readCode4
  dsimp only
  split_ifs <;> first | exact hbits _ | trivial

theorem readCode8_below (buf : Source) (src : ℕ) : (readCode8 buf src).1.Below 256 := by
  unfold readCode8
  dsimp only
  split_ifs <;> first | exact UInt8.toNat_lt _ | trivial

theorem readCode8_pos (buf : Source) (src : ℕ) : src < (readCode8 buf src).2 := by
  unfold readCode8
  dsimp only
  split_ifs <;> omega

/-- The 8-bit reader never moves back. -/
theorem dvbsubRead8bitString_le (dbufLen : ℕ) (buf : Source) (src bufSize nonMod : ℕ)
    (mapTable : Option (List UInt8)) :
    src ≤ (dvbsubRead8bitString dbufLen buf src bufSize nonMod mapTable).2 := by
  have hcodes : ∀ fuel pos line, pos ≤ (paintCodes (readCode8 buf)
      (fun pos => pos < src + bufSize) dbufLen nonMod mapTable fuel pos line).2.1 := by
    intro fuel
    induction fuel with
    | zero => exact fun _ _ => le_rfl
    | succ fuel ih =>
      intro pos line
      have hpos := readCode8_pos buf pos
      rw [paintCodes]
      split_ifs
      · exact hpos.le
      · exact hpos.le.trans (ih _ _)
      · exact le_rfl
  refine (hcodes bufSize src ⟨0, []⟩).trans ?_
  unfold dvbsubRead8bitString
  dsimp only
  split
  · exact le_rfl
  · exact Nat.le_succ _

section Reader

variable {ρ : Type*} {readCode : ρ → PixelCode × ρ} {more : ρ → Bool} {dbufLen nonMod : ℕ}
  {mapTable : Option (List UInt8)}

/-- What every code preserves while there is room, a reader preserves. -/
theorem paintCodes_invariant {I : Line → Prop}
    (hI : ∀ r line, I line → line.pixelsReads < dbufLen →
      I (paint dbufLen nonMod mapTable line (readCode r).1)) (fuel : ℕ) {r : ρ} {line : Line}
    (h : I line) : I (paintCodes readCode more dbufLen nonMod mapTable fuel r line).2.2 := by
  induction fuel generalizing r line with
  | zero => exact h
  | succ fuel ih =>
    rw [paintCodes]
    split
    · rename_i hmore
      split
      · exact h
      · exact ih (hI r line h hmore.2)
    · exact h

/-- Every line a reader makes fits. -/
theorem paintCodes_fits (fuel : ℕ) (r : ρ) :
    (paintCodes readCode more dbufLen nonMod mapTable fuel r ⟨0, []⟩).2.2.Fits dbufLen :=
  paintCodes_invariant (fun _ _ h hroom => paint_fits h hroom _) fuel
    ⟨le_rfl, Nat.zero_le _⟩

/-- Every byte a reader stores is what its map table makes of a colour. -/
theorem paintCodes_all {P : UInt8 → Prop} {limit : ℕ}
    (hP : ∀ bits < limit, P (mapped mapTable bits)) (hlimit : 0 < limit)
    (hcode : ∀ r, (readCode r).1.Below limit) (fuel : ℕ) (r : ρ) :
    (paintCodes readCode more dbufLen nonMod mapTable fuel r ⟨0, []⟩).2.2.All P :=
  paintCodes_invariant (I := Line.All P) (fun r _ h _ => paint_all h hP hlimit (hcode r)) fuel
    (fun _ hv => by cases hv)

end Reader

/-! ## Blocks -/

/-- The three map tables of a block, which it may redefine. -/
structure MapTables where
  map2to4 : List UInt8
  map2to8 : List UInt8
  map4to8 : List UInt8
  deriving DecidableEq, Repr

/-- The map tables a block starts with. -/
def MapTables.default : MapTables where
  map2to4 := [0x0, 0x7, 0x8, 0xf]
  map2to8 := [0x00, 0x77, 0x88, 0xff]
  map4to8 := [0x00, 0x11, 0x22, 0x33, 0x44, 0x55, 0x66, 0x77, 0x88, 0x99, 0xaa, 0xbb, 0xcc, 0xdd,
    0xee, 0xff]

/-- A string of bytes stored into a region's buffer, and where. -/
structure PixelStore where
  offset : ℤ
  bytes : List UInt8
  deriving DecidableEq, Repr

/-- The variables of the loop of `parsePixelDataBlock`: the position in the source, the
position in the region, the map tables and what has been stored. -/
structure BlockState where
  buf : ℕ
  xPos : ℕ
  yPos : ℕ
  maps : MapTables
  stores : List PixelStore

/-- `DVBSUB_DT_2BP_CODE_STRING`. -/
def DVBSUB_DT_2BP_CODE_STRING : UInt8 := 0x10

/-- `DVBSUB_DT_4BP_CODE_STRING`. -/
def DVBSUB_DT_4BP_CODE_STRING : UInt8 := 0x11

/-- `DVBSUB_DT_8BP_CODE_STRING`. -/
def DVBSUB_DT_8BP_CODE_STRING : UInt8 := 0x12

/-- `DVBSUB_DT_24_MAP_TABLE_DATA`. -/
def DVBSUB_DT_24_MAP_TABLE_DATA : UInt8 := 0x20

/-- `DVBSUB_DT_28_MAP_TABLE_DATA`. -/
def DVBSUB_DT_28_MAP_TABLE_DATA : UInt8 := 0x21

/-- `DVBSUB_DT_48_MAP_TABLE_DATA`. -/
def DVBSUB_DT_48_MAP_TABLE_DATA : UInt8 := 0x22

/-- `DVBSUB_DT_END_OF_OBJECT_LINE`. -/
def DVBSUB_DT_END_OF_OBJECT_LINE : UInt8 := 0xf0

/-- `n` bytes of the source. -/
def sourceBytes (source : Source) (i n : ℕ) : List UInt8 :=
  (List.range n).map fun k => source (i + k)

namespace BlockState

/-- `yPos * region->width + xPos`. -/
def offset (s : BlockState) (region : DVBSubRegion) : ℤ := s.yPos * region.width + s.xPos

/-- `needReads` before it is compared with zero. -/
def needReads (s : BlockState) (region : DVBSubRegion) (bufEnd : ℕ) : ℤ :=
  let bufcaps := Words.asSigned 32 (region.bufSize - s.offset region)
  min (bufEnd - s.buf) bufcaps

/-- A string has been read: `xPos` moves past it, `buf` past its codes. -/
def store (s : BlockState) (region : DVBSubRegion) (read : Line × ℕ) : BlockState :=
  { s with
    buf := read.2
    xPos := s.xPos + read.1.pixelsReads
    stores := s.stores ++ [{ offset := s.offset region, bytes := read.1.stored }] }

end BlockState

/-- The map table of a 2-bit string. -/
def MapTables.for2bit (maps : MapTables) (depth : ℕ) : Option (List UInt8) :=
  if depth = 8 then some maps.map2to8 else if depth = 4 then some maps.map2to4 else none

/-- The map table of a 4-bit string. -/
def MapTables.for4bit (maps : MapTables) (depth : ℕ) : Option (List UInt8) :=
  if depth = 8 then some maps.map4to8 else none

/-- The `switch` of `parsePixelDataBlock`, with the type byte taken: the state after it, or
the value the function returns there. -/
def blockSwitch (region : DVBSubRegion) (display : DVBSubObjectDisplay) (source : Source)
    (bufEnd nonMod needReads : ℕ) (code : UInt8) (s : BlockState) : BlockState × Option ℤ :=
  if code = DVBSUB_DT_2BP_CODE_STRING then
    (s.store region (dvbsubRead2bitString (region.width - s.xPos) source s.buf needReads nonMod
      (s.maps.for2bit region.depth)), none)
  else if code = DVBSUB_DT_4BP_CODE_STRING then
    if region.depth < 4 then
      (s, some 0)
    else
      (s.store region (dvbsubRead4bitString (region.width - s.xPos) source s.buf needReads nonMod
        (s.maps.for4bit region.depth)), none)
  else if code = DVBSUB_DT_8BP_CODE_STRING then
    if region.depth < 8 then
      (s, some 0)
    else
      (s.store region (dvbsubRead8bitString (region.width - s.xPos) source s.buf needReads nonMod
        none), none)
  else if code = DVBSUB_DT_24_MAP_TABLE_DATA then
    if (bufEnd : ℤ) - s.buf < 2 then
      (s, none)
    else
      ({ s with
          buf := s.buf + 2
          maps := { s.maps with
            map2to4 := [source s.buf >>> 4, source s.buf &&& 0xf, source (s.buf + 1) >>> 4,
              source (s.buf + 1) &&& 0xf] } }, none)
  else if code = DVBSUB_DT_28_MAP_TABLE_DATA then
    if (bufEnd : ℤ) - s.buf < 4 then
      (s, none)
    else
      ({ s with
          buf := s.buf + 4
          maps := { s.maps with map2to8 := sourceBytes source s.buf 4 } }, none)
  else if code = DVBSUB_DT_48_MAP_TABLE_DATA then
    if (bufEnd : ℤ) - s.buf < 16 then
      (s, none)
    else
      ({ s with
          buf := s.buf + 16
          maps := { s.maps with map4to8 := sourceBytes source s.buf 16 } }, none)
  else if code = DVBSUB_DT_END_OF_OBJECT_LINE then
    ({ s with xPos := display.xPos, yPos := s.yPos + 2 }, none)
  else
    -- an unknown type byte is passed over
    (s, none)

/-- A pass of the loop of `parsePixelDataBlock`. -/
def blockStep (region : DVBSubRegion) (display : DVBSubObjectDisplay) (source : Source)
    (bufEnd nonMod : ℕ) (s : BlockState) : BlockState × Option ℤ :=
  if region.width < s.xPos ∨ region.height < s.yPos ∨ s.needReads region bufEnd < 0 then
    (s, some (-1))
  else
    blockSwitch region display source bufEnd nonMod (s.needReads region bufEnd).toNat
      (source s.buf) { s with buf := s.buf + 1 }

/-- The loop of `parsePixelDataBlock`, of at most `fuel` passes, and its return value. -/
def blockLoop (region : DVBSubRegion) (display : DVBSubObjectDisplay) (source : Source)
    (bufEnd nonMod : ℕ) : ℕ → BlockState → BlockState × ℤ
  | 0, s => (s, 0)
  | fuel + 1, s =>
    if s.buf < bufEnd then
      match blockStep region display source bufEnd nonMod s with
      | (s, some ret) => (s, ret)
      | (s, none) => blockLoop region display source bufEnd nonMod fuel s
    else
      (s, 0)

/-- What `parsePixelDataBlock` stores into a region for a block at `buf`, and its return
value. -/
def pixelBlock (region : DVBSubRegion) (display : DVBSubObjectDisplay) (source : Source)
    (buf bufSize top_bottom nonMod : ℕ) : List PixelStore × ℤ :=
  let (s, ret) := blockLoop region display source (buf + bufSize) nonMod bufSize
    { buf := buf
      xPos := display.xPos
      yPos := if top_bottom = 1 then display.yPos + 1 else display.yPos
      maps := MapTables.default
      stores := [] }
  (s.stores, ret)

/-! ## What a block stores -/

/-- The string lies in a buffer of that size. -/
def PixelStore.Within (size : ℤ) (store : PixelStore) : Prop :=
  0 ≤ store.offset ∧ store.offset + store.bytes.length ≤ size

/-- A byte that a string reader of a region of that depth can store. -/
def IsColour (depth : ℕ) (maps : MapTables) (v : UInt8) : Prop :=
  (∃ bits < 4, v = mapped (maps.for2bit depth) bits) ∨
    (4 ≤ depth ∧ ∃ bits < 16, v = mapped (maps.for4bit depth) bits) ∨
      (8 ≤ depth ∧ ∃ bits < 256, v = mapped none bits)

/-- What a string reader makes of a line with room for `dbufLen` pixels. -/
structure ReadsLine (dbufLen depth : ℕ) (maps : MapTables) (bufSize : ℕ) (line : Line) :
    Prop where
  fits : line.Fits dbufLen
  colours : line.All (IsColour depth maps)
  -- without input a reader stores nothing
  nothing : bufSize = 0 → line.stored = []

section Strings

variable {dbufLen depth : ℕ} {maps : MapTables} {buf : Source} {src bufSize nonMod : ℕ}

theorem dvbsubRead2bitString_reads : ReadsLine dbufLen depth maps bufSize
    (dvbsubRead2bitString dbufLen buf src bufSize nonMod (maps.for2bit depth)).1 where
  fits := paintCodes_fits _ _
  colours := paintCodes_all (fun bits hbits => Or.inl ⟨bits, hbits, rfl⟩) (by decide)
    readCode2_below _ _
  nothing := by rintro rfl; rfl

theorem dvbsubRead4bitString_reads (hdepth : 4 ≤ depth) : ReadsLine dbufLen depth maps bufSize
    (dvbsubRead4bitString dbufLen buf src bufSize nonMod (maps.for4bit depth)).1 where
  fits := paintCodes_fits _ _
  colours := paintCodes_all (fun bits hbits => Or.inr (Or.inl ⟨hdepth, bits, hbits, rfl⟩))
    (by decide) readCode4_below _ _
  nothing := by rintro rfl; rfl

theorem dvbsubRead8bitString_reads (hdepth : 8 ≤ depth) : ReadsLine dbufLen depth maps bufSize
    (dvbsubRead8bitString dbufLen buf src bufSize nonMod none).1 where
  fits := paintCodes_fits _ _
  colours := paintCodes_all (fun bits hbits => Or.inr (Or.inr ⟨hdepth, bits, hbits, rfl⟩))
    (by decide) (readCode8_below buf) _ _
  nothing := by rintro rfl; rfl

end Strings

/-- Values below 16, as `map2to4` holds them. -/
def IsNibbles (table : List UInt8) : Prop := ∀ v ∈ table, v.toNat < 16

instance (table : List UInt8) : Decidable (IsNibbles table) :=
  List.decidableBAll (fun v : UInt8 => v.toNat < 16) table

theorem isNibbles_default : IsNibbles MapTables.default.map2to4 := by decide

/-- What a table of small values makes of a colour is small. -/
theorem toNat_mapped_some_lt {table : List UInt8} (h : IsNibbles table) (bits : ℕ) :
    (mapped (some table) bits).toNat < 16 := by
  rw [mapped, List.getD_eq_getElem?_getD]
  cases hget : table[bits]? with
  | none => exact Nat.zero_lt_succ _
  | some v => exact h v (List.mem_of_getElem? hget)

theorem toNat_mapped_none_le (bits : ℕ) : (mapped none bits).toNat ≤ bits := by
  rw [mapped, UInt8.toNat_ofNat']
  exact Nat.mod_le _ _

/-- **A reader stores only values that the depth has room for.** -/
theorem IsColour.lt {depth : ℕ} {maps : MapTables} {v : UInt8} (h : IsColour depth maps v)
    (hdepth : DVBSubRegion.IsDepth depth) (hmaps : IsNibbles maps.map2to4) :
    v.toNat < 2 ^ depth := by
  have hbyte : v.toNat < 256 := v.toNat_lt
  rcases hdepth with rfl | rfl | rfl
  · rcases h with ⟨bits, hbits, rfl⟩ | ⟨h4, _⟩ | ⟨h8, _⟩
    · exact lt_of_le_of_lt (toNat_mapped_none_le bits) hbits
    · omega
    · omega
  · rcases h with ⟨bits, _, rfl⟩ | ⟨_, bits, hbits, rfl⟩ | ⟨h8, _⟩
    · exact toNat_mapped_some_lt hmaps bits
    · exact lt_of_le_of_lt (toNat_mapped_none_le bits) hbits
    · omega
  · exact hbyte

theorem toNat_shiftRight_four_lt (b : UInt8) : (b >>> 4).toNat < 16 := by
  have hb : b.toNat < 256 := b.toNat_lt
  rw [UInt8.toNat_shiftRight]
  show b.toNat >>> 4 < 16
  rw [Nat.shiftRight_eq_div_pow]
  omega

theorem toNat_and_fifteen_lt (b : UInt8) : (b &&& 0xf).toNat < 16 := by
  rw [UInt8.toNat_and]
  exact Nat.and_lt_two_pow (n := 4) _ (by decide)

/-- What the `switch` does: it stores a line, or stores nothing and perhaps redefines
map tables; and it never moves back. -/
theorem blockSwitch_cases (region : DVBSubRegion) (display : DVBSubObjectDisplay)
    (source : Source) (bufEnd nonMod needReads : ℕ) (code : UInt8) (s : BlockState) :
    (∃ read, ReadsLine (region.width - s.xPos) region.depth s.maps needReads read.1 ∧
      s.buf ≤ read.2 ∧
      blockSwitch region display source bufEnd nonMod needReads code s =
        (s.store region read, none)) ∨
    (∃ s' ret, blockSwitch region display source bufEnd nonMod needReads code s = (s', ret) ∧
      s.buf ≤ s'.buf ∧ s'.stores = s.stores ∧
      (s'.maps.map2to4 = s.maps.map2to4 ∨ IsNibbles s'.maps.map2to4)) := by
  unfold blockSwitch
  by_cases h2 : code = DVBSUB_DT_2BP_CODE_STRING
  · rw [if_pos h2]
    exact Or.inl ⟨_, dvbsubRead2bitString_reads, Nat.le_add_right _ _, rfl⟩
  rw [if_neg h2]
  by_cases h4 : code = DVBSUB_DT_4BP_CODE_STRING
  · rw [if_pos h4]
    split
    · exact Or.inr ⟨_, _, rfl, le_rfl, rfl, Or.inl rfl⟩
    · rename_i hdepth
      exact Or.inl ⟨_, dvbsubRead4bitString_reads (not_lt.mp hdepth), Nat.le_add_right _ _, rfl⟩
  rw [if_neg h4]
  by_cases h8 : code = DVBSUB_DT_8BP_CODE_STRING
  · rw [if_pos h8]
    split
    · exact Or.inr ⟨_, _, rfl, le_rfl, rfl, Or.inl rfl⟩
    · rename_i hdepth
      refine Or.inl ⟨_, dvbsubRead8bitString_reads (not_lt.mp hdepth), ?_, rfl⟩
      exact dvbsubRead8bitString_le _ _ _ _ _ _
  rw [if_neg h8]
  right
  split_ifs
  · exact ⟨_, _, rfl, le_rfl, rfl, Or.inl rfl⟩
  · refine ⟨_, _, rfl, Nat.le_add_right _ _, rfl, Or.inr ?_⟩
    intro v hv
    simp only [List.mem_cons, List.not_mem_nil, or_false] at hv
    rcases hv with rfl | rfl | rfl | rfl
    · exact toNat_shiftRight_four_lt _
    · exact toNat_and_fifteen_lt _
    · exact toNat_shiftRight_four_lt _
    · exact toNat_and_fifteen_lt _
  · exact ⟨_, _, rfl, le_rfl, rfl, Or.inl rfl⟩
  · exact ⟨_, _, rfl, Nat.le_add_right _ _, rfl, Or.inl rfl⟩
  · exact ⟨_, _, rfl, le_rfl, rfl, Or.inl rfl⟩
  · exact ⟨_, _, rfl, Nat.le_add_right _ _, rfl, Or.inl rfl⟩
  · exact ⟨_, _, rfl, le_rfl, rfl, Or.inl rfl⟩
  · exact ⟨_, _, rfl, le_rfl, rfl, Or.inl rfl⟩

/-- The location check leaves room for a line. -/
theorem store_within {region : DVBSubRegion} {s : BlockState} {bufEnd : ℕ} {line : Line}
    (hsize : region.bufSize = region.width * region.height)
    (hwidth : region.width < 2 ^ 31) (hx : s.xPos ≤ region.width) (hy : s.yPos ≤ region.height)
    (hneed : 0 ≤ s.needReads region bufEnd) (hfits : line.Fits (region.width - s.xPos))
    (hnothing : s.needReads region bufEnd = 0 → line.stored = []) :
    PixelStore.Within region.bufSize { offset := s.offset region, bytes := line.stored } := by
  have hlen := hfits.le_dbufLen
  have hoffset : s.offset region = s.yPos * region.width + s.xPos := rfl
  constructor
  · show 0 ≤ s.offset region
    rw [hoffset]
    positivity
  · show s.offset region + line.stored.length ≤ region.bufSize
    rcases Nat.lt_or_eq_of_le hy with hy | hy
    · -- the line lies in the rows of the region
      have hrows : ((s.yPos : ℤ) + 1) * region.width ≤ region.height * region.width := by
        gcongr
        exact_mod_cast hy
      rw [hoffset, hsize]
      have hroom : ((region.width - s.xPos : ℕ) : ℤ) = region.width - s.xPos := by omega
      zify at hlen
      rw [hroom] at hlen
      linarith
    · -- below the last row the check only passes with nothing left to read
      have hrow : region.bufSize - s.offset region = -s.xPos := by
        rw [hoffset, hsize, hy]
        ring
      have hcaps : s.needReads region bufEnd ≤ -s.xPos := by
        refine (min_le_right _ _).trans ?_
        show Words.asSigned 32 (region.bufSize - s.offset region) ≤ -s.xPos
        rw [hrow, Words.asSigned_eq (by omega) (by omega)]
      rw [hnothing (by omega), List.length_nil]
      omega

/-- A pass of the loop stores at most one line, which lies in the region's buffer and
has the region's colours; and it moves on. -/
theorem blockStep_cases {region : DVBSubRegion} (display : DVBSubObjectDisplay)
    (source : Source) (bufEnd nonMod : ℕ) (s : BlockState) :
    (∃ ret, blockStep region display source bufEnd nonMod s = (s, some ret)) ∨
    (∃ read : Line × ℕ, s.buf < read.2 ∧ read.1.All (IsColour region.depth s.maps) ∧
      (region.bufSize = region.width * region.height → region.width < 2 ^ 31 → PixelStore.Within
        region.bufSize { offset := s.offset region, bytes := read.1.stored }) ∧
      blockStep region display source bufEnd nonMod s = (s.store region read, none)) ∨
    (∃ s' ret, blockStep region display source bufEnd nonMod s = (s', ret) ∧
      s.buf < s'.buf ∧ s'.stores = s.stores ∧
      (s'.maps.map2to4 = s.maps.map2to4 ∨ IsNibbles s'.maps.map2to4)) := by
  rw [blockStep]
  by_cases hloc : region.width < s.xPos ∨ region.height < s.yPos ∨ s.needReads region bufEnd < 0
  · rw [if_pos hloc]
    exact Or.inl ⟨-1, rfl⟩
  · rw [if_neg hloc]
    push Not at hloc
    obtain ⟨hx, hy, hneed⟩ := hloc
    right
    rcases blockSwitch_cases region display source bufEnd nonMod
      (s.needReads region bufEnd).toNat (source s.buf) { s with buf := s.buf + 1 } with
      ⟨read, hread, hbuf, heq⟩ | ⟨s', ret, heq, hbuf, hstores, hmaps⟩
    · refine Or.inl ⟨read, hbuf, hread.colours, fun hsize hwidth => ?_, heq⟩
      refine store_within hsize hwidth hx hy hneed hread.fits fun hzero => ?_
      exact hread.nothing (by rw [hzero]; rfl)
    · exact Or.inr ⟨s', ret, heq, hbuf, hstores, hmaps⟩

/-- More passes than bytes change nothing: the loop ends by itself. -/
theorem blockLoop_add_fuel {region : DVBSubRegion} {display : DVBSubObjectDisplay}
    {source : Source} {bufEnd nonMod fuel : ℕ} (k : ℕ) {s : BlockState}
    (hfuel : bufEnd ≤ s.buf + fuel) :
    blockLoop region display source bufEnd nonMod (fuel + k) s =
      blockLoop region display source bufEnd nonMod fuel s := by
  induction fuel generalizing s with
  | zero =>
    cases k with
    | zero => rfl
    | succ k =>
      rw [Nat.zero_add, blockLoop, blockLoop, if_neg (by omega)]
  | succ fuel ih =>
    rw [Nat.succ_add, blockLoop, blockLoop]
    split
    · rcases blockStep_cases display source bufEnd nonMod s with
        ⟨ret, heq⟩ | ⟨read, hbuf, _, _, heq⟩ | ⟨s', ret, heq, hbuf, _, _⟩
      · rw [heq]
      · rw [heq]
        refine ih ?_
        show bufEnd ≤ read.2 + fuel
        omega
      · rw [heq]
        cases ret with
        | none => exact ih (by omega)
        | some ret => rfl
    · rfl

/-- What the loop of a block preserves. -/
theorem blockLoop_invariant {region : DVBSubRegion} {display : DVBSubObjectDisplay}
    {source : Source} {bufEnd nonMod : ℕ} {I : BlockState → Prop}
    (hI : ∀ s, I s → I (blockStep region display source bufEnd nonMod s).1) (fuel : ℕ)
    {s : BlockState} (h : I s) :
    I (blockLoop region display source bufEnd nonMod fuel s).1 := by
  induction fuel generalizing s with
  | zero => exact h
  | succ fuel ih =>
    rw [blockLoop]
    split
    · have hs := hI s h
      rcases hstep : blockStep region display source bufEnd nonMod s with ⟨s', ret⟩
      rw [hstep] at hs
      cases ret with
      | none => exact ih hs
      | some ret => exact hs
    · exact h

/-- **A block stores into the region's buffer only**, if the buffer's size is the area
of the region. -/
theorem pixelBlock_within {region : DVBSubRegion} {display : DVBSubObjectDisplay}
    {source : Source} {buf bufSize top_bottom nonMod : ℕ}
    (hsize : region.bufSize = region.width * region.height)
    (hwidth : region.width < 2 ^ 31) :
    ∀ store ∈ (pixelBlock region display source buf bufSize top_bottom nonMod).1,
      store.Within region.bufSize := by
  refine blockLoop_invariant (I := fun s => ∀ store ∈ s.stores, store.Within region.bufSize)
    (fun s hs => ?_) _ (by simp)
  rcases blockStep_cases display source (buf + bufSize) nonMod s with
    ⟨ret, heq⟩ | ⟨read, _, _, hwithin, heq⟩ | ⟨s', ret, heq, _, hstores, _⟩
  · rw [heq]
    exact hs
  · rw [heq]
    intro store hstore
    rcases List.mem_append.mp hstore with hstore | hstore
    · exact hs store hstore
    · rw [List.mem_singleton.mp hstore]
      exact hwithin hsize hwidth
  · rw [heq]
    show ∀ store ∈ s'.stores, store.Within region.bufSize
    rw [hstores]
    exact hs

/-- **A block stores only values that the region's depth has room for.** -/
theorem pixelBlock_colours {region : DVBSubRegion} {display : DVBSubObjectDisplay}
    {source : Source} {buf bufSize top_bottom nonMod : ℕ}
    (hdepth : DVBSubRegion.IsDepth region.depth) :
    ∀ store ∈ (pixelBlock region display source buf bufSize top_bottom nonMod).1,
      ∀ v ∈ store.bytes, v.toNat < 2 ^ region.depth := by
  refine (blockLoop_invariant (I := fun s => IsNibbles s.maps.map2to4 ∧
    ∀ store ∈ s.stores, ∀ v ∈ store.bytes, v.toNat < 2 ^ region.depth)
    (fun s hs => ?_) _ ⟨isNibbles_default, by simp⟩).2
  obtain ⟨hmaps, hs⟩ := hs
  rcases blockStep_cases display source (buf + bufSize) nonMod s with
    ⟨ret, heq⟩ | ⟨read, _, hcolours, _, heq⟩ | ⟨s', ret, heq, _, hstores, hmaps'⟩
  · rw [heq]
    exact ⟨hmaps, hs⟩
  · rw [heq]
    refine ⟨hmaps, fun store hstore => ?_⟩
    rcases List.mem_append.mp hstore with hstore | hstore
    · exact hs store hstore
    · rw [List.mem_singleton.mp hstore]
      exact fun v hv => (hcolours v hv).lt hdepth hmaps
  · rw [heq]
    refine ⟨?_, ?_⟩
    · rcases hmaps' with hsame | hnibbles
      · show IsNibbles s'.maps.map2to4
        rw [hsame]
        exact hmaps
      · exact hnibbles
    · show ∀ store ∈ s'.stores, ∀ v ∈ store.bytes, v.toNat < 2 ^ region.depth
      rw [hstores]
      exact hs

end Dvb
end AmlSubtitle
