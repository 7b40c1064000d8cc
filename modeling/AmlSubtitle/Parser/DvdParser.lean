import AmlSubtitle.Lib.Words
import AmlSubtitle.Parser.DvbContext

/-!
# The DVD parser

The control sequences and the bitmaps of `subtitle/parser/DvdParser.cpp`: `getSpuCmd`,
`doDCSQC` and `spuFillPixel`.

* What the pointer `spu_data` reaches is a `Source`: a byte at each offset.  The frame is its
  first `length` bytes; `getVobSpu` clears the `VOB_SUB_SIZE` bytes of the buffer before it
  copies the frame there.
* The loops log where they read.  They also log each command they pass over, with the place
  where they go on.
* The loop of `doDCSQC` has no bound: `fuel` is one, and a loop that has not come to its end
  returns nothing.
-/

namespace AmlSubtitle
namespace Dvd

open Dvb (Source sourceOf AV_RB16)
open Words

/-! ## Data -/

/-- `CommandID`. -/
inductive CommandID where
  | FSTA_DSP
  | STA_DSP
  | STP_DSP
  | SET_COLOR
  | SET_CONTR
  | SET_DAREA
  | SET_DSPXA
  | CHG_COLCON
  | CMD_END
  deriving DecidableEq, Repr

/-- The command of a byte. -/
def CommandID.ofByte (b : UInt8) : Option CommandID :=
  match b.toNat with
  | 0 => some FSTA_DSP
  | 1 => some STA_DSP
  | 2 => some STP_DSP
  | 3 => some SET_COLOR
  | 4 => some SET_CONTR
  | 5 => some SET_DAREA
  | 6 => some SET_DSPXA
  | 7 => some CHG_COLCON
  | 0xff => some CMD_END
  | _ => none

/-- The fields of `AML_SPUVAR` that a DVD frame fills. -/
structure DvdSpu where
  pts : ℤ := 0
  mDelay : ℤ := 0
  spuData : Source := sourceOf []
  cmdOffset : ℕ := 0
  length : ℕ := 0
  spuColor : ℕ := 0
  spuAlpha : ℕ := 0
  spuStartX : ℕ := 0
  spuStartY : ℕ := 0
  spuWidth : ℕ := 0
  spuHeight : ℕ := 0
  topPxdAddr : ℕ := 0
  bottomPxdAddr : ℕ := 0
  displayPending : ℕ := 0

/-- `VOB_SUB_WIDTH`. -/
def VOB_SUB_WIDTH : ℕ := 1920

/-- `VOB_SUB_HEIGHT`. -/
def VOB_SUB_HEIGHT : ℕ := 1280

/-- `VOB_SUB_SIZE`. -/
def VOB_SUB_SIZE : ℕ := VOB_SUB_WIDTH * VOB_SUB_HEIGHT / 4

/-! ## Control sequences -/

/-- A command that a loop has passed over: where it is, and where the loop goes on. -/
structure Pass where
  pos : ℕ
  next : ℕ
  deriving DecidableEq, Repr

/-- What the loop of `doDCSQC` has read and passed over, and its `pdata` and `stoped` in the
end. -/
structure DcsqcLoop where
  reads : List ℕ
  passes : List Pass
  finish : Option (ℕ × Bool)

/-- The value of `temp` for a `CHG_COLCON` in `doDCSQC`, which reads the command again. -/
def dcsqcTemp (data : Source) (pdata : ℕ) : ℕ :=
  ((data pdata).toNat <<< 8 + (data (pdata + 1)).toNat) % 2 ^ 16

/-- A command of `doDCSQC`: what is read of it, and where the loop goes on. -/
def dcsqcCommand (data : Source) (pend pdata : ℕ) : Option CommandID → List ℕ × ℕ
  | some .FSTA_DSP => ([pdata], pdata + 1)
  | some .STA_DSP => ([pdata], pdata + 1)
  | some .STP_DSP => ([pdata], pdata + 1)
  | some .SET_COLOR => ([pdata], pdata + 3)
  | some .SET_CONTR => ([pdata], pdata + 3)
  | some .SET_DAREA => ([pdata], pdata + 7)
  | some .SET_DSPXA => ([pdata], pdata + 7)
  | some .CHG_COLCON => ([pdata, pdata, pdata + 1], pdata + 2 + dcsqcTemp data pdata)
  | some .CMD_END => ([pdata], pdata + 1)
  | none => ([pdata], pend)

/-- The loop of `doDCSQC`, of at most `fuel` passes. -/
def dcsqcLoop (data : Source) (pend : ℕ) : ℕ → ℕ → Bool → DcsqcLoop
  | 0, _, _ => { reads := [], passes := [], finish := none }
  | fuel + 1, pdata, stoped =>
    let command := CommandID.ofByte (data pdata)
    let (reads, next) := dcsqcCommand data pend pdata command
    if command = none ∨ command = some .CMD_END then
      { reads := reads, passes := [⟨pdata, next⟩], finish := some (next, stoped) }
    else
      let rest := dcsqcLoop data pend fuel next (stoped || command = some .STP_DSP)
      { rest with reads := reads ++ rest.reads, passes := ⟨pdata, next⟩ :: rest.passes }

/-- What `doDCSQC` returns, if it does, and what it has read and passed over. -/
structure DcsqcResult where
  delay : Option ℕ
  reads : List ℕ
  passes : List Pass

/-- `doDCSQC`.  The address of the next sequence is read and not used. -/
def doDCSQC (data : Source) (pend : ℕ) : ℕ → ℕ → DcsqcResult
  | 0, _ => { delay := none, reads := [], passes := [] }
  | fuel + 1, pdata =>
    let cmdDelay := (data pdata).toNat <<< 8 + (data (pdata + 1)).toNat
    let loop := dcsqcLoop data pend fuel (pdata + 4) false
    let reads := [pdata, pdata + 1, pdata + 2, pdata + 3] ++ loop.reads
    match loop.finish with
    | none => { delay := none, reads := reads, passes := loop.passes }
    | some (pdata, stoped) =>
      if pdata < pend ∧ stoped = false then
        let rest := doDCSQC data pend fuel pdata
        { delay := rest.delay.map fun cmdDelaynew => max cmdDelaynew cmdDelay
          reads := reads ++ rest.reads
          passes := loop.passes ++ rest.passes }
      else
        { delay := some cmdDelay, reads := reads, passes := loop.passes }

/-- A parameter of two bytes. -/
def parameter (data : Source) (p : ℕ) : ℕ := (data p).toNat <<< 8 + (data (p + 1)).toNat

/-- The start and the last place of a `SET_DAREA`, from three bytes. -/
def areaStart (data : Source) (p : ℕ) : ℕ :=
  ((data p).toNat &&& 0x3f) <<< 4 ||| (data (p + 1)).toNat >>> 4

def areaEnd (data : Source) (p : ℕ) : ℕ :=
  ((data (p + 1)).toNat &&& 0x0f) <<< 8 ||| (data (p + 2)).toNat

/-- The size of a `SET_DAREA`, an `unsigned short` that is cut off at a greatest size. -/
def areaSize (data : Source) (p size : ℕ) : ℕ :=
  min (asUnsigned 16 ((areaEnd data p : ℤ) - areaStart data p + 1)) size

/-- What a command of `getSpuCmd` sets; its parameters are from `p` on. -/
def setCommand (spu : DvdSpu) (p : ℕ) : CommandID → DvdSpu
  | .FSTA_DSP => { spu with displayPending := 2 }
  | .STA_DSP => { spu with displayPending := 1 }
  | .STP_DSP => { spu with displayPending := 0 }
  | .SET_COLOR => { spu with spuColor := parameter spu.spuData p }
  | .SET_CONTR => { spu with spuAlpha := parameter spu.spuData p }
  | .SET_DAREA =>
    { spu with
      spuStartX := areaStart spu.spuData p
      spuWidth := areaSize spu.spuData p VOB_SUB_WIDTH
      spuStartY := areaStart spu.spuData (p + 3)
      spuHeight := areaSize spu.spuData (p + 3) VOB_SUB_HEIGHT }
  | .SET_DSPXA =>
    { spu with
      topPxdAddr := parameter spu.spuData p
      bottomPxdAddr := parameter spu.spuData (p + 2) }
  | .CHG_COLCON => spu
  | .CMD_END => spu

/-- The bytes of parameters that a command of `getSpuCmd` reads. -/
def parameterReads : CommandID → ℕ
  | .FSTA_DSP | .STA_DSP | .STP_DSP | .CMD_END => 0
  | .SET_COLOR | .SET_CONTR | .CHG_COLCON => 2
  | .SET_DAREA => 6
  | .SET_DSPXA => 4

/-- Where `getSpuCmd` goes on behind a command. -/
def spuCmdNext (data : Source) (p : ℕ) (command : CommandID) : ℕ :=
  match command with
  | .CHG_COLCON => p + 3 + parameter data (p + 1)
  | command => p + 1 + parameterReads command

/-- What `getSpuCmd` makes of the item and returns, if it does, and what it has read and
passed over. -/
structure SpuCmdResult where
  spu : DvdSpu
  ret : Option ℤ
  reads : List ℕ
  passes : List Pass

/-- The end of `getSpuCmd`: the time the sequences behind the first one take. -/
def spuCmdEnd (fuel : ℕ) (spu : DvdSpu) (pCmdData : ℕ) : SpuCmdResult :=
  if pCmdData + 6 ≤ spu.length then
    let sequences := doDCSQC spu.spuData (spu.length - 6) fuel pCmdData
    match sequences.delay with
    | none => { spu := spu, ret := none, reads := sequences.reads, passes := sequences.passes }
    | some delay =>
      { spu := { spu with mDelay := if 0 < delay then delay * 1024 + spu.pts else delay }
        ret := some 0
        reads := sequences.reads
        passes := sequences.passes }
  else
    { spu := spu, ret := some 0, reads := [], passes := [] }

/-- The loop of `getSpuCmd`, of at most `steps` passes. -/
def spuCmdLoop (fuel : ℕ) : ℕ → DvdSpu → ℕ → SpuCmdResult
  | 0, spu, _ => { spu := spu, ret := some (-1), reads := [], passes := [] }
  | steps + 1, spu, pCmdData =>
    if pCmdData < spu.length then
      match CommandID.ofByte (spu.spuData pCmdData) with
      | none => { spu := spu, ret := some (-1), reads := [pCmdData], passes := [] }
      | some command =>
        let reads := List.range' pCmdData (1 + parameterReads command)
        let next := spuCmdNext spu.spuData pCmdData command
        let rest :=
          if command = .CMD_END then
            spuCmdEnd fuel spu next
          else
            spuCmdLoop fuel steps (setCommand spu (pCmdData + 1) command) next
        { rest with reads := reads ++ rest.reads, passes := ⟨pCmdData, next⟩ :: rest.passes }
    else
      { spu := spu, ret := some (-1), reads := [], passes := [] }

/-- `getSpuCmd`.  Each pass goes on, so that there are no more than the frame has bytes. -/
def getSpuCmd (fuel : ℕ) (spu : DvdSpu) : SpuCmdResult :=
  if spu.length ≤ spu.cmdOffset then
    { spu := spu, ret := some (-1), reads := [], passes := [] }
  else
    spuCmdLoop fuel spu.length spu (spu.cmdOffset + 4)

/-! ## Bitmaps -/

/-- `DecodeRL`: the bits of the code at the start of a word, `pixelnum` and `pixeldata`. -/
def decodeRL (RLData : ℕ) : ℕ × ℕ × ℕ :=
  let nDecodedBits :=
    if RLData &&& 0xc000 ≠ 0 then 4
    else if RLData &&& 0x3000 ≠ 0 then 8
    else if RLData &&& 0x0c00 ≠ 0 then 12
    else 16
  let nShiftNum := 16 - nDecodedBits
  (nDecodedBits, RLData >>> (nShiftNum + 2), (RLData >>> nShiftNum) &&& 3)

/-- `GetWordFromPixBuffer`, which reads four bytes. -/
def getWordFromPixBuffer (data : Source) (bitpos pixelIn : ℕ) : ℕ :=
  let high := (data pixelIn).toNat <<< 8 ||| (data (pixelIn + 1)).toNat
  let low := (data (pixelIn + 2)).toNat <<< 8 ||| (data (pixelIn + 3)).toNat
  if bitpos = 0 then high else (high <<< bitpos) % 2 ^ 16 ||| low >>> (16 - bitpos)

/-- The variables of `spuFillPixel`: `pixelIn` is an offset into `spu_data`, `ptrPXDWrite` the
index of a word of `pixelOut`, whose words are `words`.  The logs are of the bytes read, of the
words written and of the indices into `PixelData`. -/
structure Fill where
  pixelIn : ℕ
  bitPos : ℕ := 0
  nDecodedPixNum : ℕ := 0
  ptrPXDWrite : ℕ := 0
  wrOffset : ℕ := 16
  words : ℕ → ℕ := fun _ => 0
  reads : List ℕ := []
  writes : List ℕ := []
  lookups : List ℕ := []

/-- A pass of the innermost loop: a pixel is or-ed into the word. -/
def putPixel (nPixelData : ℕ) (s : Fill) : Fill :=
  let wrOffset := s.wrOffset - 2
  { s with
    words := Function.update s.words s.ptrPXDWrite
      (s.words s.ptrPXDWrite ||| (nPixelData <<< wrOffset) % 2 ^ 16)
    writes := s.writes ++ [s.ptrPXDWrite]
    wrOffset := if wrOffset = 0 then 16 else wrOffset
    ptrPXDWrite := if wrOffset = 0 then s.ptrPXDWrite + 1 else s.ptrPXDWrite }

/-- The innermost loop: the pixels of a run. -/
def putPixels (nPixelData : ℕ) : ℕ → Fill → Fill
  | 0, s => s
  | n + 1, s => putPixels nPixelData n (putPixel nPixelData s)

/-- `change_data`: how many nibbles of the contrast are not zero, from the lowest up to the first
that is. -/
def changeData : ℕ → ℕ → ℕ
  | 0, _ => 0
  | nibbles + 1, alpha =>
    if alpha &&& 0xf ≠ 0 then changeData nibbles (alpha >>> 4) + 1 else 0

/-- `PixelData`, of four entries. -/
def pixelData (change_data : ℕ) : List ℕ := ([0, 1, 2, 3].set 0 change_data).set change_data 0

/-- `PixelIn` and `PXDBufferBitPos` behind a code. -/
def skipBits (s : Fill) (nBits : ℕ) : Fill :=
  if 16 ≤ s.bitPos + nBits then
    { s with pixelIn := s.pixelIn + 2, bitPos := s.bitPos + nBits - 16 }
  else
    { s with bitPos := s.bitPos + nBits }

/-- A pass of the loop over the codes of a line. -/
def fillCode (data : Source) (rownum change_data : ℕ) (s : Fill) : Fill :=
  let (nBits, nPixelNum, nPixelData) := decodeRL (getWordFromPixBuffer data s.bitPos s.pixelIn)
  let reads := s.reads ++ List.range' s.pixelIn 4
  let nPixelNum :=
    if nPixelNum = 0 then rownum - s.nDecodedPixNum % rownum else nPixelNum
  let nDecodedPixNum := s.nDecodedPixNum + nPixelNum
  let s := { skipBits s nBits with reads := reads, nDecodedPixNum := nDecodedPixNum }
  if change_data ≠ 0 then
    putPixels ((pixelData change_data).getD nPixelData 0) nPixelNum
      { s with lookups := s.lookups ++ [nPixelData] }
  else
    putPixels nPixelData nPixelNum s

/-- The loop over the codes of a line, of at most `fuel` passes. -/
def fillCodes (data : Source) (rownum change_data : ℕ) : ℕ → Fill → Fill
  | 0, s => s
  | fuel + 1, s =>
    if s.nDecodedPixNum < rownum then
      fillCodes data rownum change_data fuel (fillCode data rownum change_data s)
    else
      s

/-- The end of a line: the next one starts at a byte, and is written from the start of a
word. -/
def endLine (rownum : ℕ) (s : Fill) : Fill :=
  -- Rule 6
  let s :=
    if s.bitPos = 4 then { s with bitPos := 8 }
    else if s.bitPos = 12 then { s with bitPos := 0, pixelIn := s.pixelIn + 2 }
    else s
  let s :=
    if s.wrOffset ≠ 16 then { s with wrOffset := 16, ptrPXDWrite := s.ptrPXDWrite + 1 } else s
  { s with nDecodedPixNum := s.nDecodedPixNum - rownum }

/-- The loop over the lines.  A code stands for a pixel or more, so that a line has no more
codes than pixels. -/
def fillLines (data : Source) (rownum change_data : ℕ) : ℕ → Fill → Fill
  | 0, s => s
  | lines + 1, s =>
    fillLines data rownum change_data lines
      (endLine rownum (fillCodes data rownum change_data rownum s))

/-- `spuFillPixel` for the pixels at `pixelIn`.  The width is at most `VOB_SUB_WIDTH`, so that
no count comes near `2 ^ 16`. -/
def spuFillPixel (spu : DvdSpu) (pixelIn n : ℕ) : DvdSpu × Fill :=
  let change_data := changeData 4 spu.spuAlpha
  let lookups := if spu.spuAlpha &&& 0xf ≠ 0 then [0, change_data] else []
  let filled := fillLines spu.spuData spu.spuWidth change_data (spu.spuHeight / 2)
    { pixelIn := pixelIn, lookups := lookups }
  let spuAlpha := ((spu.spuAlpha &&& 0xfff0) ||| 0xf <<< (change_data <<< 2)) % 2 ^ 16
  (if spu.spuAlpha &&& 0xf ≠ 0 ∧ n = 2 then { spu with spuAlpha := spuAlpha } else spu, filled)

/-- A byte of words, which are kept with the low byte first. -/
def wordByte (words : ℕ → ℕ) (k : ℕ) : UInt8 := UInt8.ofNat (words (k / 2) >>> (8 * (k % 2)))

/-- The end of `getVobSpu`: both fields are filled, and `spu_data` becomes the two halves of the
plane. -/
def fillFields (spu : DvdSpu) : DvdSpu × Fill × Fill :=
  let (spu, pixDataOdd) := spuFillPixel spu spu.topPxdAddr 1
  let (spu, pixDataEven) := spuFillPixel spu spu.bottomPxdAddr 2
  let spuData : Source := fun k =>
    if k < VOB_SUB_SIZE / 2 then wordByte pixDataOdd.words k
    else if k < VOB_SUB_SIZE then wordByte pixDataEven.words (k - VOB_SUB_SIZE / 2)
    else 0
  ({ spu with spuData := spuData }, pixDataOdd, pixDataEven)

/-- The two bits that `parseInterSpu` takes for pixel `j` of row `i`. -/
def interSpuPixel (spu : DvdSpu) (j i : ℕ) : ℕ :=
  let dataByte := ((spu.spuWidth * 2 + 15) >>> 4) <<< 1
  let data := (i >>> 1) * dataByte + if i &&& 1 ≠ 0 then VOB_SUB_SIZE / 2 else 0
  let index := j / 4
  let index1 := if index % 2 ≠ 0 then index - 1 else index + 1
  (spu.spuData (data + index1)).toNat >>> (6 - 2 * (j % 4)) &&& 3

end Dvd
end AmlSubtitle
