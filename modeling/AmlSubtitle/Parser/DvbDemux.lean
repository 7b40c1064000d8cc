import AmlSubtitle.Parser.DvbParser
import AmlSubtitle.Subtitle.Spu
import AmlSubtitle.Utils.StreamUtils

/-!
# The demuxers in front of the DVB decoder

`DvbParser::getDvbSpu` looks for the next packet in the bytes of the data source: a PES
packet from the hardware demuxer, which `hwDemuxParse` takes apart, or a packet that a
software demuxer has put its own header in front of, for `softDemuxParse`.

* `mDataSource->read` waits until it has the bytes asked for or no more bytes come, so
  the source is the list of the bytes that come.
* A `char` is unsigned.  `malloc` gives a buffer of any length that is not negative.
* The parser is taken as running, and what it tells the notifier is left out, as in the
  decoder.
-/

namespace AmlSubtitle
namespace Dvb

open Words

/-- `AML_PARSER_SYNC_WORD`: "AMLU". -/
def AML_PARSER_SYNC_WORD : ℕ := 0x414D4C55

/-- `OSD_HALF_SIZE`. -/
def OSD_HALF_SIZE : ℕ := 1920 * 1280 / 8

/-- What is handed to `decodeSubtitle`: the time stamp of the item and the data. -/
structure DvbPacket where
  pts : ℤ
  data : List UInt8
  deriving DecidableEq, Repr

/-- What one call of a demuxer does: the context afterwards, the packet handed to the
decoder and the item given to `addDecodedItem`, if any, the value returned, and the bytes
left in the source. -/
structure DemuxResult where
  ctx : DVBSubContext
  handed : Option DvbPacket
  added : Option DvbSpu
  ret : ℤ
  rest : List UInt8

/-- A call that hands nothing to the decoder. -/
def nothing (ctx : DVBSubContext) (ret : ℤ) (rest : List UInt8) : DemuxResult where
  ctx := ctx
  handed := none
  added := none
  ret := ret
  rest := rest

/-- A packet is decoded, and its item is added where the demuxer wants it. -/
def handOver (ctx : DVBSubContext) (packet : DvbPacket) (wanted : SegmentResult → Bool)
    (rest : List UInt8) : DemuxResult :=
  let result := decodeSubtitle ctx { pts := packet.pts } (sourceOf packet.data)
    packet.data.length
  { ctx := result.ctx
    handed := some packet
    added := if wanted result then some result.spu else none
    ret := result.ret
    rest := rest }

/-! ## The software demuxer -/

/-- The data a read leaves in a buffer of `n` bytes that held zeros. -/
def readZeroed (n : ℕ) (src : List UInt8) : List UInt8 :=
  src.take n ++ List.replicate (n - src.length) 0

/-- `softDemuxParse`. -/
def softDemuxParse (ctx : DVBSubContext) (src : List UInt8) : DemuxResult :=
  let tmpbuf := src.take 19
  let src := src.drop 19
  if tmpbuf.length = 19 then
    let dataLen := subPeekAsInt32 (tmpbuf.drop 3)
    let pts := subPeekAsInt64 (tmpbuf.drop 7)
    if dataLen < 0 then
      nothing ctx (-1) src
    else
      handOver ctx { pts := pts, data := readZeroed dataLen.toNat src }
        (fun result => result.ret ≠ -1 ∧ 0 < result.spu.bufferSize) (src.drop dataLen.toNat)
  else
    nothing ctx 0 src

/-! ## The hardware demuxer -/

/-- The 33 bits of a time stamp in a PES header. -/
def pesPts (tmpbuf : Source) : ℕ :=
  ((tmpbuf 0).toNat &&& 0xe) <<< 29 ||| ((tmpbuf 1).toNat &&& 0xff) <<< 22 |||
    ((tmpbuf 2).toNat &&& 0xfe) <<< 14 ||| ((tmpbuf 3).toNat &&& 0xff) <<< 7 |||
    ((tmpbuf 4).toNat &&& 0xfe) >>> 1

/-- The end of `hwDemuxParse`, for a packet with a time stamp. -/
def hwPacket (ctx : DVBSubContext) (syncTime pts : ℤ) (packetLen : ℤ) (src : List UInt8) :
    DemuxResult :=
  if pts ≠ 0 ∧ 0 < packetLen then
    if OSD_HALF_SIZE * 4 < packetLen then
      nothing ctx (-1) src
    else
      let pts := if Spu.isMore32Bit pts ∧ ¬ Spu.isMore32Bit syncTime then pts % 2 ^ 32 else pts
      let src := src.drop 2
      let packetLen := packetLen - 2
      if packetLen < 0 then
        nothing ctx 0 src
      else if src.length < packetLen then
        nothing ctx 1 []
      else
        handOver ctx { pts := pts, data := src.take packetLen.toNat }
          (fun result => result.ret ≠ -1) (src.drop packetLen.toNat)
  else
    nothing ctx 0 src

/-- `hwDemuxParse`.  The bytes of an earlier read stay in `tmpbuf` where the next read is
shorter. -/
def hwDemuxParse (ctx : DVBSubContext) (syncTime : ℤ) (src : List UInt8) : DemuxResult :=
  let head := src.take 2
  let src := src.drop 2
  if head.length = 2 then
    let packetLen := AV_RB16 (sourceOf head) 0
    if 3 ≤ packetLen then
      let flags := src.take 3
      let src := src.drop 3
      if flags.length = 3 then
        let packetLen := packetLen - 3
        let pesHeaderLen := (sourceOf flags 2).toNat
        let kind := (sourceOf flags 1).toNat &&& 0xc0
        if pesHeaderLen ≤ packetLen ∧ (kind = 0x80 ∨ kind = 0xc0) then
          let pesHeader := src.take pesHeaderLen
          let src := src.drop pesHeaderLen
          if pesHeader.length = pesHeaderLen then
            hwPacket ctx syncTime (pesPts (sourceOf (pesHeader ++ flags.drop pesHeaderLen)))
              (packetLen - pesHeaderLen) src
          else
            nothing ctx 0 src
        else
          nothing ctx 0 (src.drop packetLen)
      else
        nothing ctx 0 src
    else
      nothing ctx 0 (src.drop packetLen)
  else
    nothing ctx 0 src

/-! ## The search for a packet -/

/-- The variable `packetHeader` after one more byte. -/
def nextHeader (packetHeader : ℕ) (b : UInt8) : ℕ :=
  ((packetHeader <<< 8) &&& 0x000000ffffffff00) ||| b.toNat

/-- The start of a PES packet of a private stream. -/
def IsHardware (packetHeader : ℕ) : Prop := packetHeader &&& 0xffffffff = 0x000001bd

/-- The start of a packet from a software demuxer. -/
def IsSoftware (packetHeader : ℕ) : Prop :=
  (packetHeader &&& 0xffffffffff) >>> 8 = AML_PARSER_SYNC_WORD ∧
    (packetHeader &&& 0xff = 0x77 ∨ packetHeader &&& 0xff = 0xaa)

instance : DecidablePred IsHardware := fun h => by
  unfold IsHardware
  infer_instance

instance : DecidablePred IsSoftware := fun h => by
  unfold IsSoftware
  infer_instance

/-- The loop of `getDvbSpu`. -/
def scan (ctx : DVBSubContext) (syncTime : ℤ) : ℕ → List UInt8 → DemuxResult
  | _, [] => nothing ctx 0 []
  | packetHeader, b :: src =>
    let packetHeader := nextHeader packetHeader b
    if IsHardware packetHeader then
      hwDemuxParse ctx syncTime src
    else if IsSoftware packetHeader then
      softDemuxParse ctx src
    else
      scan ctx syncTime packetHeader src

/-- `getDvbSpu`; `syncTime` is what `mDataSource->getSyncTime` answers. -/
def getDvbSpu (ctx : DVBSubContext) (syncTime : ℤ) (src : List UInt8) : DemuxResult :=
  scan ctx syncTime 0 src

end Dvb
end AmlSubtitle
