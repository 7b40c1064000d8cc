import AmlSubtitle.Lib.Bits
import AmlSubtitle.Parser.DvbHwPackets

/-!
# `hwDemuxParse` of the TTML, SMPTE-TTML and ARIB parsers

The three parsers take a PES packet apart with one piece of code: the length, the flags, the
header with its time stamp, the data.  They differ in what they make of the time stamp and in when
they take the data as decoded.

* A `char` is unsigned, and the source is the list of the bytes that come.  The second time stamp
  of a header is read and never used.
* `pesPts_eq`: the shifts put the three parts of the time stamp side by side.
* `hwDemuxParse_framing`: a pass takes the packet and nothing else, and has its time stamp.
-/

namespace AmlSubtitle
namespace PesDemux

open Words Bits Dvb

/-! ## The demuxer -/

/-- What a pass does: the time stamp it computes, the packet it hands to the decoder, the value it
returns and the bytes it leaves in the source. -/
structure PesResult where
  tempPts : Option ℕ := none
  handed : Option DvbPacket := none
  ret : ℤ := 0
  rest : List UInt8

/-- The end of `hwDemuxParse`: the data. -/
def readData (stamp : ℤ → ℤ) (decodes : DvbPacket → Bool) (tempPts : Option ℕ) (packetLen : ℕ)
    (src : List UInt8) : PesResult :=
  if 0 < packetLen then
    if OSD_HALF_SIZE * 4 < packetLen then
      { tempPts := tempPts, ret := -1, rest := src }
    else
      let buf := src.take packetLen
      let src := src.drop packetLen
      if buf.length = packetLen then
        let packet : DvbPacket := { pts := stamp (tempPts.getD 0), data := buf }
        { tempPts := tempPts
          handed := some packet
          ret := if decodes packet then 0 else -1
          rest := src }
      else
        { tempPts := tempPts, rest := src }
  else
    { tempPts := tempPts, rest := src }

/-- `hwDemuxParse`, with what a parser makes of the time stamp and when it takes the data as
decoded.  The bytes of an earlier read stay in `tmpbuf` where the next read is shorter. -/
def hwDemuxParse (stamp : ℤ → ℤ) (decodes : DvbPacket → Bool) (src : List UInt8) : PesResult :=
  let head := src.take 2
  let src := src.drop 2
  if head.length = 2 then
    let packetLen := AV_RB16 (sourceOf head) 0
    if 3 ≤ packetLen then
      let flags := src.take 3
      let src := src.drop 3
      if flags.length = 3 then
        let packetLen := packetLen - 3
        let pesHeaderLen := (sourceOf flags 2).toNat
        let kind := (sourceOf flags 1).toNat &&& 0xc0
        if pesHeaderLen ≤ packetLen then
          let pesHeader := src.take pesHeaderLen
          let src := src.drop pesHeaderLen
          if kind = 0x80 ∨ kind = 0xc0 then
            if pesHeader.length = pesHeaderLen then
              readData stamp decodes
                (some (pesPts (sourceOf (pesHeader ++ flags.drop pesHeaderLen))))
                (packetLen - pesHeaderLen) src
            else
              readData stamp decodes none packetLen src
          else
            -- No PTS, has the effect of displaying immediately.
            readData stamp decodes none (packetLen - pesHeaderLen) src
        else
          { ret := if src.length < packetLen then -1 else 0, rest := src.drop packetLen }
      else
        readData stamp decodes none packetLen src
    else
      { ret := if src.length < packetLen then -1 else 0, rest := src.drop packetLen }
  else
    { rest := src }

/-- A time stamp of more than 32 bits is cut where the clock has no more. -/
def cutTo32Bit (syncTime pts : ℤ) : ℤ :=
  if Spu.isMore32Bit pts ∧ ¬ Spu.isMore32Bit syncTime then pts % 2 ^ 32 else pts

/-- `TtmlParser::hwDemuxParse`, over what `TtmlDecodeFrame` returns. -/
def TtmlParser.hwDemuxParse (syncTime : ℤ) (TtmlDecodeFrame : DvbPacket → ℤ) :
    List UInt8 → PesResult :=
  PesDemux.hwDemuxParse (cutTo32Bit syncTime) fun packet => TtmlDecodeFrame packet ≠ -1

/-- `AribB24Parser::hwDemuxParse`, over what `aribB24DecodeFrame` returns and the size that it
gives the item. -/
def AribB24Parser.hwDemuxParse (syncTime : ℤ) (aribB24DecodeFrame : DvbPacket → ℤ × ℤ) :
    List UInt8 → PesResult :=
  PesDemux.hwDemuxParse (cutTo32Bit syncTime) fun packet =>
    (aribB24DecodeFrame packet).1 ≠ -1 ∧ 0 < (aribB24DecodeFrame packet).2

/-- `SmpteTtmlParser::hwDemuxParse`, over what `SmpteTtmlDecodeFrame` returns. -/
def SmpteTtmlParser.hwDemuxParse (SmpteTtmlDecodeFrame : DvbPacket → ℤ) :
    List UInt8 → PesResult :=
  PesDemux.hwDemuxParse id fun packet => SmpteTtmlDecodeFrame packet ≠ -1

/-! ## The time stamp -/

/-- The time stamp of a PES header: 33 bits in three parts, with a bit behind each. -/
def encodedPts (header : ℕ → UInt8) : ℕ :=
  bitsAt header 4 3 * 2 ^ 30 + bitsAt header 8 15 * 2 ^ 15 + bitsAt header 24 15

theorem and_fe : ∀ b < 256, b &&& 0xfe = b / 2 * 2 := by decide +kernel

theorem and_e : ∀ b < 256, b &&& 0xe = b % 16 / 2 * 2 := by decide +kernel

theorem and_ff : ∀ b < 256, b &&& 0xff = b := by decide +kernel

/-- What lies below a multiple of a power of two is added to it. -/
theorem or_below {a b k : ℕ} (ha : 2 ^ k ∣ a) (hb : b < 2 ^ k) : a ||| b = a + b := by
  obtain ⟨c, rfl⟩ := ha
  exact (Nat.two_pow_add_eq_or_of_lt hb c).symm

/-- Fifteen bits of two bytes. -/
theorem bitsAt_fifteen (s : ℕ → UInt8) (k : ℕ) :
    bitsAt s (8 * k) 15 = (s k).toNat * 2 ^ 7 + (s (k + 1)).toNat / 2 := by
  have hpair := bitsAt_pair s k
  have hlt : (s (k + 1)).toNat < 2 ^ 8 := (s (k + 1)).toNat_lt
  rw [← Nat.shiftLeft_add_eq_or_of_lt hlt, Nat.shiftLeft_eq] at hpair
  rw [bitsAt_take s (8 * k) 15 1, hpair]
  omega

/-- The three bits of the first byte. -/
theorem bitsAt_three (s : ℕ → UInt8) : bitsAt s 4 3 = (s 0).toNat % 16 / 2 := by
  have hbyte : bitsAt s 0 (4 + 4) = (s 0).toNat := bitsAt_byte s 0
  have hlow : bitsAt s 4 (3 + 1) = (s 0).toNat % 2 ^ 4 := by rw [← hbyte, ← bitsAt_drop]
  rw [bitsAt_take s 4 3 1, hlow]
  rfl

/-- The shifts of the source put the parts of the time stamp side by side. -/
theorem pesPts_eq (header : ℕ → UInt8) : pesPts header = encodedPts header := by
  have h0 : (header 0).toNat < 256 := (header 0).toNat_lt
  have h1 : (header 1).toNat < 256 := (header 1).toNat_lt
  have h2 : (header 2).toNat < 256 := (header 2).toNat_lt
  have h3 : (header 3).toNat < 256 := (header 3).toNat_lt
  have h4 : (header 4).toNat < 256 := (header 4).toNat_lt
  have hsecond : bitsAt header 8 15 = _ := bitsAt_fifteen header 1
  have hthird : bitsAt header 24 15 = _ := bitsAt_fifteen header 3
  rw [pesPts, encodedPts, bitsAt_three, hsecond, hthird, and_e _ h0, and_ff _ h1, and_fe _ h2,
    and_ff _ h3, and_fe _ h4]
  simp only [Nat.shiftLeft_eq, Nat.shiftRight_eq_div_pow]
  generalize (header 0).toNat = b0, (header 1).toNat = b1, (header 2).toNat = b2,
    (header 3).toNat = b3, (header 4).toNat = b4 at *
  rw [@or_below (b0 % 16 / 2 * 2 * 2 ^ 29) (b1 * 2 ^ 22) 30 (by omega) (by omega),
    @or_below _ (b2 / 2 * 2 * 2 ^ 14) 22 (by omega) (by omega),
    @or_below _ (b3 * 2 ^ 7) 15 (by omega) (by omega),
    @or_below _ (b4 / 2 * 2 / 2 ^ 1) 7 (by omega) (by omega)]
  omega

theorem pesPts_congr {s s' : ℕ → UInt8} (h : ∀ k < 5, s k = s' k) : pesPts s = pesPts s' := by
  rw [pesPts, pesPts, h 0 (by decide), h 1 (by decide), h 2 (by decide), h 3 (by decide),
    h 4 (by decide)]

/-! ## A packet and what follows -/

/-- What stands behind the length of a PES packet. -/
structure Packet where
  body : List UInt8
  length_lt : body.length < 2 ^ 16

namespace Packet

/-- `PES_packet_length`, and that many bytes. -/
def counted (packet : Packet) : List UInt8 := beBytes 2 packet.body.length ++ packet.body

/-- The header length that the packet states. -/
def headerLength (packet : Packet) : ℕ := (sourceOf packet.body 2).toNat

/-- The header has a time stamp, and is in the packet. -/
structure CarriesPts (packet : Packet) : Prop where
  flags : (sourceOf packet.body 1).toNat &&& 0xc0 = 0x80 ∨
    (sourceOf packet.body 1).toNat &&& 0xc0 = 0xc0
  five_le : 5 ≤ packet.headerLength
  le_length : 3 + packet.headerLength ≤ packet.body.length

/-- The time stamp that the packet carries. -/
def pts (packet : Packet) : ℕ := encodedPts (sourceOf (packet.body.drop 3))

end Packet

/-- A pass takes a packet and nothing else, and its time stamp is that of the packet. -/
structure Framed (packet : Packet) (after : List UInt8) (result : PesResult) : Prop where
  rest : result.rest = after
  pts : ∀ pts ∈ result.tempPts, 5 ≤ packet.headerLength → pts = packet.pts
  carried : packet.CarriesPts → result.tempPts = some packet.pts

section Pass

variable {stamp : ℤ → ℤ} {decodes : DvbPacket → Bool}

theorem tempPts_readData (tempPts : Option ℕ) (packetLen : ℕ) (src : List UInt8) :
    (readData stamp decodes tempPts packetLen src).tempPts = tempPts := by
  unfold readData
  dsimp only
  split_ifs <;> rfl

/-- The data of a packet is taken whole. -/
theorem rest_readData (tempPts : Option ℕ) {data : List UInt8} (hlength : data.length < 2 ^ 16)
    (after : List UInt8) :
    (readData stamp decodes tempPts data.length (data ++ after)).rest = after := by
  have hsmall : ¬ OSD_HALF_SIZE * 4 < data.length := by
    rw [OSD_HALF_SIZE]
    omega
  have hwhole : ((data ++ after).take data.length).length = data.length := by
    rw [List.take_left]
  unfold readData
  dsimp only
  by_cases hpos : 0 < data.length
  · rw [if_pos hpos, if_neg hsmall, if_pos hwhole]
    exact List.drop_left
  · rw [if_neg hpos]
    exact congrArg (· ++ after) (List.eq_nil_of_length_eq_zero (Nat.eq_zero_of_not_pos hpos))

/-- The bytes in the buffer behind a header of five bytes or more. -/
theorem pesPts_packet (packet : Packet) (stale : List UInt8) (h : 5 ≤ packet.headerLength)
    (hle : 3 + packet.headerLength ≤ packet.body.length) :
    pesPts (sourceOf ((packet.body.drop 3).take packet.headerLength ++ stale)) = packet.pts := by
  have hbyte : ∀ k < 5, sourceOf ((packet.body.drop 3).take packet.headerLength ++ stale) k =
      sourceOf (packet.body.drop 3) k := by
    intro k hk
    have hlength : ((packet.body.drop 3).take packet.headerLength).length =
        packet.headerLength := by
      rw [List.length_take, List.length_drop]
      omega
    rw [sourceOf, sourceOf, List.getD_append _ _ _ _ (by omega), List.getD_eq_getElem?_getD,
      List.getD_eq_getElem?_getD, List.getElem?_take_of_lt (by omega)]
  rw [pesPts_congr hbyte, pesPts_eq, Packet.pts]

/-- **A pass** of the code that the parsers share. -/
theorem framed_hwDemuxParse (packet : Packet) (after : List UInt8) :
    Framed packet after (hwDemuxParse stamp decodes (packet.counted ++ after)) := by
  have hlt := packet.length_lt
  have hhead : (packet.counted ++ after).take 2 = beBytes 2 packet.body.length := by
    rw [Packet.counted, List.append_assoc, List.take_left' (length_beBytes 2 _)]
  have hsrc : (packet.counted ++ after).drop 2 = packet.body ++ after := by
    rw [Packet.counted, List.append_assoc, List.drop_left' (length_beBytes 2 _)]
  have hskip : (packet.body ++ after).drop packet.body.length = after := List.drop_left
  unfold hwDemuxParse
  dsimp only
  rw [hhead, hsrc, if_pos (length_beBytes 2 _), AV_RB16_beBytes hlt]
  by_cases hthree : 3 ≤ packet.body.length
  · have hflags : (packet.body ++ after).take 3 = packet.body.take 3 :=
      List.take_append_of_le_length hthree
    have hdrop : (packet.body ++ after).drop 3 = packet.body.drop 3 ++ after :=
      List.drop_append_of_le_length hthree
    have hlength : (packet.body.take 3).length = 3 := by
      rw [List.length_take]
      omega
    have hbyte : ∀ k < 3, sourceOf (packet.body.take 3) k = sourceOf packet.body k := by
      intro k hk
      rw [sourceOf, sourceOf, List.getD_eq_getElem?_getD, List.getD_eq_getElem?_getD,
        List.getElem?_take_of_lt hk]
    have hrest : (packet.body.drop 3).length = packet.body.length - 3 := List.length_drop
    rw [if_pos hthree, hflags, hdrop, if_pos hlength, hbyte 2 (by decide), hbyte 1 (by decide),
      ← Packet.headerLength]
    by_cases hheader : packet.headerLength ≤ packet.body.length - 3
    · have htake : (packet.body.drop 3 ++ after).take packet.headerLength =
          (packet.body.drop 3).take packet.headerLength :=
        List.take_append_of_le_length (by omega)
      have hdata : (packet.body.drop 3 ++ after).drop packet.headerLength =
          (packet.body.drop 3).drop packet.headerLength ++ after :=
        List.drop_append_of_le_length (by omega)
      have hread : ((packet.body.drop 3).take packet.headerLength).length =
          packet.headerLength := by
        rw [List.length_take]
        omega
      have hleft : packet.body.length - 3 - packet.headerLength =
          ((packet.body.drop 3).drop packet.headerLength).length := by
        rw [List.length_drop, hrest]
      have hsmall : ((packet.body.drop 3).drop packet.headerLength).length < 2 ^ 16 := by omega
      rw [if_pos hheader, htake, hdata, hleft]
      split_ifs with hkind
      · refine ⟨rest_readData _ hsmall after, fun pts hpts hfive => ?_, fun h => ?_⟩
        · rw [tempPts_readData] at hpts
          rw [← Option.some.inj hpts, pesPts_packet packet _ hfive (by omega)]
        · rw [tempPts_readData, pesPts_packet packet _ h.five_le h.le_length]
      · refine ⟨rest_readData _ hsmall after, fun pts hpts => ?_, fun h => ?_⟩
        · rw [tempPts_readData] at hpts
          exact absurd hpts (Option.not_mem_none pts)
        · exact absurd h.flags hkind
    · rw [if_neg hheader]
      refine ⟨?_, fun pts hpts => absurd hpts (Option.not_mem_none pts), fun h => ?_⟩
      · change (packet.body.drop 3 ++ after).drop (packet.body.length - 3) = after
        rw [← hrest, List.drop_left]
      · have hle := h.le_length
        omega
  · rw [if_neg hthree]
    refine ⟨hskip, fun pts hpts => absurd hpts (Option.not_mem_none pts), fun h => ?_⟩
    exact absurd (le_trans (Nat.le_add_right 3 _) h.le_length) hthree

end Pass

/-- **The framing of the three parsers.** -/
theorem hwDemuxParse_framing (syncTime : ℤ) (TtmlDecodeFrame SmpteTtmlDecodeFrame : DvbPacket → ℤ)
    (aribB24DecodeFrame : DvbPacket → ℤ × ℤ) (packet : Packet) (after : List UInt8) :
    Framed packet after
        (TtmlParser.hwDemuxParse syncTime TtmlDecodeFrame (packet.counted ++ after)) ∧
      Framed packet after
        (AribB24Parser.hwDemuxParse syncTime aribB24DecodeFrame (packet.counted ++ after)) ∧
      Framed packet after
        (SmpteTtmlParser.hwDemuxParse SmpteTtmlDecodeFrame (packet.counted ++ after)) :=
  ⟨framed_hwDemuxParse packet after, framed_hwDemuxParse packet after,
    framed_hwDemuxParse packet after⟩

end PesDemux
end AmlSubtitle
