import AmlSubtitle.Lib.Words

/-!
# The packet header of the client library

`SubtitleClientPrivate::constructPacketHeader`, which a client calls to head a packet of
subtitle data: thirty bytes, with every word most significant byte first.

The header pointer is taken as not null.  `headerBufferSize` is not read.
-/

namespace AmlSubtitle
namespace Client

open Words

/-- `subtitle::SubtitleType`. -/
inductive SubtitleType where
  | CC
  | SCTE27
  | DVB_SUBTITLE
  | TELETEXT
  | UNKNOWN
  deriving DecidableEq, Repr

/-- `SubtitleClient::PackHeaderAttribute`. -/
structure PackHeaderAttribute where
  subtitleCount : ℤ
  type : SubtitleType
  rawDataSize : ℕ
  pts : ℤ
  duration : ℤ
  deriving DecidableEq, Repr

/-- `convertSubTypeToSubDecodeType`. -/
def convertSubTypeToSubDecodeType : SubtitleType → ℤ
  | .CC => -1
  | .SCTE27 => -1
  | .DVB_SUBTITLE => 5
  | .TELETEXT => -1
  | .UNKNOWN => -1

/-- `convertSubTypeToFFmpegType`. -/
def convertSubTypeToFFmpegType : SubtitleType → ℤ
  | .CC => -1
  | .SCTE27 => -1
  | .DVB_SUBTITLE => 0x17001
  | .TELETEXT => -1
  | .UNKNOWN => -1

/-- `(x >> k) & 0xff`. -/
def byteAt (x : ℤ) (k : ℕ) : UInt8 := UInt8.ofNat ((x >>> k) % 256).toNat

/-- `constructPacketHeader`: the bytes it writes. -/
def constructPacketHeader (attr : PackHeaderAttribute) : List UInt8 :=
  let subDecodeType := convertSubTypeToSubDecodeType attr.type
  let subFFmpegType := convertSubTypeToFFmpegType attr.type
  [0x51, 0x53,
    byteAt subDecodeType 24, byteAt subDecodeType 16, byteAt subDecodeType 8,
    byteAt subDecodeType 0,
    byteAt attr.subtitleCount 24, byteAt attr.subtitleCount 16, byteAt attr.subtitleCount 8,
    byteAt attr.subtitleCount 0,
    0x41, 0x4d, 0x4c, 0x55, 0x77,
    byteAt subFFmpegType 16, byteAt subFFmpegType 8, byteAt subFFmpegType 0,
    byteAt attr.rawDataSize 24, byteAt attr.rawDataSize 16, byteAt attr.rawDataSize 8,
    byteAt attr.rawDataSize 0,
    byteAt attr.pts 24, byteAt attr.pts 16, byteAt attr.pts 8, byteAt attr.pts 0,
    byteAt attr.duration 24, byteAt attr.duration 16, byteAt attr.duration 8,
    byteAt attr.duration 0]

/-- The four bytes of a word are the big-endian bytes of its low 32 bits. -/
theorem byteAt_word (x : ℤ) :
    [byteAt x 24, byteAt x 16, byteAt x 8, byteAt x 0] = beBytes 4 (asUnsigned 32 x) := by
  have hbyte : ∀ {k m : ℕ}, x / 2 ^ k % 256 = ((m % 256 : ℕ) : ℤ) →
      byteAt x k = UInt8.ofNat m := by
    intro k m h
    rw [byteAt, Int.shiftRight_eq_div_pow]
    push_cast
    rw [h, Int.toNat_natCast]
    exact UInt8.toNat_inj.mp (by simp)
  obtain ⟨n, hn⟩ : ∃ n : ℕ, n = asUnsigned 32 x := ⟨_, rfl⟩
  have hx : (n : ℤ) = x % 2 ^ 32 := by
    rw [hn, asUnsigned, Int.toNat_of_nonneg (by omega)]
  rw [← hn, hbyte (k := 24) (m := n / 256 / 256 / 256) (by omega),
    hbyte (k := 16) (m := n / 256 / 256) (by omega), hbyte (k := 8) (m := n / 256) (by omega),
    hbyte (k := 0) (m := n) (by omega)]
  rfl

/-- **The header of a DVB subtitle**, word by word. -/
theorem constructPacketHeader_dvb {attr : PackHeaderAttribute}
    (htype : attr.type = .DVB_SUBTITLE) :
    constructPacketHeader attr =
      [0x51, 0x53, 0, 0, 0, 5] ++ beBytes 4 (asUnsigned 32 attr.subtitleCount) ++
        [0x41, 0x4d, 0x4c, 0x55, 0x77] ++ [1, 0x70, 1] ++
        beBytes 4 (asUnsigned 32 attr.rawDataSize) ++ beBytes 4 (asUnsigned 32 attr.pts) ++
        beBytes 4 (asUnsigned 32 attr.duration) := by
  rw [← byteAt_word, ← byteAt_word, ← byteAt_word, ← byteAt_word, constructPacketHeader, htype]
  rfl

end Client
end AmlSubtitle
