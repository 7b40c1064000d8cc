import AmlSubtitle.Lib.Words

/-!
# `ipc/IpcDataTypes.h`

The package header that travels in front of every message, and the reading of
its words.  A `char` is unsigned, as on the target.  The client library keeps its
own copy of the two flags and of the message types (`SubtitleReportAPI.cpp`); the
two copies agree, so there is one of each here.
-/

namespace AmlSubtitle

open Words

/-- `START_FLAG`. -/
def START_FLAG : ℕ := 0xF0D0C0B1

/-- `MAGIC_FLAG`. -/
def MAGIC_FLAG : ℕ := 0xCFFFFFFB

/-- `PayloadType` of the client, the `eTypeSubtitle…` constants of the server. -/
inductive PayloadType where
  | totalTrack
  | startPts
  | renderTime
  | subType
  | typeString
  | langString
  | subData
  | resetServer
  | exitServer
  deriving DecidableEq, Repr

/-- The word a message type travels as. -/
def PayloadType.code : PayloadType → ℕ
  | .totalTrack => 0x53544F54
  | .startPts => 0x53505453
  | .renderTime => 0x53524454
  | .subType => 0x53545950
  | .typeString => 0x54505352
  | .langString => 0x4C475352
  | .subData => 0x504C4454
  | .resetServer => 0x43545244
  | .exitServer => 0x43444558

theorem PayloadType.code_lt (t : PayloadType) : t.code < 256 ^ 4 := by
  cases t <;> decide

/-- `IpcPackageHeader`: five `int`s. -/
structure IpcPackageHeader where
  syncWord : ℤ
  sessionId : ℤ
  magicWord : ℤ
  dataSize : ℤ
  pkgType : ℤ
  deriving DecidableEq, Repr

/-- `sizeof(IpcPackageHeader)`. -/
def sizeofIpcPackageHeader : ℕ := 20

/-- `peekAsSocketWord`, on a little-endian machine.  Callers hand it at least four
bytes; a byte that is not there reads as zero. -/
def peekAsSocketWord (buffer : List UInt8) : ℕ :=
  (buffer.getD 0 0).toNat ||| (buffer.getD 1 0).toNat <<< 8 |||
    (buffer.getD 2 0).toNat <<< 16 ||| (buffer.getD 3 0).toNat <<< 24

/-- The header `readLoop` fills from the bytes it peeked. -/
def parseHeader (buffer : List UInt8) : IpcPackageHeader where
  syncWord := asSigned 32 (peekAsSocketWord buffer)
  sessionId := asSigned 32 (peekAsSocketWord (buffer.drop 4))
  magicWord := asSigned 32 (peekAsSocketWord (buffer.drop 8))
  dataSize := asSigned 32 (peekAsSocketWord (buffer.drop 12))
  pkgType := asSigned 32 (peekAsSocketWord (buffer.drop 16))

/-- The shifted bytes of a word do not overlap, so or-ing them adds them. -/
theorem peekAsSocketWord_eq (buffer : List UInt8) (h : 4 ≤ buffer.length) :
    peekAsSocketWord buffer = leValue (buffer.take 4) := by
  match buffer, h with
  | a :: b :: c :: d :: _, _ =>
    have ha : a.toNat < 2 ^ 8 := a.toNat_lt
    have hb : b.toNat < 2 ^ 8 := b.toNat_lt
    have hc : c.toNat < 2 ^ 8 := c.toNat_lt
    show a.toNat ||| b.toNat <<< 8 ||| c.toNat <<< 16 ||| d.toNat <<< 24 = _
    rw [or_shift ha, or_shift (k := 16) (by omega), or_shift (k := 24) (by omega)]
    simp only [List.take_succ_cons, List.take_zero, leValue_cons, leValue_nil]
    omega

/-- A word written little-endian is read back. -/
theorem peekAsSocketWord_leBytes {n : ℕ} (hn : n < 256 ^ 4) (rest : List UInt8) :
    peekAsSocketWord (leBytes 4 n ++ rest) = n := by
  rw [peekAsSocketWord_eq _ (by simp), List.take_append_of_le_length (by simp),
    List.take_of_length_le (by simp), leValue_leBytes hn]

end AmlSubtitle
