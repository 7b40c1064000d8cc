import AmlSubtitle.Parser.ExtSubConversion

/-!
# `parser/ExtParser/ExtSubStreamReader.cpp`: reading lines

`getLine` looks for the end of a line in a buffer that it fills as it goes, and copies
the line to the caller.

* The source gives the bytes of the file in pieces, one for each read: `Chunk`.  A read
  that fails is left out.
* `mBuffer` has the `mBufferSize` bytes that were read, if the buffer is allocated.
* `Memory` is the caller's line buffer and the byte in front of it, which `getLine`
  looks at when a line is empty: `s[dataLen - 1]`.
-/

namespace AmlSubtitle
namespace ExtSubStreamReader

open Utf16

/-- `LINE_LEN`. -/
def LINE_LEN : ℕ := 1024 * 2

/-- What a read gives. -/
structure Chunk where
  bytes : List UInt8
  ne_nil : bytes ≠ []
  length_le : bytes.length ≤ LINE_LEN

/-- The bytes of some reads. -/
def bytesOf (source : List Chunk) : List UInt8 := source.flatMap Chunk.bytes

/-- The caller's buffer, from the byte in front of it on. -/
structure Memory where
  before : UInt8
  bytes : List UInt8
  deriving DecidableEq, Repr

/-- The string in the buffer. -/
def Memory.string (s : Memory) : List UInt8 := s.bytes.takeWhile (· ≠ 0)

/-- `MEMCPY` to the buffer. -/
def Memory.copy (s : Memory) (bytes : List UInt8) : Memory :=
  { s with bytes := bytes ++ s.bytes.drop bytes.length }

/-- `ExtSubStreamReader`; `mDataSource` is what the reads to come give. -/
structure Reader where
  mEncoding : Encoding
  mBuffer : Option (List UInt8)
  mBufferReadOffset : ℕ
  mLastLineLen : ℕ
  mDataSource : List Chunk

/-! ## Opening -/

/-- `detectEncoding`, with the at most three bytes that its read gives. -/
def detectEncoding (header : List UInt8) : Encoding :=
  match header with
  | [a, b, c] =>
    if a = 0xFF ∧ b = 0xFE then .AML_ENCODING_UTF16
    else if a = 0xFE ∧ b = 0xFF then .AML_ENCODING_UTF16BE
    else if a = 0xEF ∧ b = 0xBB ∧ c = 0xBF then .AML_ENCODING_UTF8
    else .AML_ENCODING_NONE
  | _ => .AML_ENCODING_NONE

/-- The reader of a file as `decodeSubtitles` begins with it: the encoding is detected,
and the source is at the beginning of the file again. -/
def create (header : List UInt8) (source : List Chunk) : Reader where
  mEncoding := detectEncoding header
  mBuffer := none
  mBufferReadOffset := 0
  mLastLineLen := 0
  mDataSource := source

/-! ## Conversion -/

/-- The 16-bit units of some bytes. -/
def unitsOf : List UInt8 → List UInt16
  | a :: b :: s => UInt16.ofNat (a.toNat + 256 * b.toNat) :: unitsOf s
  | _ => []

/-- `convertToUtf8`, on the caller's buffer. -/
def convertToUtf8 (charset : Encoding) (s : Memory) (inLen : ℕ) : Memory :=
  if charset = .AML_ENCODING_UTF8 ∨ charset = .AML_ENCODING_NONE then s
  else
    match encodeUnits charset (unitsOf (s.bytes.take inLen)) (inLen * 2) with
    | none => s
    | some [] => s
    | some utf8Str => s.copy (utf8Str ++ [0])

/-! ## Lines -/

/-- The end of a line is found at the beginning of these bytes. -/
def foundEol (mEncoding : Encoding) (data : List UInt8) : Bool :=
  match mEncoding with
  | .AML_ENCODING_NONE | .AML_ENCODING_UTF8 => data.head? = some 10 || data.head? = some 0
  | .AML_ENCODING_UTF16BE => 4 < data.length && data.take 4 = [0, 13, 0, 10]
  | .AML_ENCODING_UTF16 => 4 < data.length && data.take 4 = [13, 0, 10, 0]
  | _ => false

/-- `lineBreakTagLen`. -/
def lineBreakTagLen (mEncoding : Encoding) : ℕ :=
  if mEncoding = .AML_ENCODING_UTF16BE ∨ mEncoding = .AML_ENCODING_UTF16 then 4 else 1

/-- Where the first end of a line is found. -/
def findEol (mEncoding : Encoding) : List UInt8 → Option ℕ
  | [] => none
  | c :: data =>
    if foundEol mEncoding (c :: data) then some 0 else (findEol mEncoding data).map (· + 1)

/-- `freeBuffer`. -/
def freeBuffer (r : Reader) : Reader :=
  { r with mBuffer := none, mBufferReadOffset := 0, mLastLineLen := 0 }

/-- The line is ended, and the carriage return before its end taken off. -/
def terminate (s : Memory) (dataLen : ℕ) : Memory :=
  let bytes := s.bytes.set dataLen 0
  match dataLen with
  | 0 => { before := if s.before = 13 then 0 else s.before, bytes := bytes }
  | n + 1 => { s with bytes := if bytes[n]? = some 13 then bytes.set n 0 else bytes }

/-- Step 3 of `getLine`: a line of `dataLen` bytes is given to the caller. -/
def returnLine (r : Reader) (s : Memory) (buffer : List UInt8) (readOffset dataLen : ℕ) :
    Option Memory × Reader :=
  let s := s.copy ((buffer.drop readOffset).take (dataLen + 1))
  let s := if 0 < dataLen then convertToUtf8 r.mEncoding s dataLen else s
  (some (terminate s dataLen),
    { r with
      mBuffer := some buffer
      mLastLineLen := dataLen + lineBreakTagLen r.mEncoding
      mBufferReadOffset := readOffset + dataLen + lineBreakTagLen r.mEncoding })

/-- The loop of `getLine`: the buffer is read from `readOffset` on, and where it has no
end of a line, what is left of it is moved to the front and more read behind it. -/
def findLine (r : Reader) (s : Memory) (buffer : List UInt8) (readOffset : ℕ)
    (source : List Chunk) : Option Memory × Reader :=
  match findEol r.mEncoding (buffer.drop readOffset) with
  | some dataLen => returnLine { r with mDataSource := source } s buffer readOffset dataLen
  | none =>
    if (buffer.drop readOffset).length ≥ LINE_LEN then
      (none, freeBuffer { r with mDataSource := source })
    else
      match source with
      | [] =>
        if buffer.drop readOffset ≠ [] then
          (some (s.copy (buffer.drop readOffset)), freeBuffer { r with mDataSource := [] })
        else
          (none, { r with
            mBuffer := some buffer
            mBufferReadOffset := readOffset
            mDataSource := [] })
      | chunk :: source =>
        findLine { r with mLastLineLen := 0 } s (buffer.drop readOffset ++ chunk.bytes) 0 source

/-- `getLine`: the caller's buffer, unless it returns a null pointer. -/
def getLine (r : Reader) (s : Memory) : Option Memory × Reader :=
  if r.mEncoding = .AML_ENCODING_UTF32 ∨ r.mEncoding = .AML_ENCODING_UTF32BE then (none, r)
  else
    match r.mBuffer, r.mDataSource with
    | some [], _ => (none, r)
    | some buffer, source => findLine r s buffer r.mBufferReadOffset source
    | none, [] =>
      (none, { r with mBuffer := some [], mBufferReadOffset := 0, mLastLineLen := 0 })
    | none, chunk :: source =>
      findLine { r with mLastLineLen := 0 } s chunk.bytes 0 source

end ExtSubStreamReader
end AmlSubtitle
