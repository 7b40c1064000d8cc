import AmlSubtitle.Ipc.FmqReceiver

/-!
# `ipc/SocketServer.cpp`: the loop of a connection

`SubSocketServer::clientConnected` reads a connection and hands the packages on it
to the registered listener.  The model is of the loop with a listener that stays
registered and takes what it is handed, and with `mExitRequested` false: `recv` is
one round, on what one call of `recv` returned.  A round appends the bytes to a ring
buffer and then handles at most one package: where `FmqReceiver::readLoop` goes on
until the ring buffer holds no complete package, this loop goes back to `recv`.

A round without bytes changes nothing.  The packages are those of `IpcDataTypes`; a
package may have any type word, and two of them ask the server to close the
connection.
-/

namespace AmlSubtitle
namespace SocketServer

open Words

/-- The state of `clientConnected`; `curHeader` is there while `pendingByData`. -/
structure State where
  ring : RingBuffer
  curHeader : Option IpcPackageHeader
  delivered : List (List UInt8)
  closed : Bool
  aborted : Bool

/-- The header from the sixteen bytes behind the sync word, which is not kept. -/
def parseRest (buffer : List UInt8) : IpcPackageHeader where
  syncWord := 0
  sessionId := asSigned 32 (peekAsSocketWord buffer)
  magicWord := asSigned 32 (peekAsSocketWord (buffer.drop 4))
  dataSize := asSigned 32 (peekAsSocketWord (buffer.drop 8))
  pkgType := asSigned 32 (peekAsSocketWord (buffer.drop 12))

/-- `'XEDC'`. -/
def xedc : ℕ := 0x58454443

/-- The exit request, in either byte order. -/
def exitRequested (curHeader : IpcPackageHeader) : Prop :=
  curHeader.pkgType = asSigned 32 PayloadType.exitServer.code ∨ curHeader.pkgType = asSigned 32 xedc

instance (curHeader : IpcPackageHeader) : Decidable (exitRequested curHeader) :=
  inferInstanceAs (Decidable (_ ∨ _))

/-- The second half of a round: the package `curHeader` heads is handed on when all of
it is in the ring buffer, and waited for when not. -/
def processData (s : State) (curHeader : IpcPackageHeader) : State :=
  if s.ring.readAvail ≥ curHeader.dataSize then
    match FmqReceiver.malloc (curHeader.dataSize + 4) with
    | none => { s with curHeader := some curHeader }
    | some _ =>
      match s.ring.ringbufferRead curHeader.dataSize with
      | none => { s with aborted := true }
      | some (data, ring) =>
        { s with
          ring := ring
          curHeader := none
          delivered := s.delivered ++ [FmqReceiver.package curHeader data] }
  else
    { s with curHeader := some curHeader }

/-- What a round does with the ring buffer. -/
def process (s : State) : State :=
  match s.curHeader with
  | some curHeader => processData s curHeader
  | none =>
    if s.ring.readAvail < sizeofIpcPackageHeader then
      s
    else
      match s.ring.ringbufferRead 4 with
      | none => { s with aborted := true }
      | some (buffer, ring) =>
        if peekAsSocketWord buffer ≠ START_FLAG then
          { s with ring := ring }
        else
          match ring.ringbufferRead (sizeofIpcPackageHeader - 4) with
          | none => { s with ring := ring, aborted := true }
          | some (buffer, ring) =>
            if exitRequested (parseRest buffer) then
              { s with ring := ring, closed := true }
            else
              processData { s with ring := ring } (parseRest buffer)

/-- The bytes of one `recv` go into the ring buffer. -/
def fill (s : State) (chunk : List UInt8) : State :=
  { s with ring := (s.ring.ringbufferWrite chunk).1 }

/-- One round of the loop. -/
def recv (s : State) (chunk : List UInt8) : State :=
  if s.closed ∨ s.aborted ∨ chunk = [] then s else process (fill s chunk)

/-- The size of the ring buffer of a connection. -/
def socketBufferSize : ℤ := 512 * 1024

/-- `ringbuffer_create(512*1024, "socket_buffer")`, when it succeeds. -/
def socketBuffer : RingBuffer :=
  (RingBuffer.ringbufferCreate socketBufferSize).get
    (RingBuffer.isSome_ringbufferCreate (by decide))

@[simp] theorem socketBuffer_bufferSize : socketBuffer.bufferSize = 524288 := rfl

theorem socketBuffer_contents : socketBuffer.contents = [] := by
  have hcreate : RingBuffer.ringbufferCreate socketBufferSize = some socketBuffer :=
    (Option.some_get _).symm
  exact congrArg Fifo.items (RingBuffer.toFifo_ringbufferCreate hcreate)

/-- The size of `recvBuf`. -/
def recvBufSize : ℕ := 1024

/-- A connection, before its first round. -/
def start : State := ⟨socketBuffer, none, [], false, false⟩

/-- `clientConnected` on the results of `recv`. -/
def clientConnected (chunks : List (List UInt8)) : State := chunks.foldl recv start

theorem clientConnected_append_singleton (chunks : List (List UInt8)) (chunk : List UInt8) :
    clientConnected (chunks ++ [chunk]) = recv (clientConnected chunks) chunk := by
  rw [clientConnected, List.foldl_append]
  rfl

/-! ## Packages -/

/-- A package on the wire. -/
structure Package where
  sessionId : ℤ
  pkgType : ℕ
  payload : List UInt8
  type_lt : pkgType < 256 ^ 4

namespace Package

/-- The bytes of the header behind the sync word. -/
def rest (m : Package) : List UInt8 :=
  leBytes 4 (asUnsigned 32 m.sessionId) ++ leBytes 4 MAGIC_FLAG ++
    leBytes 4 m.payload.length ++ leBytes 4 m.pkgType

/-- The bytes of the package. -/
def wire (m : Package) : List UInt8 := leBytes 4 START_FLAG ++ m.rest ++ m.payload

/-- The bytes `onData` is to get: the type, then the payload. -/
def delivery (m : Package) : List UInt8 := leBytes 4 m.pkgType ++ m.payload

/-- The header the server parses. -/
def header (m : Package) : IpcPackageHeader := parseRest m.rest

/-- The package asks for the connection to be closed. -/
def IsExit (m : Package) : Prop := m.pkgType = PayloadType.exitServer.code ∨ m.pkgType = xedc

instance (m : Package) : Decidable m.IsExit := inferInstanceAs (Decidable (_ ∨ _))

@[simp] theorem length_rest (m : Package) : m.rest.length = 16 := by
  simp [rest]

theorem length_wire (m : Package) : m.wire.length = 20 + m.payload.length := by
  simp only [wire, List.length_append, length_rest, length_leBytes]

@[simp] theorem length_delivery (m : Package) : m.delivery.length = 4 + m.payload.length := by
  rw [delivery, List.length_append, length_leBytes]

theorem dataSize_header {m : Package} (h : m.payload.length < 2 ^ 31) :
    m.header.dataSize = m.payload.length := by
  have hdrop : m.rest.drop 8 = leBytes 4 m.payload.length ++ leBytes 4 m.pkgType := by
    simp [rest, List.drop_append, List.drop_eq_nil_of_le]
  simp only [header, parseRest]
  rw [hdrop, peekAsSocketWord_leBytes (by omega), asSigned_of_lt (by omega)]

theorem pkgType_header (m : Package) : m.header.pkgType = asSigned 32 m.pkgType := by
  have hdrop : m.rest.drop 12 = leBytes 4 m.pkgType ++ [] := by
    simp [rest, List.drop_append, List.drop_eq_nil_of_le]
  simp only [header, parseRest]
  rw [hdrop, peekAsSocketWord_leBytes m.type_lt]

/-- Type words are told apart by their readings as an `int`. -/
theorem exitRequested_header (m : Package) : exitRequested m.header ↔ m.IsExit := by
  have hinj : ∀ n : ℕ, n < 2 ^ 32 → (asSigned 32 m.pkgType = asSigned 32 n ↔ m.pkgType = n) := by
    intro n hn
    constructor
    · intro h
      rw [← asUnsigned_asSigned (show m.pkgType < 2 ^ 32 from m.type_lt), h,
        asUnsigned_asSigned hn]
    · intro h
      rw [h]
  unfold exitRequested IsExit
  rw [pkgType_header, hinj _ (by decide), hinj _ (by decide)]

theorem package_header {m : Package} (h : m.payload.length < 2 ^ 31) :
    FmqReceiver.package m.header m.payload = m.delivery := by
  rw [FmqReceiver.package, pkgType_header, asUnsigned_asSigned (show m.pkgType < 2 ^ 32 from
    m.type_lt), dataSize_header h, List.take_of_length_le (by simp; omega)]
  rfl

end Package

/-! ## One round -/

variable {s : State} {m : Package} {rest : List UInt8}

theorem contents_fill (s : State) (chunk : List UInt8) :
    (fill s chunk).ring.contents = s.ring.contents ++ chunk.take s.ring.writeAvail := by
  rw [← RingBuffer.toFifo_free]
  exact congrArg Fifo.items (RingBuffer.toFifo_ringbufferWrite s.ring chunk)

/-- A package that is complete is handed on. -/
theorem processData_of_le (hm : m.payload.length < s.ring.bufferSize)
    (hsize : s.ring.bufferSize < 2 ^ 31) (h : s.ring.contents = m.payload ++ rest) :
    ∃ ring, processData s m.header = { s with
        ring := ring, curHeader := none, delivered := s.delivered ++ [m.delivery] } ∧
      ring.contents = rest ∧ ring.bufferSize = s.ring.bufferSize := by
  have hdata := Package.dataSize_header (m := m) (by omega)
  have havail : s.ring.readAvail = m.payload.length + rest.length := by
    rw [← RingBuffer.length_contents, h, List.length_append]
  have hcount : (m.payload.length : ℤ) < s.ring.bufferSize := by omega
  obtain ⟨ring, hread, hcontents, hbuf⟩ := FmqReceiver.read_spec hcount
  rw [Int.toNat_natCast, h, List.take_left] at hread
  rw [Int.toNat_natCast, h, List.drop_left] at hcontents
  refine ⟨ring, ?_, hcontents, hbuf⟩
  rw [processData, hdata, if_pos (by omega), FmqReceiver.malloc_of_nonneg (by omega)]
  dsimp only
  rw [hread]
  dsimp only
  rw [Package.package_header (by omega)]

/-- A package that is not complete is waited for. -/
theorem processData_of_lt (hm : m.payload.length < 2 ^ 31)
    (h : s.ring.readAvail < m.payload.length) :
    processData s m.header = { s with curHeader := some m.header } := by
  have hdata := Package.dataSize_header hm
  rw [processData, hdata, if_neg (by omega)]

theorem process_of_pending (h : s.curHeader = some m.header) :
    process s = processData s m.header := by
  rw [process, h]

theorem process_of_lt (h : s.curHeader = none) (hlt : s.ring.readAvail < sizeofIpcPackageHeader) :
    process s = s := by
  rw [process, h]
  dsimp only
  rw [if_pos hlt]

/-- A header is taken off the ring buffer. -/
theorem process_header (h : s.curHeader = none)
    (hcontents : s.ring.contents = leBytes 4 START_FLAG ++ m.rest ++ rest)
    (hsize : sizeofIpcPackageHeader < s.ring.bufferSize) :
    ∃ ring, process s = (if m.IsExit then { s with ring := ring, closed := true }
        else processData { s with ring := ring } m.header) ∧
      ring.contents = rest ∧ ring.bufferSize = s.ring.bufferSize := by
  rw [sizeofIpcPackageHeader] at hsize
  have havail : s.ring.readAvail = 20 + rest.length := by
    rw [← RingBuffer.length_contents, hcontents]
    simp only [List.length_append, length_leBytes, Package.length_rest]
  have hfour : (4 : ℤ) < s.ring.bufferSize := by omega
  obtain ⟨r₁, hread₁, hcontents₁, hbuf₁⟩ := FmqReceiver.read_spec hfour
  rw [show (4 : ℤ).toNat = 4 from rfl, hcontents, List.append_assoc] at hread₁ hcontents₁
  rw [List.take_left' (length_leBytes 4 _)] at hread₁
  rw [List.drop_left' (length_leBytes 4 _)] at hcontents₁
  have hsixteen : (sizeofIpcPackageHeader - 4 : ℤ) < r₁.bufferSize := by
    rw [sizeofIpcPackageHeader]
    omega
  obtain ⟨r₂, hread₂, hcontents₂, hbuf₂⟩ := FmqReceiver.read_spec hsixteen
  have h16 : (sizeofIpcPackageHeader - 4 : ℤ).toNat = 16 := rfl
  rw [h16, hcontents₁] at hread₂ hcontents₂
  rw [List.take_left' m.length_rest] at hread₂
  rw [List.drop_left' m.length_rest] at hcontents₂
  have hsync : peekAsSocketWord (leBytes 4 START_FLAG) = START_FLAG := by
    have := peekAsSocketWord_leBytes (show START_FLAG < 256 ^ 4 by decide) []
    rwa [List.append_nil] at this
  refine ⟨r₂, ?_, hcontents₂, hbuf₂.trans hbuf₁⟩
  rw [process, h]
  dsimp only
  rw [if_neg (by rw [sizeofIpcPackageHeader]; omega), hread₁]
  dsimp only
  rw [if_neg (not_not.mpr hsync), hread₂]
  have hheader : parseRest m.rest = m.header := rfl
  dsimp only
  rw [hheader]
  by_cases hexit : m.IsExit
  · rw [if_pos hexit, if_pos ((Package.exitRequested_header m).mpr hexit)]
  · rw [if_neg hexit, if_neg (mt (Package.exitRequested_header m).mp hexit)]

end SocketServer
end AmlSubtitle
