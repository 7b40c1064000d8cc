import AmlSubtitle.Ipc.IpcDataTypes
import AmlSubtitle.Lib.Run
import AmlSubtitle.Utils.RingBuffer

/-!
# `ipc/FmqReceiver.cpp`: the reading loop

`FmqReceiver::readLoop` moves what the message queue holds into a ring buffer of
its own and then takes packages off the ring buffer.  The model is of the loop
with a registered client and `mStop` false: the loop reads when it has nothing
left to consume (`fill`, one read of the queue), and otherwise makes one pass of
its inner loop (`consumeStep`).  `consumeStep` is `none` where the inner loop is
left, by its condition or by the `break` on a package that is not complete.

Beside the ring buffer the state records what the loop has done to the outside:
the calls of the listener's `onData` and the pieces of the stream it has thrown
away, in order; every copy it has made into a payload buffer; and whether an
`assert` of the ring buffer has failed.

`frameStep` is one pass of the inner loop on the bytes alone, and
`consumeStep_eq` says that the loop does to its ring buffer what `frameStep` does
to the ring buffer's contents.
-/

namespace AmlSubtitle
namespace FmqReceiver

open Words

/-- A copy of `length` bytes to `offset` in a payload buffer of `allocated`
bytes. -/
structure PayloadCopy where
  allocated : ℕ
  offset : ℕ
  length : ℕ
  deriving DecidableEq, Repr

/-- The copy stays inside the buffer. -/
def PayloadCopy.InBounds (c : PayloadCopy) : Prop := c.offset + c.length ≤ c.allocated

instance (c : PayloadCopy) : Decidable c.InBounds :=
  inferInstanceAs (Decidable (c.offset + c.length ≤ c.allocated))

/-- What one pass of the inner loop does with the bytes it takes: it hands a
package to `onData`, or throws the bytes away. -/
inductive Event where
  | delivered (data : List UInt8)
  | skipped (bytes : List UInt8)
  deriving DecidableEq, Repr

/-- The state of `readLoop`. -/
structure State where
  ring : RingBuffer
  events : List Event
  copies : List PayloadCopy
  aborted : Bool

/-- The packages handed to the listener, oldest first. -/
def State.delivered (s : State) : List (List UInt8) :=
  s.events.filterMap fun
    | .delivered data => some data
    | .skipped _ => none

/-- `malloc` of a size that was computed as an `int`: a negative size becomes a
`size_t` no allocator grants. -/
def malloc (size : ℤ) : Option ℕ := if 0 ≤ size then some size.toNat else none

theorem malloc_of_nonneg {size : ℤ} (h : 0 ≤ size) : malloc size = some size.toNat := if_pos h

theorem malloc_of_neg {size : ℤ} (h : size < 0) : malloc size = none := if_neg (by omega)

/-- The resync test: neither flag is where a header has it. -/
def wrongSync (buffer : List UInt8) : Prop :=
  peekAsSocketWord buffer ≠ START_FLAG ∧ peekAsSocketWord (buffer.drop 8) ≠ MAGIC_FLAG

instance (buffer : List UInt8) : Decidable (wrongSync buffer) :=
  inferInstanceAs (Decidable (_ ∧ _))

/-- The bytes of the package handed to `onData`, whose length argument is
`dataSize + 4`. -/
def package (curHeader : IpcPackageHeader) (data : List UInt8) : List UInt8 :=
  (leBytes 4 (asUnsigned 32 curHeader.pkgType) ++ data).take (curHeader.dataSize + 4).toNat

/-- The rest of a pass once a package is complete in the ring buffer: the header is
eaten, and the payload is read into a buffer of its own and handed to `onData`. -/
def takePackage (s : State) (curHeader : IpcPackageHeader) : State :=
  match s.ring.ringbufferRead sizeofIpcPackageHeader with
  | none => { s with aborted := true }
  | some (bytes, ring) =>
    match malloc (curHeader.dataSize + 4) with
    | none => { s with ring := ring, events := s.events ++ [.skipped bytes] }
    | some allocated =>
      match ring.ringbufferRead curHeader.dataSize with
      | none => { s with ring := ring, aborted := true }
      | some (data, ring) =>
        { s with
          ring := ring
          events := s.events ++ [.delivered (package curHeader data)]
          copies := s.copies ++ [⟨allocated, 0, 4⟩, ⟨allocated, 4, data.length⟩] }

/-- The resync: four bytes are thrown away. -/
def resync (s : State) : State :=
  match s.ring.ringbufferRead 4 with
  | none => { s with aborted := true }
  | some (bytes, ring) => { s with ring := ring, events := s.events ++ [.skipped bytes] }

/-- One pass of the inner loop; `none` when the loop is left. -/
def consumeStep (s : State) : Option State :=
  if s.aborted then
    none
  else if s.ring.readAvail > sizeofIpcPackageHeader then
    match s.ring.ringbufferPeek sizeofIpcPackageHeader with
    | none => some { s with aborted := true }
    | some buffer =>
      if wrongSync buffer then
        some (resync s)
      -- the sum is a `size_t`: a negative `dataSize` wraps
      else if s.ring.readAvail <
          asUnsigned 64 (sizeofIpcPackageHeader + (parseHeader buffer).dataSize) then
        none
      else
        some (takePackage s (parseHeader buffer))
  else
    none

/-- The inner loop.  Every pass takes bytes off the ring buffer, so the number of
bytes in it bounds the number of passes. -/
def consumeLoop : ℕ → State → State
  | 0, s => s
  | n + 1, s =>
    match consumeStep s with
    | none => s
    | some s' => consumeLoop n s'

/-- One read of the message queue: what it held goes into the ring buffer. -/
def fill (s : State) (chunk : List UInt8) : State :=
  if chunk = [] then s else { s with ring := (s.ring.ringbufferWrite chunk).1 }

/-- One pass of the outer loop, with `chunk` in the message queue. -/
def pass (s : State) (chunk : List UInt8) : State :=
  consumeLoop (fill s chunk).ring.readAvail (fill s chunk)

/-- The state before the first pass, with a ring buffer just created. -/
def start (ring : RingBuffer) : State := ⟨ring, [], [], false⟩

/-- The outer loop on a ring buffer just created, reading the chunks one after the
other. -/
def readFrom (ring : RingBuffer) (chunks : List (List UInt8)) : State :=
  chunks.foldl pass (start ring)

/-- The size `readLoop` creates its ring buffer with. -/
def fmqbufferSize : ℤ := 1024 * 1024

/-- `ringbuffer_create(1024*1024, "fmqbuffer")`, when it succeeds. -/
def fmqbuffer : RingBuffer :=
  (RingBuffer.ringbufferCreate fmqbufferSize).get (RingBuffer.isSome_ringbufferCreate (by decide))

@[simp] theorem fmqbuffer_bufferSize : fmqbuffer.bufferSize = 1048576 := rfl

theorem fmqbuffer_contents : fmqbuffer.contents = [] := by
  have hcreate : RingBuffer.ringbufferCreate fmqbufferSize = some fmqbuffer :=
    (Option.some_get _).symm
  exact congrArg Fifo.items (RingBuffer.toFifo_ringbufferCreate hcreate)

/-- `FmqReceiver::readLoop`. -/
def readLoop (chunks : List (List UInt8)) : State := readFrom fmqbuffer chunks

/-! ## One pass on the bytes alone -/

/-- What one pass does to the contents of the ring buffer. -/
structure Taken where
  event : Event
  copies : List PayloadCopy
  rest : List UInt8

/-- What the loop takes when the package at the front of `bytes` is complete. -/
def takenPackage (curHeader : IpcPackageHeader) (bytes : List UInt8) : Taken :=
  if curHeader.dataSize + 4 < 0 then
    ⟨.skipped (bytes.take sizeofIpcPackageHeader), [], bytes.drop sizeofIpcPackageHeader⟩
  else
    let data := (bytes.drop sizeofIpcPackageHeader).take curHeader.dataSize.toNat
    let allocated := (curHeader.dataSize + 4).toNat
    ⟨.delivered (package curHeader data), [⟨allocated, 0, 4⟩, ⟨allocated, 4, data.length⟩],
      bytes.drop (sizeofIpcPackageHeader + curHeader.dataSize.toNat)⟩

/-- What the loop takes when it resyncs. -/
def takenResync (bytes : List UInt8) : Taken := ⟨.skipped (bytes.take 4), [], bytes.drop 4⟩

/-- The number of bytes the loop waits for before it takes the package `curHeader`
heads. -/
def needed (curHeader : IpcPackageHeader) : ℕ :=
  asUnsigned 64 (sizeofIpcPackageHeader + curHeader.dataSize)

/-- One pass of the inner loop on the bytes in the ring buffer. -/
def frameStep (bytes : List UInt8) : Option Taken :=
  if bytes.length > sizeofIpcPackageHeader then
    if wrongSync (bytes.take sizeofIpcPackageHeader) then
      some (takenResync bytes)
    else if bytes.length < needed (parseHeader (bytes.take sizeofIpcPackageHeader)) then
      none
    else
      some (takenPackage (parseHeader (bytes.take sizeofIpcPackageHeader)) bytes)
  else
    none

/-- The state after a pass that took `t`, apart from the ring buffer. -/
structure Follows (s s' : State) (t : Taken) : Prop where
  contents : s'.ring.contents = t.rest
  size : s'.ring.bufferSize = s.ring.bufferSize
  events : s'.events = s.events ++ [t.event]
  copies : s'.copies = s.copies ++ t.copies
  aborted : s'.aborted = false

theorem read_spec {r : RingBuffer} {count : ℤ} (h : count < r.bufferSize) :
    ∃ r', r.ringbufferRead count = some (r.contents.take count.toNat, r') ∧
      r'.contents = r.contents.drop count.toNat ∧ r'.bufferSize = r.bufferSize := by
  obtain ⟨r', hread, hfifo⟩ := RingBuffer.ringbufferRead_eq h
  exact ⟨r', hread, congrArg Fifo.items hfifo, congrArg Fifo.cap hfifo⟩

/-! ## One read of the message queue -/

theorem contents_fill (s : State) (chunk : List UInt8) :
    (fill s chunk).ring.contents = s.ring.contents ++ chunk.take s.ring.writeAvail := by
  by_cases h : chunk = []
  · rw [fill, if_pos h, h, List.take_nil, List.append_nil]
  · rw [fill, if_neg h, ← RingBuffer.toFifo_free]
    exact congrArg Fifo.items (RingBuffer.toFifo_ringbufferWrite s.ring chunk)

@[simp] theorem fill_bufferSize (s : State) (chunk : List UInt8) :
    (fill s chunk).ring.bufferSize = s.ring.bufferSize := by
  unfold fill
  split <;> rfl

@[simp] theorem fill_events (s : State) (chunk : List UInt8) :
    (fill s chunk).events = s.events := by
  unfold fill
  split <;> rfl

@[simp] theorem fill_copies (s : State) (chunk : List UInt8) :
    (fill s chunk).copies = s.copies := by
  unfold fill
  split <;> rfl

@[simp] theorem fill_aborted (s : State) (chunk : List UInt8) :
    (fill s chunk).aborted = s.aborted := by
  unfold fill
  split <;> rfl

theorem readFrom_append_singleton (ring : RingBuffer) (chunks : List (List UInt8))
    (chunk : List UInt8) :
    readFrom ring (chunks ++ [chunk]) = pass (readFrom ring chunks) chunk := by
  rw [readFrom, List.foldl_append]
  rfl

/-! ## One pass of the inner loop -/

theorem le_dataSize (buffer : List UInt8) : -2147483648 ≤ (parseHeader buffer).dataSize := by
  have h := le_asSigned 32 (peekAsSocketWord (buffer.drop 12))
  simp only [parseHeader]
  omega

theorem dataSize_lt (buffer : List UInt8) : (parseHeader buffer).dataSize < 2147483648 := by
  have h : 2 * asSigned 32 (peekAsSocketWord (buffer.drop 12)) < 2 ^ 32 := asSigned_lt 31 _
  simp only [parseHeader]
  omega

/-- A `dataSize` below `-20` asks for more bytes than there are. -/
theorem needed_parseHeader (buffer : List UInt8) :
    (needed (parseHeader buffer) : ℤ) =
      if (parseHeader buffer).dataSize < -20 then
        2 ^ 64 + (20 + (parseHeader buffer).dataSize)
      else 20 + (parseHeader buffer).dataSize := by
  have h₁ := le_dataSize buffer
  have h₂ := dataSize_lt buffer
  rw [needed, sizeofIpcPackageHeader]
  split
  · exact asUnsigned_of_neg (by omega) (by omega)
  · exact asUnsigned_of_nonneg (by omega) (by omega)

theorem resync_follows {s : State} (hs : s.aborted = false) (hsize : 4 < s.ring.bufferSize) :
    Follows s (resync s) (takenResync s.ring.contents) := by
  obtain ⟨r', hread, hcont, hbuf⟩ := read_spec (r := s.ring) (show (4 : ℤ) < _ by omega)
  rw [resync, hread]
  exact ⟨hcont, hbuf, rfl, (List.append_nil _).symm, hs⟩

theorem takePackage_follows {s : State} {curHeader : IpcPackageHeader} (hs : s.aborted = false)
    (hsize : sizeofIpcPackageHeader < s.ring.bufferSize)
    (hsmall : curHeader.dataSize < s.ring.bufferSize) :
    Follows s (takePackage s curHeader) (takenPackage curHeader s.ring.contents) := by
  obtain ⟨r', hread, hcont, hbuf⟩ := read_spec (r := s.ring)
    (show (sizeofIpcPackageHeader : ℤ) < _ by exact_mod_cast hsize)
  rw [Int.toNat_natCast] at hread hcont
  rw [takePackage, takenPackage, hread]
  by_cases halloc : curHeader.dataSize + 4 < 0
  · -- the allocation fails: the header is thrown away
    rw [malloc_of_neg halloc, if_pos halloc]
    exact ⟨hcont, hbuf, rfl, (List.append_nil _).symm, hs⟩
  · rw [malloc_of_nonneg (not_lt.mp halloc), if_neg halloc]
    obtain ⟨r'', hread', hcont', hbuf'⟩ := read_spec (r := r') (hbuf ▸ hsmall)
    rw [hcont] at hread' hcont'
    simp only [hread']
    exact ⟨by rw [hcont', List.drop_drop], hbuf'.trans hbuf, rfl, rfl, hs⟩

/-- What a pass can take. -/
theorem frameStep_cases {bytes : List UInt8} {t : Taken} (h : frameStep bytes = some t) :
    sizeofIpcPackageHeader < bytes.length ∧
      ((wrongSync (bytes.take sizeofIpcPackageHeader) ∧ t = takenResync bytes) ∨
        (¬ wrongSync (bytes.take sizeofIpcPackageHeader) ∧
          needed (parseHeader (bytes.take sizeofIpcPackageHeader)) ≤ bytes.length ∧
          t = takenPackage (parseHeader (bytes.take sizeofIpcPackageHeader)) bytes)) := by
  unfold frameStep at h
  by_cases hshort : bytes.length > sizeofIpcPackageHeader
  swap
  · rw [if_neg hshort] at h
    exact absurd h (by simp)
  rw [if_pos hshort] at h
  refine ⟨hshort, ?_⟩
  by_cases hsync : wrongSync (bytes.take sizeofIpcPackageHeader)
  · rw [if_pos hsync, Option.some_inj] at h
    exact Or.inl ⟨hsync, h.symm⟩
  rw [if_neg hsync] at h
  by_cases hwait : bytes.length < needed (parseHeader (bytes.take sizeofIpcPackageHeader))
  · rw [if_pos hwait] at h
    exact absurd h (by simp)
  · rw [if_neg hwait, Option.some_inj] at h
    exact Or.inr ⟨hsync, not_lt.mp hwait, h.symm⟩

/-- What the front of the bytes must look like for a pass to take something. -/
theorem exists_frameStep {bytes : List UInt8} (hshort : sizeofIpcPackageHeader < bytes.length)
    (h : wrongSync (bytes.take sizeofIpcPackageHeader) ∨
      needed (parseHeader (bytes.take sizeofIpcPackageHeader)) ≤ bytes.length) :
    ∃ t, frameStep bytes = some t := by
  unfold frameStep
  rw [if_pos hshort]
  by_cases hsync : wrongSync (bytes.take sizeofIpcPackageHeader)
  · exact ⟨_, if_pos hsync⟩
  · rw [if_neg hsync]
    exact ⟨_, if_neg (not_lt.mpr (h.resolve_left hsync))⟩

/-- In a ring buffer larger than a header the peek succeeds, and what is left of a
pass is its three branches. -/
theorem consumeStep_branches {s : State} (hs : s.aborted = false)
    (hsize : sizeofIpcPackageHeader < s.ring.bufferSize) :
    consumeStep s =
      if s.ring.readAvail > sizeofIpcPackageHeader then
        if wrongSync (s.ring.contents.take sizeofIpcPackageHeader) then
          some (resync s)
        else if s.ring.readAvail <
            needed (parseHeader (s.ring.contents.take sizeofIpcPackageHeader)) then
          none
        else
          some (takePackage s (parseHeader (s.ring.contents.take sizeofIpcPackageHeader)))
      else
        none := by
  have hpeek : s.ring.ringbufferPeek sizeofIpcPackageHeader =
      some (s.ring.contents.take sizeofIpcPackageHeader) :=
    RingBuffer.ringbufferPeek_eq (by exact_mod_cast hsize)
  rw [consumeStep, if_neg (by simp [hs]), hpeek]
  rfl

/-- **A pass of the inner loop is a pass on the bytes.**  In a ring buffer larger
than a header, no assertion fails and the loop takes what `frameStep` takes. -/
theorem consumeStep_eq {s : State} (hs : s.aborted = false)
    (hsize : sizeofIpcPackageHeader < s.ring.bufferSize) :
    (frameStep s.ring.contents = none ∧ consumeStep s = none) ∨
      ∃ t s', frameStep s.ring.contents = some t ∧ consumeStep s = some s' ∧ Follows s s' t := by
  have hle := s.ring.readAvail_le
  rw [consumeStep_branches hs hsize]
  unfold frameStep
  rw [RingBuffer.length_contents]
  by_cases hshort : s.ring.readAvail > sizeofIpcPackageHeader
  swap
  · exact Or.inl ⟨if_neg hshort, if_neg hshort⟩
  rw [if_pos hshort, if_pos hshort]
  by_cases hsync : wrongSync (s.ring.contents.take sizeofIpcPackageHeader)
  · rw [if_pos hsync, if_pos hsync]
    refine Or.inr ⟨_, _, rfl, rfl, resync_follows hs ?_⟩
    rw [sizeofIpcPackageHeader] at hsize
    omega
  rw [if_neg hsync, if_neg hsync]
  by_cases hwait : s.ring.readAvail <
      needed (parseHeader (s.ring.contents.take sizeofIpcPackageHeader))
  · exact Or.inl ⟨if_pos hwait, if_pos hwait⟩
  · rw [if_neg hwait, if_neg hwait]
    refine Or.inr ⟨_, _, rfl, rfl, takePackage_follows hs hsize ?_⟩
    -- a package that is complete in the ring buffer is smaller than the ring buffer
    have hneeded := needed_parseHeader (s.ring.contents.take sizeofIpcPackageHeader)
    split at hneeded <;> omega

/-! ## The whole inner loop -/

theorem consumeLoop_of_none {s : State} (h : consumeStep s = none) (fuel : ℕ) :
    consumeLoop fuel s = s := by
  cases fuel with
  | zero => rfl
  | succ fuel => rw [consumeLoop, h]

/-- What one pass preserves, the inner loop preserves. -/
theorem consumeLoop_invariant {I : State → Prop}
    (hstep : ∀ s s', I s → consumeStep s = some s' → I s') (fuel : ℕ) {s : State} (hs : I s) :
    I (consumeLoop fuel s) := by
  induction fuel generalizing s with
  | zero => exact hs
  | succ fuel ih =>
    rw [consumeLoop]
    split
    · exact hs
    · rename_i s' hs'
      exact ih (hstep s s' hs hs')

end FmqReceiver
end AmlSubtitle
