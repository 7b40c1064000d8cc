import AmlSubtitle.Lib.Circular
import AmlSubtitle.Lib.Fifo

/-!
# `utils/ringbuffer.c`

The byte ring buffer between a message queue or a socket and its consumer.  The
fields are those of `ringbuffer_t`; the handle checks (`magic`, null pointers)
and the unused `mode` argument are left out.  What the three operations keep
true of the positions and the two fill counters is part of the structure, so an
inconsistent ring buffer cannot be built.

`ringbuffer_read` and `ringbuffer_peek` assert `count < buffer_size`; a failing
assertion is the result `none`.  A position may equal the size of the buffer:
the code moves it back to the start only when it would pass the end.

`toFifo` is what the ring buffer is for, a bounded queue of bytes, and
`toFifo_ringbufferWrite`, `ringbufferPeek_eq`, `toFifo_ringbufferRead` say that
the three operations are those of the queue.
-/

namespace AmlSubtitle

open Circular

/-- `ringbuffer_t`, with what its operations keep true of it. -/
structure RingBuffer where
  buffer : List UInt8
  bufferSize : ℕ
  readPos : ℕ
  writePos : ℕ
  readAvail : ℕ
  writeAvail : ℕ
  size_pos : 0 < bufferSize
  length_buffer : buffer.length = bufferSize
  readPos_le : readPos ≤ bufferSize
  writePos_le : writePos ≤ bufferSize
  avail_add : readAvail + writeAvail = bufferSize
  writePos_mod : writePos % bufferSize = (readPos + readAvail) % bufferSize

namespace RingBuffer

/-- `ringbuffer_create`.  The backing array comes from `malloc`; its first
contents are never read. -/
def ringbufferCreate (size : ℤ) : Option RingBuffer :=
  if h : size ≤ 0 then
    none
  else
    some {
      buffer := List.replicate size.toNat 0
      bufferSize := size.toNat
      readPos := 0
      writePos := 0
      readAvail := 0
      writeAvail := size.toNat
      size_pos := by omega
      length_buffer := List.length_replicate
      readPos_le := Nat.zero_le _
      writePos_le := Nat.zero_le _
      avail_add := Nat.zero_add _
      writePos_mod := rfl }

theorem isSome_ringbufferCreate {size : ℤ} (h : 0 < size) : (ringbufferCreate size).isSome := by
  rw [ringbufferCreate, dif_neg (by omega)]
  rfl

/-- The bytes in use, oldest first. -/
def contents (r : RingBuffer) : List UInt8 := (r.buffer.rotate r.readPos).take r.readAvail

theorem readAvail_le (r : RingBuffer) : r.readAvail ≤ r.bufferSize := by
  have := r.avail_add
  omega

@[simp] theorem length_contents (r : RingBuffer) : r.contents.length = r.readAvail := by
  rw [contents, List.length_take, List.length_rotate, r.length_buffer]
  exact min_eq_left r.readAvail_le

/-- `ringbuffer_write` of the bytes `src`: the ring buffer afterwards and the
number of bytes it took. -/
def ringbufferWrite (r : RingBuffer) (src : List UInt8) : RingBuffer × ℕ :=
  let count := if src.length < r.writeAvail then src.length else r.writeAvail
  have hcount : count ≤ src.length ∧ count ≤ r.writeAvail := by
    simp only [count]
    split <;> omega
  have hlen : (src.take count).length = count := by
    rw [List.length_take]
    omega
  have hadd := r.avail_add
  ({ r with
      buffer := copyIn r.buffer r.writePos (src.take count)
      writePos := advance r.bufferSize r.writePos count
      writeAvail := r.writeAvail - count
      readAvail := r.readAvail + count
      length_buffer := by
        rw [length_copyIn (by rw [r.length_buffer]; exact r.writePos_le)
          (by rw [r.length_buffer]; omega), r.length_buffer]
      writePos_le := advance_le r.writePos_le (by omega)
      avail_add := by omega
      writePos_mod := by
        rw [advance_mod, ← Nat.add_assoc, Nat.add_mod, r.writePos_mod, ← Nat.add_mod] },
    count)

/-- `ringbuffer_peek`: the bytes copied to `dst`. -/
def ringbufferPeek (r : RingBuffer) (count : ℤ) : Option (List UInt8) :=
  if count < r.bufferSize then
    if count ≤ 0 then
      some []
    else
      let count := if count.toNat < r.readAvail then count.toNat else r.readAvail
      some (copyOut r.buffer r.readPos count)
  else
    none

/-- `ringbuffer_read`: the bytes copied to `dst` and the ring buffer afterwards. -/
def ringbufferRead (r : RingBuffer) (count : ℤ) : Option (List UInt8 × RingBuffer) :=
  if count < r.bufferSize then
    if count ≤ 0 then
      some ([], r)
    else
      let count := if count.toNat < r.readAvail then count.toNat else r.readAvail
      have hcount : count ≤ r.readAvail := by
        simp only [count]
        split <;> omega
      have hadd := r.avail_add
      some (copyOut r.buffer r.readPos count,
        { r with
          readPos := advance r.bufferSize r.readPos count
          writeAvail := r.writeAvail + count
          readAvail := r.readAvail - count
          readPos_le := advance_le r.readPos_le (by omega)
          avail_add := by omega
          writePos_mod := by
            rw [r.writePos_mod, Nat.add_mod, Nat.add_mod (advance _ _ _), advance_mod,
              ← Nat.add_mod, ← Nat.add_mod]
            congr 1
            omega })
  else
    none

/-! ## The queue of bytes -/

/-- The ring buffer as a bounded queue of bytes. -/
def toFifo (r : RingBuffer) : Fifo UInt8 where
  cap := r.bufferSize
  items := r.contents
  bounded := by
    rw [r.length_contents]
    exact r.readAvail_le

@[simp] theorem toFifo_cap (r : RingBuffer) : r.toFifo.cap = r.bufferSize := rfl

@[simp] theorem toFifo_items (r : RingBuffer) : r.toFifo.items = r.contents := rfl

@[simp] theorem toFifo_free (r : RingBuffer) : r.toFifo.free = r.writeAvail := by
  have := r.avail_add
  rw [Fifo.free, toFifo_cap, toFifo_items, length_contents]
  omega

theorem toFifo_ringbufferCreate {size : ℤ} {r : RingBuffer} (h : ringbufferCreate size = some r) :
    r.toFifo = Fifo.empty size.toNat := by
  unfold ringbufferCreate at h
  split at h
  · exact absurd h (by simp)
  · rw [← Option.some.inj h]
    exact Fifo.ext rfl (by simp [contents])

/-- The source's way of writing the smaller of two counts. -/
theorem ite_lt_eq_min (a b : ℕ) : (if a < b then a else b) = min a b := by
  split <;> omega

/-- **A write is a push.** -/
theorem toFifo_ringbufferWrite (r : RingBuffer) (src : List UInt8) :
    (r.ringbufferWrite src).1.toFifo = r.toFifo.push src := by
  have hadd := r.avail_add
  refine Fifo.ext rfl ?_
  rw [Fifo.push_items, toFifo_free, toFifo_items, toFifo_items]
  set n := if src.length < r.writeAvail then src.length else r.writeAvail with hn
  have hn' : n = min src.length r.writeAvail := by rw [hn, ite_lt_eq_min]
  have htake : src.take n = src.take r.writeAvail := by
    rw [hn', Nat.min_comm, ← List.take_take, List.take_length]
  have hlen : (src.take n).length = n := by rw [List.length_take]; omega
  show ((copyIn r.buffer r.writePos (src.take n)).rotate r.readPos).take (r.readAvail + n) = _
  have happend : ((copyIn r.buffer r.writePos (src.take n)).rotate r.readPos).take
      (r.readAvail + (src.take n).length) = (r.buffer.rotate r.readPos).take r.readAvail ++
        src.take n :=
    take_rotate_copyIn (by rw [r.length_buffer]; exact r.writePos_le)
      (by rw [r.length_buffer]; exact r.writePos_mod) (by rw [r.length_buffer]; omega)
  rw [hlen] at happend
  rw [happend, htake, contents]

/-- What the source copies out is a prefix of the contents. -/
theorem copyOut_buffer (r : RingBuffer) (n : ℕ) :
    copyOut r.buffer r.readPos (if n < r.readAvail then n else r.readAvail) =
      r.contents.take n := by
  have hle := r.readAvail_le
  rw [ite_lt_eq_min, copyOut_eq (by rw [r.length_buffer]; exact r.readPos_le)
    (by rw [r.length_buffer]; omega), contents, List.take_take]

/-- **A peek is a peek.** -/
theorem ringbufferPeek_eq {r : RingBuffer} {count : ℤ} (h : count < r.bufferSize) :
    r.ringbufferPeek count = some (r.toFifo.peek count.toNat) := by
  rw [ringbufferPeek, if_pos h, Fifo.peek, toFifo_items]
  split
  · rename_i hneg
    rw [Int.toNat_of_nonpos hneg, List.take_zero]
  · simp only [copyOut_buffer]

/-- **A read is a peek and a pop.** -/
theorem ringbufferRead_eq {r : RingBuffer} {count : ℤ} (h : count < r.bufferSize) :
    ∃ r', r.ringbufferRead count = some (r.toFifo.peek count.toNat, r') ∧
      r'.toFifo = r.toFifo.pop count.toNat := by
  rw [ringbufferRead, if_pos h]
  split
  · rename_i hneg
    rw [Int.toNat_of_nonpos hneg]
    exact ⟨r, rfl, Fifo.ext rfl (by simp)⟩
  · refine ⟨_, Option.some_inj.mpr (Prod.ext (r.copyOut_buffer _) rfl), ?_⟩
    refine Fifo.ext rfl ?_
    set n := if count.toNat < r.readAvail then count.toNat else r.readAvail with hn
    have hn' : n = min count.toNat r.readAvail := by rw [hn, ite_lt_eq_min]
    show (r.buffer.rotate (advance r.bufferSize r.readPos n)).take (r.readAvail - n) =
      r.contents.drop count.toNat
    rw [← r.length_buffer, take_rotate_advance (by rw [r.length_buffer]; exact r.readAvail_le)
      (by omega), ← contents]
    rcases Nat.le_total count.toNat r.readAvail with hle | hle
    · rw [hn', min_eq_left hle]
    · rw [hn', min_eq_right hle, List.drop_of_length_le (by simp),
        List.drop_of_length_le (by simpa using hle)]

/-- A failing assertion is a read of at least the size of the buffer. -/
theorem ringbufferRead_eq_none {r : RingBuffer} {count : ℤ} :
    r.ringbufferRead count = none ↔ (r.bufferSize : ℤ) ≤ count := by
  constructor
  · intro h
    by_contra hlt
    obtain ⟨r', hr', -⟩ := ringbufferRead_eq (r := r) (not_le.mp hlt)
    rw [hr'] at h
    exact absurd h (by simp)
  · intro h
    rw [ringbufferRead, if_neg (by omega)]

end RingBuffer
end AmlSubtitle
