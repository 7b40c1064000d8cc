import AmlSubtitle.Utils.RingBuffer
import AmlSubtitle.Lib.Words

/-!
# Calls on a ring buffer

`RingBuffer` says what one operation does to the contents.  Here the operations
are called in any order, with the caller's own count, and every `memcpy` they
make is written down: its offset in the caller's memory, its offset in the
backing array and its length.

* `overCount` is the `int over` of the source in 32-bit arithmetic;
  `overCount_eq` says that it is exact even where `pos + count` wraps.
* `gather_copies` and `scatter_copies` execute the copies and find the
  `copyOut` and `copyIn` of `RingBuffer`.
* `refines_fifo`: after any sequence of calls every further call behaves as a
  bounded queue of bytes does.
-/

namespace AmlSubtitle
namespace RingBuffer

open Circular Words

/-- One `memcpy` between the caller's memory and the backing array. -/
structure Memcpy where
  user : ℤ
  array : ℤ
  size : ℕ
  deriving DecidableEq

/-- The copy stays inside `count` bytes of the caller's and inside the array. -/
def Memcpy.Inside (m : Memcpy) (size count : ℕ) : Prop :=
  0 ≤ m.user ∧ m.user + m.size ≤ count ∧ 0 ≤ m.array ∧ m.array + m.size ≤ size

/-- `int over = pos + count - rbuf->buffer_size`. -/
def overCount (size pos count : ℕ) : ℤ := asSigned 32 (asSigned 32 (pos + count) - size)

/-- The `memcpy` calls that move `count` bytes at position `pos`; their lengths
are converted to `size_t`. -/
def copies (size pos count : ℕ) : List Memcpy :=
  let over' := overCount size pos count
  if 0 < over' then
    [⟨0, pos, asUnsigned 64 (asSigned 32 (count - over'))⟩,
      ⟨asSigned 32 (count - over'), 0, asUnsigned 64 over'⟩]
  else
    [⟨0, pos, asUnsigned 64 count⟩]

/-- Copies out of the backing array into the caller's memory `dst`. -/
def gather (buffer : List UInt8) (ms : List Memcpy) (dst : List UInt8) : List UInt8 :=
  ms.foldl (fun d m => blit d m.user.toNat ((buffer.drop m.array.toNat).take m.size)) dst

/-- Copies of the caller's memory `src` into the backing array. -/
def scatter (src : List UInt8) (ms : List Memcpy) (buffer : List UInt8) : List UInt8 :=
  ms.foldl (fun b m => blit b m.array.toNat ((src.drop m.user.toNat).take m.size)) buffer

/-! ## The copies -/

section Copies

variable {size pos count : ℕ}

/-- The two subtractions are exact modulo `2 ^ 32`, and the difference fits. -/
theorem overCount_eq (hsize : size < 2 ^ 31) (hpos : pos ≤ size) (hcount : count ≤ size) :
    overCount size pos count = pos + count - size := by
  have hwrap : overCount size pos count = asSigned 32 (pos + count - size) := by
    unfold overCount asSigned
    exact Int.bmod_sub_bmod ..
  rw [hwrap, asSigned_eq (by omega) (by omega)]

/-- Where the source leaves a position: at `over` when that is positive. -/
theorem advance_eq_overCount (hsize : size < 2 ^ 31) (hpos : pos ≤ size) (hcount : count ≤ size) :
    (advance size pos count : ℤ) =
      if 0 < overCount size pos count then overCount size pos count else pos + count := by
  rw [overCount_eq hsize hpos hcount, advance]
  split_ifs <;> omega

theorem copies_of_lt (hsize : size < 2 ^ 31) (hpos : pos ≤ size) (hcount : count ≤ size)
    (h : size < pos + count) :
    copies size pos count =
      [⟨0, pos, size - pos⟩, ⟨(size - pos : ℕ), 0, pos + count - size⟩] := by
  have hover := overCount_eq hsize hpos hcount
  have hfirst : (count : ℤ) - (pos + count - size) = (size - pos : ℕ) := by omega
  have hsecond : (pos + count - size : ℤ) = (pos + count - size : ℕ) := by omega
  simp only [copies]
  rw [hover, if_pos (by omega), hfirst, hsecond, asSigned_of_lt (by omega),
    asUnsigned_of_lt (by omega), asUnsigned_of_lt (by omega)]

theorem copies_of_le (hsize : size < 2 ^ 31) (hpos : pos ≤ size) (hcount : count ≤ size)
    (h : pos + count ≤ size) : copies size pos count = [⟨0, pos, count⟩] := by
  have hover := overCount_eq hsize hpos hcount
  simp only [copies]
  rw [hover, if_neg (by omega), asUnsigned_of_lt (by omega)]

/-- Every copy stays inside the array, also from a position equal to its size. -/
theorem inside_of_mem_copies (hsize : size < 2 ^ 31) (hpos : pos ≤ size) (hcount : count ≤ size)
    {m : Memcpy} (hm : m ∈ copies size pos count) : m.Inside size count := by
  rcases Nat.lt_or_ge size (pos + count) with h | h
  · rw [copies_of_lt hsize hpos hcount h] at hm
    rcases List.mem_pair.mp hm with rfl | rfl <;> simp only [Memcpy.Inside] <;> omega
  · rw [copies_of_le hsize hpos hcount h] at hm
    rw [List.mem_singleton.mp hm]
    simp only [Memcpy.Inside]
    omega

/-- Executing the copies of a read fills the caller's memory with `copyOut`. -/
theorem gather_copies {buffer dst : List UInt8} {pos : ℕ} (hsize : buffer.length < 2 ^ 31)
    (hpos : pos ≤ buffer.length) (hdst : dst.length ≤ buffer.length) :
    gather buffer (copies buffer.length pos dst.length) dst = copyOut buffer pos dst.length := by
  rcases Nat.lt_or_ge buffer.length (pos + dst.length) with h | h
  · have hfirst : dst.length - (pos + dst.length - buffer.length) = buffer.length - pos := by omega
    have hlen : (buffer.drop pos).length = buffer.length - pos := List.length_drop
    have hdrop : (buffer.drop pos).take (buffer.length - pos) = buffer.drop pos :=
      List.take_of_length_le hlen.le
    have hend : (buffer.drop pos ++ dst.drop (buffer.length - pos)).drop (buffer.length - pos +
        (buffer.take (pos + dst.length - buffer.length)).length) = [] := by
      apply List.drop_of_length_le
      simp only [List.length_append, List.length_drop, List.length_take]
      omega
    rw [copies_of_lt hsize hpos hdst h, copyOut, if_pos h, hfirst]
    simp only [gather, List.foldl_cons, List.foldl_nil, Int.toNat_zero, Int.toNat_natCast,
      List.drop_zero, hdrop, blit, List.take_zero, List.nil_append, hlen, Nat.zero_add]
    rw [List.take_left' hlen, hend, List.append_nil]
  · have hlen : ((buffer.drop pos).take dst.length).length = dst.length := by
      rw [List.length_take, List.length_drop]
      omega
    rw [copies_of_le hsize hpos hdst h, copyOut, if_neg (by omega)]
    simp only [gather, List.foldl_cons, List.foldl_nil, Int.toNat_zero, Int.toNat_natCast, blit,
      List.take_zero, List.nil_append, hlen, Nat.zero_add]
    rw [List.drop_of_length_le le_rfl, List.append_nil]

/-- Executing the copies of a write changes the array as `copyIn` does. -/
theorem scatter_copies {buffer src : List UInt8} {pos : ℕ} (hsize : buffer.length < 2 ^ 31)
    (hpos : pos ≤ buffer.length) (hsrc : src.length ≤ buffer.length) :
    scatter src (copies buffer.length pos src.length) buffer = copyIn buffer pos src := by
  rcases Nat.lt_or_ge buffer.length (pos + src.length) with h | h
  · have hfirst : src.length - (pos + src.length - buffer.length) = buffer.length - pos := by omega
    have hsecond : (src.drop (buffer.length - pos)).take (pos + src.length - buffer.length) =
        src.drop (buffer.length - pos) :=
      List.take_of_length_le (by rw [List.length_drop]; omega)
    rw [copies_of_lt hsize hpos hsrc h, copyIn, if_pos h]
    simp only [scatter, List.foldl_cons, List.foldl_nil, Int.toNat_zero, Int.toNat_natCast,
      List.drop_zero, hsecond, hfirst]
  · rw [copies_of_le hsize hpos hsrc h, copyIn, if_neg (by omega)]
    simp only [scatter, List.foldl_cons, List.foldl_nil, Int.toNat_zero, Int.toNat_natCast,
      List.drop_zero, List.take_length]

end Copies

/-! ## Calls -/

/-- A call on the ring buffer: `src` is the caller's memory from the pointer on. -/
inductive Call where
  | write (src : List UInt8) (count : ℤ)
  | read (count : ℤ)
  | peek (count : ℤ)

/-- What the callers promise: a write names no more bytes than its memory holds, a
read or a peek passes the assertion. -/
def Call.Admissible (size : ℤ) : Call → Prop
  | .write src count => count ≤ src.length
  | .read count => count < size
  | .peek count => count < size

/-- What a call returns, stores at `dst` and copies. -/
structure Outcome where
  ret : ℕ
  bytes : List UInt8
  copies : List Memcpy

/-- The ring buffer with the bytes its writes have accepted and the bytes its reads
have returned. -/
structure Session where
  ring : RingBuffer
  accepted : List UInt8
  returned : List UInt8

namespace Session

/-- A fresh buffer. -/
def fresh (r : RingBuffer) : Session := ⟨r, [], []⟩

/-- The accepted bytes no read has returned yet. -/
def unread (s : Session) : List UInt8 := s.accepted.drop s.returned.length

/-- The count an operation settles on: none for a count that is not positive, and
at most `avail`. -/
def clamp (count : ℤ) (avail : ℕ) : ℕ :=
  if count ≤ 0 then 0 else if count.toNat < avail then count.toNat else avail

/-- The `memcpy` calls of an operation: none when it returns at once. -/
def moved (r : RingBuffer) (pos : ℕ) (count : ℤ) (avail : ℕ) : List Memcpy :=
  if count ≤ 0 then [] else copies r.bufferSize pos (clamp count avail)

/-- One call; `none` is a failing assertion. -/
def call (s : Session) : Call → Option (Session × Outcome)
  | .write src count =>
    let out := s.ring.ringbufferWrite (src.take count.toNat)
    some ({ s with ring := out.1, accepted := s.accepted ++ src.take out.2 },
      ⟨out.2, [], moved s.ring s.ring.writePos count s.ring.writeAvail⟩)
  | .read count =>
    (s.ring.ringbufferRead count).map fun out =>
      ({ s with ring := out.2, returned := s.returned ++ out.1 },
        ⟨out.1.length, out.1, moved s.ring s.ring.readPos count s.ring.readAvail⟩)
  | .peek count =>
    (s.ring.ringbufferPeek count).map fun out =>
      (s, ⟨out.length, out, moved s.ring s.ring.readPos count s.ring.readAvail⟩)

/-- A sequence of calls. -/
def run (s : Session) (calls : List Call) : Option Session :=
  calls.foldlM (fun s c => (s.call c).map Prod.fst) s

/-- What a call on a bounded queue of `size` bytes does. -/
def Conforms (size : ℕ) (s : Session) (c : Call) (s' : Session) (o : Outcome) : Prop :=
  match c with
  | .write src count =>
    o.ret = min count.toNat (size - s.unread.length) ∧
      s'.accepted = s.accepted ++ src.take o.ret ∧ s'.returned = s.returned
  | .read count =>
    o.ret = min count.toNat s.unread.length ∧ o.bytes = s.unread.take o.ret ∧
      s'.accepted = s.accepted ∧ s'.returned = s.returned ++ o.bytes
  | .peek count =>
    o.ret = min count.toNat s.unread.length ∧ o.bytes = s.unread.take o.ret ∧ s' = s

/-- The ring buffer holds the unread bytes, of a buffer of `size` bytes. -/
structure Holds (size : ℕ) (s : Session) : Prop where
  size_eq : s.ring.bufferSize = size
  accepted_eq : s.accepted = s.returned ++ s.ring.contents

theorem Holds.unread_eq {size : ℕ} {s : Session} (h : s.Holds size) :
    s.unread = s.ring.contents := by
  rw [unread, h.accepted_eq, List.drop_left]

/-! ## One call -/

section Clamp

variable {count : ℤ} {avail : ℕ}

theorem clamp_eq : clamp count avail = min count.toNat avail := by
  unfold clamp
  split_ifs <;> omega

theorem inside_of_mem_moved {r : RingBuffer} {pos : ℕ} (hsize : r.bufferSize < 2 ^ 31)
    (hpos : pos ≤ r.bufferSize) (havail : avail ≤ r.bufferSize) {m : Memcpy}
    (hm : m ∈ moved r pos count avail) : m.Inside r.bufferSize (clamp count avail) := by
  unfold moved at hm
  split at hm
  · cases hm
  · exact inside_of_mem_copies hsize hpos (by rw [clamp_eq]; omega) hm

/-- The copies of a read or a peek deliver the bytes of the model. -/
theorem gather_moved {r : RingBuffer} {dst : List UInt8} (hsize : r.bufferSize < 2 ^ 31)
    (hdst : dst.length = clamp count r.readAvail) :
    gather r.buffer (moved r r.readPos count r.readAvail) dst =
      r.contents.take (clamp count r.readAvail) := by
  have hle := r.readAvail_le
  have hlen := r.length_buffer
  have hbound : clamp count r.readAvail ≤ r.readAvail := by rw [clamp_eq]; omega
  have hout : copyOut r.buffer r.readPos dst.length = r.contents.take dst.length := by
    rw [← r.copyOut_buffer dst.length, ite_lt_eq_min, min_eq_left (by omega)]
  unfold moved
  split
  · rename_i hneg
    have hnil : clamp count r.readAvail = 0 := by rw [clamp_eq]; omega
    rw [hnil, List.take_zero]
    exact List.length_eq_zero_iff.mp (hdst.trans hnil)
  · rw [← hdst, ← hlen, gather_copies (by omega) (by rw [hlen]; exact r.readPos_le) (by omega),
      hout]

/-- The copies of a write leave the array of the model. -/
theorem scatter_moved {r : RingBuffer} {src : List UInt8} (hsize : r.bufferSize < 2 ^ 31)
    (hsrc : src.length = clamp count r.writeAvail) :
    scatter src (moved r r.writePos count r.writeAvail) r.buffer =
      copyIn r.buffer r.writePos src := by
  have hadd := r.avail_add
  have hlen := r.length_buffer
  have hbound : clamp count r.writeAvail ≤ r.writeAvail := by rw [clamp_eq]; omega
  unfold moved
  split
  · rename_i hneg
    have hnil : clamp count r.writeAvail = 0 := by rw [clamp_eq]; omega
    rw [List.length_eq_zero_iff.mp (hsrc.trans hnil), copyIn, if_neg]
    · simp [scatter, blit]
    · have := r.writePos_le
      simpa [hlen] using this
  · rw [← hsrc, ← hlen, scatter_copies (by omega) (by rw [hlen]; exact r.writePos_le) (by omega)]

end Clamp

/-- What the `memcpy` calls of an operation did. -/
def Copied (s : Session) (c : Call) (s' : Session) (o : Outcome) : Prop :=
  match c with
  | .write src _ => s'.ring.buffer = scatter (src.take o.ret) o.copies s.ring.buffer
  | .read _ | .peek _ => ∀ dst, dst.length = o.ret → gather s.ring.buffer o.copies dst = o.bytes

variable {size : ℕ} {s : Session}

/-- The number of bytes a write takes. -/
theorem ringbufferWrite_snd (r : RingBuffer) {src : List UInt8} {count : ℤ}
    (h : count ≤ src.length) :
    (r.ringbufferWrite (src.take count.toNat)).2 = clamp count r.writeAvail := by
  have hlen : (src.take count.toNat).length = count.toNat := by
    rw [List.length_take]
    omega
  show (if _ < _ then _ else _) = _
  rw [ite_lt_eq_min, hlen, clamp_eq]

theorem call_write (hs : s.Holds size) (hsize : size < 2 ^ 31) {src : List UInt8} {count : ℤ}
    (hc : count ≤ src.length) :
    ∃ s' o, s.call (.write src count) = some (s', o) ∧ Conforms size s (.write src count) s' o ∧
      s.Copied (.write src count) s' o ∧ (∀ m ∈ o.copies, m.Inside size o.ret) ∧
      s'.Holds size := by
  have hadd := s.ring.avail_add
  have hsz := hs.size_eq
  have hret := ringbufferWrite_snd s.ring hc
  have hn : clamp count s.ring.writeAvail = min count.toNat s.ring.writeAvail := clamp_eq
  have htake : (src.take count.toNat).take s.ring.writeAvail =
      src.take (clamp count s.ring.writeAvail) := by
    rw [List.take_take, hn, Nat.min_comm]
  have hpush := congrArg Fifo.items (s.ring.toFifo_ringbufferWrite (src.take count.toNat))
  rw [Fifo.push_items, toFifo_free, toFifo_items, toFifo_items, htake] at hpush
  refine ⟨_, _, rfl, ⟨?_, rfl, rfl⟩, ?_, ?_, ⟨hsz, ?_⟩⟩
  · rw [hs.unread_eq, length_contents, hret, hn]
    show min count.toNat s.ring.writeAvail = min count.toNat (size - s.ring.readAvail)
    omega
  · show (s.ring.ringbufferWrite (src.take count.toNat)).1.buffer = _
    have hlen : (src.take (clamp count s.ring.writeAvail)).length =
        clamp count s.ring.writeAvail := by
      rw [List.length_take]
      omega
    have hbuf : (s.ring.ringbufferWrite (src.take count.toNat)).1.buffer =
        copyIn s.ring.buffer s.ring.writePos
          ((src.take count.toNat).take (s.ring.ringbufferWrite (src.take count.toNat)).2) := rfl
    rw [hbuf, hret, scatter_moved (by omega) hlen, List.take_take, hn,
      min_eq_left (by omega : min count.toNat s.ring.writeAvail ≤ count.toNat)]
  · intro m hm
    show m.Inside size (s.ring.ringbufferWrite (src.take count.toNat)).2
    rw [hret, ← hsz]
    exact inside_of_mem_moved (by omega) s.ring.writePos_le (by omega) hm
  · show s.accepted ++ src.take (s.ring.ringbufferWrite (src.take count.toNat)).2 = _
    rw [hret, hpush, hs.accepted_eq, List.append_assoc]

/-- What a read and a peek have in common: the bytes they store. -/
theorem peek_spec (hs : s.Holds size) (hsize : size < 2 ^ 31) (count : ℤ) {bytes : List UInt8}
    (hbytes : bytes = s.ring.toFifo.peek count.toNat) :
    bytes.length = min count.toNat s.unread.length ∧ bytes = s.unread.take bytes.length ∧
      (∀ dst, dst.length = bytes.length →
        gather s.ring.buffer (moved s.ring s.ring.readPos count s.ring.readAvail) dst = bytes) ∧
      ∀ m ∈ moved s.ring s.ring.readPos count s.ring.readAvail, m.Inside size bytes.length := by
  have hsz := hs.size_eq
  have hle := s.ring.readAvail_le
  rw [Fifo.peek, toFifo_items] at hbytes
  have hlen : bytes.length = clamp count s.ring.readAvail := by
    rw [hbytes, List.length_take, length_contents, clamp_eq]
  have htake : bytes = s.ring.contents.take bytes.length := by
    rw [hbytes, List.length_take, List.take_eq_take_iff]
    omega
  refine ⟨?_, ?_, ?_, ?_⟩
  · rw [hlen, hs.unread_eq, length_contents, clamp_eq]
  · rw [hs.unread_eq]
    exact htake
  · intro dst hdst
    rw [gather_moved (by omega) (hdst.trans hlen), ← hlen, ← htake]
  · intro m hm
    rw [hlen, ← hsz]
    exact inside_of_mem_moved (by omega) s.ring.readPos_le (by omega) hm

theorem call_read (hs : s.Holds size) (hsize : size < 2 ^ 31) {count : ℤ}
    (hc : count < size) :
    ∃ s' o, s.call (.read count) = some (s', o) ∧ Conforms size s (.read count) s' o ∧
      s.Copied (.read count) s' o ∧ (∀ m ∈ o.copies, m.Inside size o.ret) ∧ s'.Holds size := by
  have hsz := hs.size_eq
  have hcount : count < s.ring.bufferSize := by omega
  obtain ⟨r', hr', hpop⟩ := ringbufferRead_eq hcount
  obtain ⟨hlen, htake, hgather, hinside⟩ := peek_spec hs hsize count rfl
  have hcap := congrArg Fifo.cap hpop
  have hitems := congrArg Fifo.items hpop
  rw [toFifo_cap, Fifo.pop_cap, toFifo_cap] at hcap
  rw [toFifo_items, Fifo.pop_items, toFifo_items] at hitems
  rw [call, hr', Option.map_some]
  refine ⟨_, _, rfl, ⟨hlen, htake, rfl, rfl⟩, hgather, hinside, ⟨hcap.trans hsz, ?_⟩⟩
  show s.accepted = (s.returned ++ s.ring.contents.take count.toNat) ++ r'.contents
  rw [hitems, List.append_assoc, List.take_append_drop, hs.accepted_eq]

theorem call_peek (hs : s.Holds size) (hsize : size < 2 ^ 31) {count : ℤ}
    (hc : count < size) :
    ∃ s' o, s.call (.peek count) = some (s', o) ∧ Conforms size s (.peek count) s' o ∧
      s.Copied (.peek count) s' o ∧ (∀ m ∈ o.copies, m.Inside size o.ret) ∧ s'.Holds size := by
  have hsz := hs.size_eq
  have hcount : count < s.ring.bufferSize := by omega
  have hpeek := ringbufferPeek_eq hcount
  obtain ⟨hlen, htake, hgather, hinside⟩ := peek_spec hs hsize count rfl
  rw [call, hpeek, Option.map_some]
  exact ⟨_, _, rfl, ⟨hlen, htake, rfl⟩, hgather, hinside, hs⟩

/-- **One call.**  Every admissible call succeeds, does what a bounded queue does,
and copies inside the array. -/
theorem call_conforms (hs : s.Holds size) (hsize : size < 2 ^ 31) {c : Call}
    (hc : c.Admissible size) :
    ∃ s' o, s.call c = some (s', o) ∧ Conforms size s c s' o ∧ s.Copied c s' o ∧
      (∀ m ∈ o.copies, m.Inside size o.ret) ∧ s'.Holds size := by
  cases c with
  | write src count => exact call_write hs hsize hc
  | read count => exact call_read hs hsize hc
  | peek count => exact call_peek hs hsize hc

/-! ## All calls -/

/-- A run of admissible calls succeeds and keeps the unread bytes in the ring. -/
theorem run_holds (hs : s.Holds size) (hsize : size < 2 ^ 31) {calls : List Call}
    (hcalls : ∀ c ∈ calls, c.Admissible size) : ∃ s', s.run calls = some s' ∧ s'.Holds size := by
  induction calls generalizing s with
  | nil => exact ⟨s, rfl, hs⟩
  | cons c calls ih =>
    obtain ⟨s₁, o, hcall, -, -, -, hs₁⟩ := call_conforms hs hsize (hcalls c List.mem_cons_self)
    obtain ⟨s', hrun, hs'⟩ := ih hs₁ fun c' hc' => hcalls c' (List.mem_cons_of_mem c hc')
    refine ⟨s', ?_, hs'⟩
    rw [run, List.foldlM_cons, hcall]
    exact hrun

theorem holds_fresh {size : ℤ} {r : RingBuffer} (h : ringbufferCreate size = some r) :
    (fresh r).Holds size.toNat := by
  have hfifo := toFifo_ringbufferCreate h
  have hcap := congrArg Fifo.cap hfifo
  have hitems := congrArg Fifo.items hfifo
  exact ⟨hcap, hitems.symm⟩

end Session

/-- **`ringbuffer` is a bounded queue of bytes.**  From a fresh buffer of any positive
size, any sequence of calls succeeds; afterwards the two fill counters add up to the
size, and every further call accepts, returns or shows exactly the bytes a queue
would, through copies inside the backing array. -/
theorem refines_fifo {size : ℤ} (hpos : 0 < size) (hint : size < 2 ^ 31) {calls : List Call}
    (hcalls : ∀ c ∈ calls, c.Admissible size) :
    ∃ r s, ringbufferCreate size = some r ∧ (Session.fresh r).run calls = some s ∧
      (s.ring.readAvail + s.ring.writeAvail : ℤ) = size ∧
      s.ring.readAvail = s.unread.length ∧
      ∀ c : Call, c.Admissible size → ∃ s' o, s.call c = some (s', o) ∧
        s.Conforms size.toNat c s' o ∧ s.Copied c s' o ∧
        ∀ m ∈ o.copies, m.Inside size.toNat o.ret := by
  have hsize : (size.toNat : ℤ) = size := Int.toNat_of_nonneg hpos.le
  obtain ⟨r, hr⟩ := Option.isSome_iff_exists.mp (isSome_ringbufferCreate hpos)
  have hall : ∀ c ∈ calls, c.Admissible size.toNat := by
    rw [hsize]
    exact hcalls
  obtain ⟨s, hrun, hs⟩ := Session.run_holds (Session.holds_fresh hr) (by omega) hall
  have hadd := s.ring.avail_add
  have hsz := hs.size_eq
  refine ⟨r, s, hr, hrun, by omega, by rw [hs.unread_eq, length_contents], fun c hc => ?_⟩
  obtain ⟨s', o, hcall, hconf, hcopied, hinside, -⟩ :=
    Session.call_conforms hs (by omega) (c := c) (by rw [hsize]; exact hc)
  exact ⟨s', o, hcall, hconf, hcopied, hinside⟩

theorem refines_fifo_two : ∃ r s, ringbufferCreate 2 = some r ∧
    (Session.fresh r).run [.write [7, 8, 9] 3, .read 1] = some s ∧
      (s.ring.readAvail + s.ring.writeAvail : ℤ) = 2 ∧ s.ring.readAvail = s.unread.length ∧
      ∀ c : Call, c.Admissible 2 → ∃ s' o, s.call c = some (s', o) ∧ s.Conforms 2 c s' o ∧
        s.Copied c s' o ∧ ∀ m ∈ o.copies, m.Inside 2 o.ret :=
  refines_fifo (by decide) (by decide) (by
    intro c hc
    rcases List.mem_pair.mp hc with rfl | rfl <;> simp [Call.Admissible])

end RingBuffer
end AmlSubtitle
