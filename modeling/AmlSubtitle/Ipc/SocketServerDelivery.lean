import AmlSubtitle.Ipc.FmqReceiverDelivery
import AmlSubtitle.Ipc.SocketServer

/-!
# Delivery of packages through `SubSocketServer::clientConnected`

TCP hands the stream of packages over in pieces of its own choosing.  A round of the
loop handles at most one package, so a package that ends in the same piece as the one
before it waits in the ring buffer for the bytes of a later one; and since the loop
ignores how much of a piece `ringbuffer_write` took, a piece that does not fit beside
what is waiting loses its tail.  A connection is over with the first exit request.

* `Along`: where the loop stands in the stream.  `along_recv` is one round,
  `along_clientConnected` all of them, as long as each piece ends at most one package
  and fits.
* `accounted_recv`: what the listener got and what is in the ring buffer never exceeds
  what the ring buffer took.
* `delivers_iff`: when every package has reached the listener as soon as its last byte
  has come in.
-/

namespace AmlSubtitle
namespace SocketServer

open Words
open FmqReceiver (streamBytes streamBytes_append)

/-- The stream of the packages sent one after the other. -/
def wires (ms : List Package) : List UInt8 := ms.flatMap Package.wire

/-- The packages wholly contained in the first `n` bytes of their stream. -/
def contained : List Package → ℕ → List Package
  | [], _ => []
  | m :: ms, n => if m.wire.length ≤ n then m :: contained ms (n - m.wire.length) else []

/-- The packages before the first exit request. -/
def beforeExit (ms : List Package) : List Package := ms.takeWhile fun m => ¬ m.IsExit

/-- The first exit request and what follows it. -/
def fromExit (ms : List Package) : List Package := ms.dropWhile fun m => ¬ m.IsExit

/-- **Delivery.**  Whatever part of the stream has come in, the listener has got every
package wholly contained in it, other than exit requests, once, in order and whole. -/
def Delivers (ms : List Package) (chunks : List (List UInt8)) : Prop :=
  ∀ pre, pre <+: chunks → (clientConnected pre).delivered =
    ((contained ms pre.flatten.length).filter fun m => ¬ m.IsExit).map Package.delivery

/-- Every piece ends at most one of the packages before the first exit request. -/
def OneEach (ms : List Package) (chunks : List (List UInt8)) : Prop :=
  ∀ pre chunk, pre ++ [chunk] <+: chunks →
    (contained (beforeExit ms) (pre.flatten.length + chunk.length)).length ≤
      (contained (beforeExit ms) pre.flatten.length).length + 1

/-- Every piece that comes in while a package before the first exit request is under way
fits: what has come in since the end of the last package before the piece is no more than
the ring buffer holds and the header that was taken off it. -/
def Fits (ms : List Package) (chunks : List (List UInt8)) : Prop :=
  ∀ pre chunk, pre ++ [chunk] <+: chunks →
    contained (beforeExit ms) pre.flatten.length ≠ beforeExit ms →
    pre.flatten.length + chunk.length ≤
      (wires (contained (beforeExit ms) pre.flatten.length)).length + socketBuffer.bufferSize +
        sizeofIpcPackageHeader

/-! ## The packages in a part of the stream -/

section Contained

variable {ms ms' : List Package} {m : Package} {n : ℕ}

@[simp] theorem wires_nil : wires [] = [] := rfl

@[simp] theorem wires_cons (m : Package) (ms : List Package) :
    wires (m :: ms) = m.wire ++ wires ms := rfl

@[simp] theorem wires_append (ms ms' : List Package) : wires (ms ++ ms') = wires ms ++ wires ms' :=
  List.flatMap_append

theorem contained_initial (ms : List Package) (n : ℕ) : contained ms n <+: ms := by
  induction ms generalizing n with
  | nil => exact List.prefix_rfl
  | cons m ms ih =>
    rw [contained]
    split
    · exact List.cons_prefix_cons.mpr ⟨rfl, ih _⟩
    · exact List.nil_prefix

/-- The packages contained in a part of the stream are those that end in it. -/
theorem contained_eq (hle : (wires ms).length ≤ n)
    (hlt : ∀ m ∈ ms'.head?, n < (wires ms).length + m.wire.length) :
    contained (ms ++ ms') n = ms := by
  induction ms generalizing n with
  | nil =>
    cases ms' with
    | nil => rfl
    | cons m ms' =>
      have := hlt m rfl
      rw [wires_nil, List.length_nil, Nat.zero_add] at this
      rw [List.nil_append, contained, if_neg (by omega)]
  | cons m ms ih =>
    rw [wires_cons, List.length_append] at hle hlt
    rw [List.cons_append, contained, if_pos (by omega), ih (by omega)]
    intro m' hm'
    have := hlt m' hm'
    omega

theorem contained_of_le (hle : (wires ms).length ≤ n) : contained ms n = ms := by
  have hnone : ∀ m ∈ ([] : List Package).head?, n < (wires ms).length + m.wire.length := by simp
  have hall := contained_eq hle hnone
  rwa [List.append_nil] at hall

theorem contained_append_of_le (hle : (wires ms).length ≤ n) (ms' : List Package) :
    contained (ms ++ ms') n = ms ++ contained ms' (n - (wires ms).length) := by
  induction ms generalizing n with
  | nil => rfl
  | cons m ms ih =>
    rw [wires_cons, List.length_append] at hle
    rw [List.cons_append, contained, if_pos (by omega), ih (by omega), wires_cons,
      List.length_append, Nat.sub_sub]
    rfl

theorem contained_append_of_lt (hlt : n < (wires ms).length) (ms' : List Package) :
    contained (ms ++ ms') n = contained ms n := by
  induction ms generalizing n with
  | nil => simp at hlt
  | cons m ms ih =>
    rw [wires_cons, List.length_append] at hlt
    rw [List.cons_append, contained, contained]
    split
    · rw [ih (by omega)]
    · rfl

/-- The packages up to the last one that ends in a part of the stream. -/
theorem prefix_contained (h : ms <+: ms') (hle : (wires ms).length ≤ n) :
    ms <+: contained ms' n := by
  obtain ⟨rest, rfl⟩ := h
  rw [contained_append_of_le hle]
  exact List.prefix_append _ _

end Contained

/-! ## Before and after the exit request -/

theorem beforeExit_append_fromExit (ms : List Package) : beforeExit ms ++ fromExit ms = ms :=
  List.takeWhile_append_dropWhile

theorem mem_of_beforeExit {ms : List Package} {m : Package} (h : m ∈ beforeExit ms) : m ∈ ms :=
  (List.takeWhile_prefix _).subset h

theorem not_isExit_of_mem {ms : List Package} {m : Package} (h : m ∈ beforeExit ms) :
    ¬ m.IsExit := by
  have hall := List.all_eq_true.mp (List.all_takeWhile (l := ms)) m h
  simpa using hall

theorem isExit_of_head {ms : List Package} {m : Package} (h : m ∈ (fromExit ms).head?) :
    m.IsExit := by
  have hhead := List.head?_dropWhile_not (fun m : Package => decide (¬ m.IsExit)) ms
  have hm : (ms.dropWhile fun m => decide (¬ m.IsExit)).head? = some m := h
  rw [hm] at hhead
  simpa using hhead

/-! ## The loop along the stream -/

/-- A connection that is open and has delivered `done`. -/
structure Alive (s : State) (done : List Package) : Prop where
  closed : s.closed = false
  aborted : s.aborted = false
  size : s.ring.bufferSize = socketBuffer.bufferSize
  delivered : s.delivered = done.map Package.delivery

/-- Where the loop stands when `n` bytes of the stream have come in: between two
packages, waiting for the payload of one, or behind the exit request. -/
inductive Along (ms : List Package) (n : ℕ) (s : State) : Prop where
  | between (done todo : List Package) (hms : beforeExit ms = done ++ todo) (alive : Alive s done)
      (header : s.curHeader = none)
      (contents : s.ring.contents ++ (wires ms).drop n = wires (todo ++ fromExit ms))
      (short : s.ring.readAvail < recvBufSize)
      (incomplete : ∀ m ∈ todo.head?, s.ring.readAvail < m.wire.length)
  | pending (done : List Package) (m : Package) (todo : List Package)
      (hms : beforeExit ms = done ++ m :: todo) (alive : Alive s done)
      (header : s.curHeader = some m.header)
      (contents : s.ring.contents ++ (wires ms).drop n =
        m.payload ++ wires (todo ++ fromExit ms))
      (incomplete : s.ring.readAvail < m.payload.length)
  | closed (closed : s.closed = true)
      (delivered : s.delivered = (beforeExit ms).map Package.delivery)
      (le : (wires (beforeExit ms)).length ≤ n)

section Along

variable {ms : List Package} {n : ℕ} {s : State} {done todo : List Package} {m : Package}

/-- The stream, cut behind the packages delivered. -/
theorem length_wires_eq (hms : beforeExit ms = done ++ todo) :
    (wires ms).length = (wires done).length + (wires (todo ++ fromExit ms)).length := by
  have hall : wires ms = wires (done ++ todo ++ fromExit ms) := by
    rw [← hms, beforeExit_append_fromExit]
  rw [hall, List.append_assoc, wires_append, List.length_append]

theorem readAvail_of_between (hms : beforeExit ms = done ++ todo) (hn : n ≤ (wires ms).length)
    (hcontents : s.ring.contents ++ (wires ms).drop n = wires (todo ++ fromExit ms)) :
    n = (wires done).length + s.ring.readAvail := by
  have hlen := congrArg List.length hcontents
  rw [List.length_append, RingBuffer.length_contents, List.length_drop] at hlen
  have hall := length_wires_eq hms
  omega

theorem readAvail_of_pending (hms : beforeExit ms = done ++ m :: todo)
    (hn : n ≤ (wires ms).length)
    (hcontents : s.ring.contents ++ (wires ms).drop n = m.payload ++ wires (todo ++ fromExit ms)) :
    n = (wires done).length + sizeofIpcPackageHeader + s.ring.readAvail := by
  have hlen := congrArg List.length hcontents
  rw [List.length_append, List.length_append, RingBuffer.length_contents,
    List.length_drop] at hlen
  have hall := length_wires_eq hms
  rw [List.cons_append, wires_cons, List.length_append, Package.length_wire] at hall
  rw [sizeofIpcPackageHeader]
  omega

/-- Between two packages what has come in contains the packages delivered. -/
theorem contained_of_between (hms : beforeExit ms = done ++ todo) (hn : n ≤ (wires ms).length)
    (hcontents : s.ring.contents ++ (wires ms).drop n = wires (todo ++ fromExit ms))
    (incomplete : ∀ m ∈ todo.head?, s.ring.readAvail < m.wire.length) :
    contained (beforeExit ms) n = done := by
  have hpos := readAvail_of_between hms hn hcontents
  rw [hms]
  refine contained_eq (by omega) fun m hm => ?_
  have := incomplete m hm
  omega

/-- The same when the payload of a package is waited for. -/
theorem contained_of_pending (hms : beforeExit ms = done ++ m :: todo)
    (hn : n ≤ (wires ms).length)
    (hcontents : s.ring.contents ++ (wires ms).drop n = m.payload ++ wires (todo ++ fromExit ms))
    (incomplete : s.ring.readAvail < m.payload.length) :
    contained (beforeExit ms) n = done := by
  have hpos := readAvail_of_pending hms hn hcontents
  rw [sizeofIpcPackageHeader] at hpos
  rw [hms]
  refine contained_eq (by omega) fun m' hm' => ?_
  rw [List.head?_cons, Option.mem_some_iff] at hm'
  rw [← hm', Package.length_wire]
  omega

/-- What is at the head of the stream is at the head of what has come in of it. -/
theorem split_of_append_eq {xs later a b : List UInt8} (h : xs ++ later = a ++ b)
    (hle : a.length ≤ xs.length) :
    xs = a ++ xs.drop a.length ∧ xs.drop a.length ++ later = b := by
  obtain ⟨c, rfl⟩ : a <+: xs :=
    List.prefix_of_prefix_length_le (List.prefix_append a b) ⟨later, h⟩ hle
  rw [List.append_assoc, List.append_cancel_left_eq] at h
  rw [List.drop_left]
  exact ⟨rfl, h⟩

/-- The packages delivered are those contained in what has come in. -/
theorem Along.delivered (h : Along ms n s) (hn : n ≤ (wires ms).length) :
    s.delivered = (contained (beforeExit ms) n).map Package.delivery := by
  cases h with
  | between done todo hms alive header contents short incomplete =>
    rw [alive.delivered, contained_of_between hms hn contents incomplete]
  | pending done m todo hms alive header contents incomplete =>
    rw [alive.delivered, contained_of_pending hms hn contents incomplete]
  | closed closed delivered le => rw [delivered, contained_of_le le]

/-- The second half of a round. -/
theorem along_processData (hm : m.wire.length ≤ socketBuffer.bufferSize)
    (hms : beforeExit ms = done ++ m :: todo) (alive : Alive s done)
    (hcontents : s.ring.contents ++ (wires ms).drop n = m.payload ++ wires (todo ++ fromExit ms))
    (hshort : s.ring.readAvail < m.payload.length + recvBufSize)
    (hnext : ∀ m' ∈ todo.head?, s.ring.readAvail < m.payload.length + m'.wire.length) :
    Along ms n (processData s m.header) := by
  rw [Package.length_wire, socketBuffer_bufferSize] at hm
  have hsize := alive.size
  rw [socketBuffer_bufferSize] at hsize
  rcases Nat.lt_or_ge s.ring.readAvail m.payload.length with hlt | hle
  · rw [processData_of_lt (by omega) hlt]
    exact .pending done m todo hms ⟨alive.closed, alive.aborted, alive.size, alive.delivered⟩ rfl
      hcontents hlt
  · obtain ⟨hsplit, hlater⟩ := split_of_append_eq hcontents (by
      rw [RingBuffer.length_contents]
      exact hle)
    obtain ⟨ring, hprocess, hring, hbuf⟩ := processData_of_le (by omega) (by omega) hsplit
    have havail : ring.readAvail = s.ring.readAvail - m.payload.length := by
      rw [← RingBuffer.length_contents, hring, List.length_drop, RingBuffer.length_contents]
    rw [hprocess]
    refine .between (done ++ [m]) todo (by rw [hms, List.append_cons]) ?_ rfl ?_ ?_ ?_
    · refine ⟨alive.closed, alive.aborted, hbuf.trans alive.size, ?_⟩
      rw [List.map_append, ← alive.delivered]
      rfl
    · exact hring ▸ hlater
    · change ring.readAvail < recvBufSize
      omega
    · intro m' hm'
      have := hnext m' hm'
      change ring.readAvail < m'.wire.length
      omega

/-- With a header in the ring buffer, the next package of the stream is headed by it. -/
theorem header_of_contents {later : List UInt8} (hle : sizeofIpcPackageHeader ≤ s.ring.readAvail)
    (h : s.ring.contents ++ (wires ms).drop n = m.wire ++ later) :
    s.ring.contents = leBytes 4 START_FLAG ++ m.rest ++
        s.ring.contents.drop sizeofIpcPackageHeader ∧
      s.ring.contents.drop sizeofIpcPackageHeader ++ (wires ms).drop n = m.payload ++ later := by
  have hlen : (leBytes 4 START_FLAG ++ m.rest).length = sizeofIpcPackageHeader := by
    rw [List.length_append, length_leBytes, Package.length_rest, sizeofIpcPackageHeader]
  rw [Package.wire, List.append_assoc] at h
  have hsplit := split_of_append_eq h (by
    rw [hlen, RingBuffer.length_contents]
    exact hle)
  rwa [hlen] at hsplit

/-- A round that starts between two packages, on bytes that end at most one. -/
theorem along_process (hfit : ∀ m ∈ ms, m.wire.length ≤ socketBuffer.bufferSize)
    (hms : beforeExit ms = done ++ todo) (alive : Alive s done) (header : s.curHeader = none)
    (hcontents : s.ring.contents ++ (wires ms).drop n = wires (todo ++ fromExit ms))
    (hshort : ∀ m ∈ todo.head?, s.ring.readAvail < m.wire.length + recvBufSize)
    (hnext : ∀ m ∈ todo.head?, ∀ m' ∈ todo.tail.head?,
      s.ring.readAvail < m.wire.length + m'.wire.length)
    (hn : n ≤ (wires ms).length) : Along ms n (process s) := by
  have hsize := alive.size
  rw [socketBuffer_bufferSize] at hsize
  rcases Nat.lt_or_ge s.ring.readAvail sizeofIpcPackageHeader with hlt | hle
  · rw [process_of_lt header hlt]
    rw [sizeofIpcPackageHeader] at hlt
    refine .between done todo hms alive header hcontents (by rw [recvBufSize]; omega) ?_
    intro m _
    rw [Package.length_wire]
    omega
  -- the header of the next package is there
  cases todo with
  | cons m todo =>
    rw [List.cons_append, wires_cons] at hcontents
    obtain ⟨hhere, hbody⟩ := header_of_contents hle hcontents
    obtain ⟨ring, hprocess, hring, hbuf⟩ := process_header header hhere
      (by rw [sizeofIpcPackageHeader]; omega)
    have hbefore : m ∈ beforeExit ms := by
      rw [hms]
      simp
    have hexit := not_isExit_of_mem hbefore
    have hmem := mem_of_beforeExit hbefore
    have havail : ring.readAvail = s.ring.readAvail - sizeofIpcPackageHeader := by
      rw [← RingBuffer.length_contents, hring, List.length_drop, RingBuffer.length_contents]
    rw [← hring] at hbody
    have hfirst := hshort m rfl
    rw [Package.length_wire] at hfirst
    rw [sizeofIpcPackageHeader] at havail hle
    rw [hprocess, if_neg hexit]
    refine along_processData (hfit m hmem) hms ⟨alive.closed, alive.aborted, hbuf.trans alive.size,
      alive.delivered⟩ hbody ?_ ?_
    · change ring.readAvail < _
      omega
    · intro m' hm'
      have := hnext m rfl m' hm'
      rw [Package.length_wire] at this
      change ring.readAvail < _
      omega
  | nil =>
    rw [List.append_nil] at hms
    have hnil : beforeExit ms = done ++ [] := by rw [List.append_nil, hms]
    have hpos := readAvail_of_between hnil hn hcontents
    cases hrs : fromExit ms with
    | nil =>
      rw [hrs] at hcontents
      have hlen := congrArg List.length hcontents
      rw [List.length_append, RingBuffer.length_contents] at hlen
      rw [sizeofIpcPackageHeader] at hle
      simp at hlen
      omega
    | cons m rs =>
      rw [hrs, List.nil_append, wires_cons] at hcontents
      obtain ⟨ring, hprocess, -, -⟩ := process_header header
        (header_of_contents hle hcontents).1
        (by rw [sizeofIpcPackageHeader]; omega)
      have hfirst : m ∈ (fromExit ms).head? := by
        rw [hrs]
        rfl
      have hexit := isExit_of_head hfirst
      rw [hprocess, if_pos hexit]
      exact .closed rfl (by rw [hms]; exact alive.delivered) (by rw [hms]; omega)

/-- What a piece that ends at most one package leaves of the package behind that one. -/
theorem lt_of_one (hms : beforeExit ms = done ++ m :: todo) {n' : ℕ}
    (hone : (contained (beforeExit ms) n').length ≤ done.length + 1) :
    ∀ m' ∈ todo.head?, n' < (wires done).length + m.wire.length + m'.wire.length := by
  intro m' hm'
  by_contra hge
  rw [List.eq_cons_of_mem_head? hm'] at hms
  have htwo : done ++ [m, m'] <+: contained (beforeExit ms) n' := by
    refine prefix_contained ?_ ?_
    · rw [hms]
      exact ⟨todo.tail, by simp⟩
    · simp only [wires_append, wires_cons, wires_nil, List.length_append, List.length_nil]
      omega
  have hlen := htwo.length_le
  rw [List.length_append, List.length_cons, List.length_singleton] at hlen
  omega

theorem fill_of_le {chunk : List UInt8} (h : chunk.length ≤ s.ring.writeAvail) :
    (fill s chunk).ring.contents = s.ring.contents ++ chunk ∧
      (fill s chunk).ring.readAvail = s.ring.readAvail + chunk.length := by
  have hcontents : (fill s chunk).ring.contents = s.ring.contents ++ chunk := by
    rw [contents_fill, List.take_of_length_le h]
  refine ⟨hcontents, ?_⟩
  rw [← RingBuffer.length_contents, hcontents, List.length_append, RingBuffer.length_contents]

theorem fill_bufferSize (s : State) (chunk : List UInt8) :
    (fill s chunk).ring.bufferSize = s.ring.bufferSize :=
  congrArg Fifo.cap (RingBuffer.toFifo_ringbufferWrite s.ring chunk)

theorem Alive.fill (h : Alive s done) (chunk : List UInt8) : Alive (fill s chunk) done :=
  ⟨h.closed, h.aborted, (fill_bufferSize s chunk).trans h.size, h.delivered⟩

/-- **One round along the stream.**  A piece that ends at most one package and fits. -/
theorem along_recv (hfit : ∀ m ∈ ms, m.wire.length ≤ socketBuffer.bufferSize) {chunk : List UInt8}
    (h : Along ms n s) (hn : n ≤ (wires ms).length) (hchunk : chunk <+: (wires ms).drop n)
    (hsize : chunk.length ≤ recvBufSize)
    (hone : (contained (beforeExit ms) (n + chunk.length)).length ≤
      (contained (beforeExit ms) n).length + 1)
    (hfits : contained (beforeExit ms) n ≠ beforeExit ms → n + chunk.length ≤
      (wires (contained (beforeExit ms) n)).length + socketBuffer.bufferSize +
        sizeofIpcPackageHeader) :
    Along ms (n + chunk.length) (recv s chunk) := by
  by_cases hempty : chunk = []
  · rw [recv, if_pos (Or.inr (Or.inr hempty)), hempty]
    exact h
  have hlater : chunk ++ (wires ms).drop (n + chunk.length) = (wires ms).drop n := by
    obtain ⟨later, hlater⟩ := hchunk
    rw [← List.drop_drop, ← hlater, List.drop_left]
  have hn' : n + chunk.length ≤ (wires ms).length := by
    have := hchunk.length_le
    rw [List.length_drop] at this
    omega
  rw [socketBuffer_bufferSize, sizeofIpcPackageHeader] at hfits
  rw [recvBufSize] at hsize
  cases h with
  | between done todo hms alive header contents short incomplete =>
    have hpos := readAvail_of_between hms hn contents
    have hbuf := alive.size
    have hadd := s.ring.avail_add
    rw [socketBuffer_bufferSize] at hbuf
    rw [recvBufSize] at short
    have hroom : chunk.length ≤ s.ring.writeAvail := by omega
    obtain ⟨hfill, havail⟩ := fill_of_le hroom
    rw [contained_of_between hms hn contents incomplete] at hone
    rw [recv, if_neg (by simp [alive.closed, alive.aborted, hempty])]
    refine along_process hfit hms (alive.fill chunk) header ?_ ?_ ?_ hn'
    · rw [hfill, List.append_assoc, hlater]
      exact contents
    · intro m hm
      have := incomplete m hm
      rw [recvBufSize]
      omega
    · intro m hm m' hm'
      rw [List.eq_cons_of_mem_head? hm] at hms
      have := lt_of_one hms hone m' hm'
      omega
  | pending done m todo hms alive header contents incomplete =>
    have hpos := readAvail_of_pending hms hn contents
    have hbuf := alive.size
    have hadd := s.ring.avail_add
    rw [socketBuffer_bufferSize] at hbuf
    rw [sizeofIpcPackageHeader] at hpos
    have hnow := contained_of_pending hms hn contents incomplete
    have hfit' := hfits (by rw [hnow, hms]; simp)
    rw [hnow] at hfit' hone
    have hroom : chunk.length ≤ s.ring.writeAvail := by omega
    obtain ⟨hfill, havail⟩ := fill_of_le hroom
    have hmem : m ∈ ms := mem_of_beforeExit (by
      rw [hms]
      simp)
    rw [recv, if_neg (by simp [alive.closed, alive.aborted, hempty]),
      process_of_pending (s := fill s chunk) header]
    refine along_processData (hfit m hmem) hms (alive.fill chunk) ?_ ?_ ?_
    · rw [hfill, List.append_assoc, hlater]
      exact contents
    · rw [recvBufSize]
      omega
    · intro m' hm'
      have := lt_of_one hms hone m' hm'
      rw [m.length_wire] at this
      omega
  | closed closed delivered le =>
    rw [recv, if_pos (Or.inl closed)]
    exact .closed closed delivered (by omega)

theorem readAvail_socketBuffer : socketBuffer.readAvail = 0 := by
  rw [← RingBuffer.length_contents, socketBuffer_contents, List.length_nil]

theorem along_start (ms : List Package) : Along ms 0 start := by
  refine .between [] (beforeExit ms) rfl ⟨rfl, rfl, rfl, rfl⟩ rfl ?_ ?_ ?_
  · rw [start, socketBuffer_contents, beforeExit_append_fromExit]
    rfl
  · rw [start, readAvail_socketBuffer, recvBufSize]
    decide
  · intro m _
    rw [start, readAvail_socketBuffer, Package.length_wire]
    omega

/-- **All the rounds along the stream.** -/
theorem along_clientConnected (hfit : ∀ m ∈ ms, m.wire.length ≤ socketBuffer.bufferSize)
    {chunks : List (List UInt8)} (hstream : chunks.flatten <+: wires ms)
    (hsize : ∀ chunk ∈ chunks, chunk.length ≤ recvBufSize) (hone : OneEach ms chunks)
    (hfits : Fits ms chunks) : Along ms chunks.flatten.length (clientConnected chunks) := by
  induction chunks using List.reverseRecOn with
  | nil => exact along_start ms
  | append_singleton chunks chunk ih =>
    have hflat : (chunks ++ [chunk]).flatten = chunks.flatten ++ chunk := by simp
    rw [hflat] at hstream
    have hpre := ih ((List.prefix_append _ _).trans hstream)
      (fun c hc => hsize c (List.mem_append_left _ hc))
      (fun pre c h => hone pre c (h.trans (List.prefix_append _ _)))
      (fun pre c h => hfits pre c (h.trans (List.prefix_append _ _)))
    have hchunk : chunk <+: (wires ms).drop chunks.flatten.length := by
      obtain ⟨later, hlater⟩ := hstream
      exact ⟨later, by rw [← hlater, List.append_assoc, List.drop_left]⟩
    have hlen := ((List.prefix_append _ _).trans hstream).length_le
    rw [hflat, List.length_append, clientConnected_append_singleton]
    exact along_recv hfit hpre hlen hchunk (hsize chunk (by simp))
      (hone chunks chunk List.prefix_rfl) (hfits chunks chunk List.prefix_rfl)

end Along

/-! ## Counting bytes -/

/-- What the listener got, the header that was taken, and what is in the ring buffer. -/
def accounted (s : State) : ℕ :=
  streamBytes s.delivered + (if s.curHeader.isSome then sizeofIpcPackageHeader else 0) +
    s.ring.readAvail

theorem read_cases (r : RingBuffer) (count : ℤ) :
    r.ringbufferRead count = none ∨ ∃ data ring, r.ringbufferRead count = some (data, ring) ∧
      data.length + ring.readAvail = r.readAvail ∧ (count ≤ r.readAvail → data.length = count.toNat)
        ∧ ring.bufferSize = r.bufferSize := by
  rcases lt_or_ge count r.bufferSize with hlt | hge
  · obtain ⟨ring, hread, hcontents, hsize⟩ := FmqReceiver.read_spec hlt
    refine Or.inr ⟨_, ring, hread, ?_, ?_, hsize⟩
    · rw [← RingBuffer.length_contents, hcontents, List.length_take, List.length_drop,
        RingBuffer.length_contents]
      omega
    · intro hle
      rw [List.length_take, RingBuffer.length_contents]
      omega
  · exact Or.inl (RingBuffer.ringbufferRead_eq_none.mpr hge)

/-- What a round may not do: grow what is accounted for, or hand on two packages. -/
structure Bounded (s s' : State) (bound : ℕ) : Prop where
  accounted : accounted s' ≤ bound
  delivered : s'.delivered.length ≤ s.delivered.length + 1
  size : s'.ring.bufferSize = s.ring.bufferSize

theorem bounded_processData (s : State) (curHeader : IpcPackageHeader) :
    Bounded s (processData s curHeader)
      (streamBytes s.delivered + sizeofIpcPackageHeader + s.ring.readAvail) := by
  unfold processData
  split
  · rename_i havail
    by_cases halloc : 0 ≤ curHeader.dataSize + 4
    · rw [FmqReceiver.malloc_of_nonneg halloc]
      dsimp only
      rcases read_cases s.ring curHeader.dataSize with
        hread | ⟨data, ring, hread, hlen, hdata, hsize⟩
      · rw [hread]
        refine ⟨?_, Nat.le_succ _, rfl⟩
        simp only [accounted]
        split <;> omega
      · rw [hread]
        refine ⟨?_, by simp, hsize⟩
        have hpackage : streamBytes [FmqReceiver.package curHeader data] ≤
            sizeofIpcPackageHeader + data.length := by
          simp only [streamBytes, FmqReceiver.package, List.map_cons, List.map_nil, List.sum_cons,
            List.sum_nil, List.length_take, List.length_append, length_leBytes,
            sizeofIpcPackageHeader]
          omega
        simp only [accounted, streamBytes_append, Option.isSome_none, Bool.false_eq_true, if_false]
        omega
    · rw [FmqReceiver.malloc_of_neg (by omega)]
      exact ⟨le_rfl, Nat.le_succ _, rfl⟩
  · exact ⟨le_rfl, Nat.le_succ _, rfl⟩

theorem bounded_process (s : State) : Bounded s (process s) (accounted s) := by
  unfold process
  split
  · rename_i curHeader hheader
    have h := bounded_processData s curHeader
    refine ⟨h.accounted.trans ?_, h.delivered, h.size⟩
    rw [accounted, hheader]
    exact le_rfl
  · rename_i hheader
    split
    · exact ⟨le_rfl, Nat.le_succ _, rfl⟩
    rename_i hshort
    rcases read_cases s.ring 4 with hread | ⟨data, ring, hread, hlen, hdata, hsize⟩
    · rw [hread]
      exact ⟨le_rfl, Nat.le_succ _, rfl⟩
    rw [hread]
    dsimp only
    split
    · refine ⟨?_, Nat.le_succ _, hsize⟩
      simp only [accounted]
      omega
    have hfour := hdata (by rw [sizeofIpcPackageHeader] at hshort; omega)
    rcases read_cases ring (sizeofIpcPackageHeader - 4) with
      hrest | ⟨data', ring', hrest, hlen', hdata', hsize'⟩
    · rw [hrest]
      refine ⟨?_, Nat.le_succ _, hsize⟩
      simp only [accounted]
      omega
    rw [hrest]
    dsimp only
    have hsixteen := hdata' (by
      rw [sizeofIpcPackageHeader] at hshort ⊢
      omega)
    rw [show ((4 : ℤ).toNat) = 4 from rfl] at hfour
    rw [show ((sizeofIpcPackageHeader : ℤ) - 4).toNat = 16 from rfl] at hsixteen
    split
    · refine ⟨?_, Nat.le_succ _, hsize'.trans hsize⟩
      simp only [accounted]
      omega
    · have h := bounded_processData { s with ring := ring' } (parseRest data')
      refine ⟨h.accounted.trans ?_, h.delivered, h.size.trans (hsize'.trans hsize)⟩
      simp only [accounted, hheader, Option.isSome_none, Bool.false_eq_true, if_false,
        sizeofIpcPackageHeader]
      omega

/-- **One round.**  It accounts for no more than what the ring buffer took. -/
theorem bounded_recv (s : State) (chunk : List UInt8) :
    Bounded s (recv s chunk) (accounted s + min chunk.length s.ring.writeAvail) := by
  unfold recv
  split
  · exact ⟨Nat.le_add_right _ _, Nat.le_succ _, rfl⟩
  · have h := bounded_process (fill s chunk)
    refine ⟨h.accounted.trans ?_, h.delivered, h.size.trans (fill_bufferSize s chunk)⟩
    have havail : (fill s chunk).ring.readAvail =
        s.ring.readAvail + min chunk.length s.ring.writeAvail := by
      rw [← RingBuffer.length_contents, contents_fill, List.length_append,
        RingBuffer.length_contents, List.length_take, min_comm]
    have hsame : accounted (fill s chunk) =
        accounted s + min chunk.length s.ring.writeAvail := by
      rw [accounted, havail, accounted, ← Nat.add_assoc]
      rfl
    exact hsame.le

theorem accounted_foldl (s : State) (chunks : List (List UInt8)) :
    accounted (chunks.foldl recv s) ≤ accounted s + chunks.flatten.length := by
  induction chunks generalizing s with
  | nil => exact Nat.le_add_right _ _
  | cons chunk chunks ih =>
    have hstep := (bounded_recv s chunk).accounted
    have hrun := ih (recv s chunk)
    rw [List.foldl_cons, List.flatten_cons, List.length_append]
    omega

theorem accounted_clientConnected (chunks : List (List UInt8)) :
    accounted (clientConnected chunks) ≤ chunks.flatten.length := by
  have h := accounted_foldl start chunks
  have hstart : accounted start = 0 := by
    rw [accounted, start, readAvail_socketBuffer]
    rfl
  rwa [hstart, Nat.zero_add] at h

/-- When every byte of the stream is accounted for, every piece was taken whole. -/
theorem room_of_accounted {pre post : List (List UInt8)} {chunk : List UInt8}
    (h : (pre ++ chunk :: post).flatten.length ≤
      accounted (clientConnected (pre ++ chunk :: post))) :
    chunk.length ≤ (clientConnected pre).ring.writeAvail := by
  have hpre := accounted_clientConnected pre
  have hstep := (bounded_recv (clientConnected pre) chunk).accounted
  have hpost := accounted_foldl (recv (clientConnected pre) chunk) post
  rw [clientConnected, List.foldl_append, List.foldl_cons, ← clientConnected, List.flatten_append,
    List.flatten_cons, List.length_append, List.length_append] at h
  omega

theorem streamBytes_delivery (ms : List Package) :
    streamBytes (ms.map Package.delivery) = (wires ms).length := by
  induction ms with
  | nil => rfl
  | cons m ms ih =>
    rw [List.map_cons, streamBytes, List.map_cons, List.sum_cons, ← streamBytes, ih,
      Package.length_delivery, wires_cons, List.length_append, Package.length_wire]
    omega

/-! ## When every package is delivered -/

section Delivery

variable {ms : List Package} {chunks : List (List UInt8)}

theorem filter_contained_beforeExit (ms : List Package) (n : ℕ) :
    (contained (beforeExit ms) n).filter (fun m => ¬ m.IsExit) = contained (beforeExit ms) n := by
  refine List.filter_eq_self.mpr fun m hm => ?_
  simpa using not_isExit_of_mem ((contained_initial _ _).subset hm)

/-- The packages to deliver are those before the exit request, until they are all in. -/
theorem filter_contained_of_lt {n : ℕ} (h : n < (wires (beforeExit ms)).length) :
    (contained ms n).filter (fun m => ¬ m.IsExit) = contained (beforeExit ms) n := by
  have hsplit : contained ms n = contained (beforeExit ms ++ fromExit ms) n := by
    rw [beforeExit_append_fromExit]
  rw [hsplit, contained_append_of_lt h, filter_contained_beforeExit]

theorem filter_contained_of_le {n : ℕ} (h : (wires (beforeExit ms)).length ≤ n) :
    (contained ms n).filter (fun m => ¬ m.IsExit) = beforeExit ms ++
      (contained (fromExit ms) (n - (wires (beforeExit ms)).length)).filter
        (fun m => ¬ m.IsExit) := by
  have hsplit : contained ms n = contained (beforeExit ms ++ fromExit ms) n := by
    rw [beforeExit_append_fromExit]
  have hall := filter_contained_beforeExit ms n
  rw [contained_of_le h] at hall
  rw [hsplit, contained_append_of_le h, List.filter_append, hall]

/-- Where nothing but exit requests follows the first one, the packages to deliver are
those before it. -/
theorem filter_contained (h : ∀ m ∈ fromExit ms, m.IsExit) (n : ℕ) :
    (contained ms n).filter (fun m => ¬ m.IsExit) = contained (beforeExit ms) n := by
  rcases Nat.lt_or_ge n (wires (beforeExit ms)).length with hlt | hle
  · exact filter_contained_of_lt hlt
  · have hnone : (contained (fromExit ms) (n - (wires (beforeExit ms)).length)).filter
        (fun m => ¬ m.IsExit) = [] := by
      refine List.filter_eq_nil_iff.mpr fun m hm => ?_
      simpa using h m ((contained_initial _ _).subset hm)
    rw [filter_contained_of_le hle, hnone, List.append_nil, contained_of_le hle]

/-- A stream that is no longer than the ring buffer fits. -/
theorem fits_of_length_le (h : chunks.flatten.length ≤ socketBuffer.bufferSize) :
    Fits ms chunks := by
  rintro pre chunk ⟨post, rfl⟩ -
  rw [List.flatten_append, List.flatten_append, List.flatten_singleton, List.length_append,
    List.length_append] at h
  omega

/-- What holds of every piece and those before it, by the number of those. -/
theorem forall_pieces {P : List (List UInt8) → List UInt8 → Prop}
    (h : ∀ k, (hk : k < chunks.length) → P (chunks.take k) chunks[k]) :
    ∀ pre chunk, pre ++ [chunk] <+: chunks → P pre chunk := by
  rintro pre chunk ⟨post, rfl⟩
  have hpiece := h pre.length (by simp)
  simpa using hpiece

theorem fromExit_eq_nil (h : ∀ m ∈ ms, ¬ m.IsExit) : fromExit ms = [] := by
  cases hfrom : fromExit ms with
  | nil => rfl
  | cons m rest =>
    have hmem : m ∈ beforeExit ms ++ fromExit ms := by simp [hfrom]
    rw [beforeExit_append_fromExit] at hmem
    have hfirst : m ∈ (fromExit ms).head? := by
      rw [hfrom]
      rfl
    exact absurd (isExit_of_head hfirst) (h m hmem)

/-- A round hands on one package at most. -/
theorem oneEach_of_delivers (h : Delivers ms chunks) : OneEach ms chunks := by
  intro pre chunk hpre
  have hbefore := h pre ((List.prefix_append _ _).trans hpre)
  have hafter := h (pre ++ [chunk]) hpre
  have hgrow := (bounded_recv (clientConnected pre) chunk).delivered
  have hflat : (pre ++ [chunk]).flatten.length = pre.flatten.length + chunk.length := by simp
  rw [← clientConnected_append_singleton, hafter, hbefore, List.length_map, List.length_map,
    hflat] at hgrow
  rcases Nat.lt_or_ge pre.flatten.length (wires (beforeExit ms)).length with hlt | hle
  · rw [filter_contained_of_lt hlt] at hgrow
    rcases Nat.lt_or_ge (pre.flatten.length + chunk.length) (wires (beforeExit ms)).length
      with hlt' | hle'
    · rwa [filter_contained_of_lt hlt'] at hgrow
    · rw [filter_contained_of_le hle', List.length_append] at hgrow
      rw [contained_of_le hle']
      omega
  · rw [contained_of_le hle, contained_of_le (by omega)]
    omega

/-- The packages that have come in are delivered while each piece ends at most one. -/
theorem delivers_of_oneEach (hfit : ∀ m ∈ ms, m.wire.length ≤ socketBuffer.bufferSize)
    (hsize : ∀ chunk ∈ chunks, chunk.length ≤ recvBufSize) (hstream : chunks.flatten = wires ms)
    (hone : OneEach ms chunks) (hfits : Fits ms chunks) (hexit : ∀ m ∈ fromExit ms, m.IsExit) :
    Delivers ms chunks := by
  rintro pre ⟨post, rfl⟩
  have hpre : pre.flatten <+: wires ms := ⟨post.flatten, by rw [← hstream, List.flatten_append]⟩
  have halong := along_clientConnected hfit hpre
    (fun c hc => hsize c (List.mem_append_left _ hc))
    (fun p c h => hone p c (h.trans (List.prefix_append _ _)))
    (fun p c h => hfits p c (h.trans (List.prefix_append _ _)))
  rw [halong.delivered hpre.length_le, filter_contained hexit]

/-- Of a stream that arrives whole, what follows the exit request is not delivered. -/
theorem isExit_of_delivers (hfit : ∀ m ∈ ms, m.wire.length ≤ socketBuffer.bufferSize)
    (hsize : ∀ chunk ∈ chunks, chunk.length ≤ recvBufSize) (hstream : chunks.flatten = wires ms)
    (hfits : Fits ms chunks) (h : Delivers ms chunks) : ∀ m ∈ fromExit ms, m.IsExit := by
  have halong := along_clientConnected hfit (hstream ▸ List.prefix_rfl) hsize
    (oneEach_of_delivers h) hfits
  have hbytes := length_wires_eq (List.append_nil (beforeExit ms)).symm
  rw [List.nil_append] at hbytes
  have hall : (wires (beforeExit ms)).length ≤ chunks.flatten.length := by
    rw [hstream]
    omega
  have hlen := congrArg List.length ((h chunks List.prefix_rfl).symm.trans
    (halong.delivered (by rw [hstream])))
  rw [filter_contained_of_le hall, contained_of_le hall, List.length_map, List.length_map,
    List.length_append] at hlen
  have hrest : (wires (fromExit ms)).length ≤
      chunks.flatten.length - (wires (beforeExit ms)).length := by
    rw [hstream]
    omega
  rw [contained_of_le hrest] at hlen
  have hnone := List.filter_eq_nil_iff.mp (List.length_eq_zero_iff.mp (by omega : List.length
    ((fromExit ms).filter fun m => ¬ m.IsExit) = 0))
  intro m hm
  simpa using hnone m hm

/-- Nothing is lost of a stream that is delivered whole. -/
theorem fits_of_delivers (hfit : ∀ m ∈ ms, m.wire.length ≤ socketBuffer.bufferSize)
    (hsize : ∀ chunk ∈ chunks, chunk.length ≤ recvBufSize) (hstream : chunks.flatten = wires ms)
    (hexit : ∀ m ∈ ms, ¬ m.IsExit) (h : Delivers ms chunks) : Fits ms chunks := by
  have hone := oneEach_of_delivers h
  have hall : chunks.flatten.length ≤ accounted (clientConnected chunks) := by
    have hdelivered := h chunks List.prefix_rfl
    rw [contained_of_le (by rw [hstream]), List.filter_eq_self.mpr (by simpa using hexit)]
      at hdelivered
    rw [accounted, hdelivered, streamBytes_delivery, hstream, Nat.add_assoc]
    exact Nat.le_add_right _ _
  suffices hpre : ∀ pre, pre <+: chunks → Fits ms pre from hpre chunks List.prefix_rfl
  intro pre
  induction pre using List.reverseRecOn with
  | nil =>
    intro _ pre chunk hpre
    exact absurd hpre (by simp)
  | append_singleton pre chunk ih =>
    rintro ⟨post, rfl⟩
    have hfits := ih ⟨chunk :: post, by simp⟩
    have hprefix : pre.flatten <+: wires ms := by
      rw [← hstream]
      exact ⟨chunk ++ post.flatten, by simp⟩
    have halong := along_clientConnected hfit hprefix (fun c hc => hsize c (by simp [hc]))
      (fun p c hp => hone p c (hp.trans ⟨chunk :: post, by simp⟩)) hfits
    rw [List.append_assoc, List.singleton_append] at hall
    have hroom := room_of_accounted hall
    intro pre' c hpre' hmissing
    rcases List.prefix_concat_iff.mp hpre' with heq | hpre'
    · obtain ⟨rfl, hc⟩ := List.append_inj' heq rfl
      rw [← List.singleton_inj.mp hc] at hroom
      have hadd := (clientConnected pre').ring.avail_add
      cases halong with
      | between done todo hms alive header contents short incomplete =>
        have hpos := readAvail_of_between hms hprefix.length_le contents
        have hnow : contained (beforeExit ms) pre'.flatten.length = done := by
          rw [hms]
          refine contained_eq (by omega) fun m hm => ?_
          have := incomplete m hm
          omega
        have hbuf := alive.size
        rw [hnow]
        omega
      | pending done m todo hms alive header contents incomplete =>
        have hpos := readAvail_of_pending hms hprefix.length_le contents
        rw [sizeofIpcPackageHeader] at hpos ⊢
        have hnow : contained (beforeExit ms) pre'.flatten.length = done := by
          rw [hms]
          refine contained_eq (by omega) fun m' hm' => ?_
          rw [List.head?_cons, Option.mem_some_iff] at hm'
          rw [← hm', Package.length_wire]
          omega
        have hbuf := alive.size
        rw [hnow]
        omega
      | closed closed delivered le => exact absurd (contained_of_le le) hmissing
    · exact hfits pre' c hpre' hmissing

/-- **When `clientConnected` delivers a stream of packages.**  For pieces that fit: when
each ends at most one of the packages before the first exit request, and only exit
requests follow it.  For a stream without exit requests: when each piece ends at most one
package and fits. -/
theorem delivers_iff (hfit : ∀ m ∈ ms, m.wire.length ≤ socketBuffer.bufferSize)
    (hsize : ∀ chunk ∈ chunks, chunk.length ≤ recvBufSize)
    (hstream : chunks.flatten = wires ms) :
    (Fits ms chunks →
      (Delivers ms chunks ↔ OneEach ms chunks ∧ ∀ m ∈ fromExit ms, m.IsExit)) ∧
    ((∀ m ∈ ms, ¬ m.IsExit) → (Delivers ms chunks ↔ OneEach ms chunks ∧ Fits ms chunks)) := by
  constructor
  · intro hfits
    refine ⟨fun h => ⟨oneEach_of_delivers h, ?_⟩, fun h => ?_⟩
    · exact isExit_of_delivers hfit hsize hstream hfits h
    · exact delivers_of_oneEach hfit hsize hstream h.1 hfits h.2
  · intro hexit
    refine ⟨fun h => ⟨oneEach_of_delivers h, ?_⟩, fun h => ?_⟩
    · exact fits_of_delivers hfit hsize hstream hexit h
    · have hnone := fromExit_eq_nil hexit
      exact delivers_of_oneEach hfit hsize hstream h.1 h.2 (by simp [hnone])

/-- A package that comes in two pieces, the first of them ending in its header, and the
one before it in a piece of its own. -/
theorem delivers_iff_three_pieces :
    Delivers [⟨7, 1, [5], by decide⟩, ⟨7, 1, [6, 9], by decide⟩]
      [(Package.mk 7 1 [5] (by decide)).wire, (Package.mk 7 1 [6, 9] (by decide)).wire.take 9,
        (Package.mk 7 1 [6, 9] (by decide)).wire.drop 9] := by
  refine ((delivers_iff ?_ (by decide) (by decide)).2 (by decide)).mpr ⟨?_, ?_⟩
  · rw [socketBuffer_bufferSize]
    decide
  · exact forall_pieces (by decide)
  · refine fits_of_length_le ?_
    rw [socketBuffer_bufferSize]
    decide

/-- Of two packages that come in one piece only the first is delivered. -/
theorem not_delivers_one_piece :
    [(Package.mk 7 1 [5] (by decide)).wire ++ (Package.mk 7 1 [6] (by decide)).wire].flatten =
        wires [⟨7, 1, [5], by decide⟩, ⟨7, 1, [6], by decide⟩] ∧
      ¬ Delivers [⟨7, 1, [5], by decide⟩, ⟨7, 1, [6], by decide⟩]
        [(Package.mk 7 1 [5] (by decide)).wire ++ (Package.mk 7 1 [6] (by decide)).wire] := by
  refine ⟨by decide, fun h => ?_⟩
  have hone := oneEach_of_delivers h [] _ List.prefix_rfl
  exact absurd hone (by decide)

end Delivery

end SocketServer
end AmlSubtitle
