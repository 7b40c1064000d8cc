import AmlSubtitle.Client.SubtitleReportAPI
import AmlSubtitle.Ipc.FmqReceiver

/-!
# Delivery of messages through `FmqReceiver::readLoop`

A client writes messages back to back to the message queue, and the reading loop
gets the stream in reads of any size.  Two things keep a message from its
listener:

* the loop looks at the ring buffer only while it holds more than a header, so a
  message without payload is taken only when bytes of the next one are there;
* the loop ignores how much of a read `ringbuffer_write` took, so a read that does
  not fit into the ring buffer loses its tail.

`delivered_readLoop_eq_iff` says that these are the only two.  One direction
follows the loop through the stream (`At`).  The other counts bytes: what the
listener got and what is in the ring buffer never exceeds what the ring buffer
accepted (`accounted`), so when every message arrives nothing was lost.
-/

namespace AmlSubtitle
namespace FmqReceiver

open Words

/-- A message as a client sends it. -/
structure Message where
  sessionId : ℤ
  type : PayloadType
  payload : List UInt8
  deriving DecidableEq, Repr

namespace Message

/-- The bytes of the message on the queue. -/
def wire (m : Message) : List UInt8 :=
  makeHeader m.sessionId m.type m.payload.length ++ m.payload

/-- The bytes `onData` is to get: the type, then the payload. -/
def delivery (m : Message) : List UInt8 := leBytes 4 m.type.code ++ m.payload

@[simp] theorem length_wire (m : Message) :
    m.wire.length = sizeofIpcPackageHeader + m.payload.length := by
  rw [wire, List.length_append, length_makeHeader]
  rfl

@[simp] theorem length_delivery (m : Message) : m.delivery.length = 4 + m.payload.length := by
  rw [delivery, List.length_append, length_leBytes]

end Message

/-- The stream of the messages written back to back. -/
def wires (ms : List Message) : List UInt8 := ms.flatMap Message.wire

@[simp] theorem wires_nil : wires [] = [] := rfl

@[simp] theorem wires_cons (m : Message) (ms : List Message) :
    wires (m :: ms) = m.wire ++ wires ms := rfl

/-- The number of messages the loop has taken when it has had the first `n` bytes
of the stream and has nothing more to take. -/
def takenCount : List Message → ℕ → ℕ
  | [], _ => 0
  | m :: ms, n =>
    if sizeofIpcPackageHeader < n ∧ m.wire.length ≤ n then takenCount ms (n - m.wire.length) + 1
    else 0

/-- The number of bytes left in the ring buffer then. -/
def pending : List Message → ℕ → ℕ
  | [], n => n
  | m :: ms, n =>
    if sizeofIpcPackageHeader < n ∧ m.wire.length ≤ n then pending ms (n - m.wire.length) else n

/-- Every read fits into a ring buffer of `cap` bytes beside what is pending when
it is made. -/
def Fits (cap : ℕ) (ms : List Message) (chunks : List (List UInt8)) : Prop :=
  ∀ pre chunk post, chunks = pre ++ chunk :: post →
    pending ms pre.flatten.length + chunk.length ≤ cap

/-! ## The header on the wire -/

theorem peekAsSocketWord_makeHeader (sId : ℤ) (t : PayloadType) (n : ℤ) :
    peekAsSocketWord (makeHeader sId t n) = START_FLAG := by
  rw [makeHeader, List.append_assoc, List.append_assoc, List.append_assoc]
  exact peekAsSocketWord_leBytes (by decide) _

theorem not_wrongSync_makeHeader (sId : ℤ) (t : PayloadType) (n : ℤ) :
    ¬ wrongSync (makeHeader sId t n) :=
  fun h => h.1 (peekAsSocketWord_makeHeader sId t n)

theorem dataSize_makeHeader (sId : ℤ) (t : PayloadType) {n : ℕ} (h : n < 2 ^ 31) :
    (parseHeader (makeHeader sId t n)).dataSize = n := by
  have hdrop : (makeHeader sId t n).drop 12 =
      leBytes 4 (asUnsigned 32 n) ++ leBytes 4 t.code := by
    simp [makeHeader, List.drop_append, List.drop_eq_nil_of_le]
  simp only [parseHeader]
  rw [hdrop, asUnsigned_of_lt (by omega), peekAsSocketWord_leBytes (by omega),
    asSigned_of_lt (by omega)]

theorem pkgType_makeHeader (sId : ℤ) (t : PayloadType) (n : ℤ) :
    asUnsigned 32 (parseHeader (makeHeader sId t n)).pkgType = t.code := by
  have hdrop : (makeHeader sId t n).drop 16 = leBytes 4 t.code ++ [] := by
    simp [makeHeader, List.drop_append, List.drop_eq_nil_of_le]
  simp only [parseHeader]
  rw [hdrop, peekAsSocketWord_leBytes t.code_lt, asUnsigned_asSigned t.code_lt]

theorem take_wire_append (m : Message) (rest : List UInt8) :
    (m.wire ++ rest).take sizeofIpcPackageHeader =
      makeHeader m.sessionId m.type m.payload.length := by
  rw [Message.wire, List.append_assoc]
  exact List.take_left' (length_makeHeader _ _ _)

/-- A message that is complete is taken once the ring buffer holds more than a
header. -/
theorem frameStep_wire_append {m : Message} (hm : m.payload.length < 2 ^ 31) {rest : List UInt8}
    (h : sizeofIpcPackageHeader < (m.wire ++ rest).length) :
    ∃ copies, frameStep (m.wire ++ rest) = some ⟨.delivered m.delivery, copies, rest⟩ := by
  have hsize := dataSize_makeHeader m.sessionId m.type hm
  have hneeded := needed_parseHeader (makeHeader m.sessionId m.type m.payload.length)
  rw [hsize, if_neg (by omega)] at hneeded
  have hlen : (m.wire ++ rest).length =
      sizeofIpcPackageHeader + m.payload.length + rest.length := by
    rw [List.length_append, Message.length_wire]
  rw [sizeofIpcPackageHeader] at hlen
  have hdrop : (m.wire ++ rest).drop sizeofIpcPackageHeader = m.payload ++ rest := by
    rw [Message.wire, List.append_assoc]
    exact List.drop_left' (length_makeHeader _ _ _)
  unfold frameStep
  rw [take_wire_append, if_pos h, if_neg (not_wrongSync_makeHeader _ _ _), if_neg (by omega),
    takenPackage, hsize, if_neg (by omega), ← List.drop_drop, hdrop, Int.toNat_natCast,
    List.take_left, List.drop_left]
  have hpackage : package (parseHeader (makeHeader m.sessionId m.type m.payload.length))
      m.payload = m.delivery := by
    rw [package, pkgType_makeHeader, hsize, List.take_of_length_le (by simp; omega)]
    rfl
  rw [← hpackage]
  exact ⟨_, rfl⟩

/-- A message that is not complete is waited for. -/
theorem frameStep_take_wire {m : Message} (hm : m.payload.length < 2 ^ 31) {rest : List UInt8}
    {n : ℕ} (hn : n ≤ (m.wire ++ rest).length)
    (h : ¬ (sizeofIpcPackageHeader < n ∧ m.wire.length ≤ n)) :
    frameStep ((m.wire ++ rest).take n) = none := by
  have hlen : ((m.wire ++ rest).take n).length = n := List.length_take_of_le hn
  unfold frameStep
  rw [hlen]
  by_cases hshort : n > sizeofIpcPackageHeader
  · have hsize := dataSize_makeHeader m.sessionId m.type hm
    have hneeded := needed_parseHeader (makeHeader m.sessionId m.type m.payload.length)
    rw [hsize, if_neg (by omega)] at hneeded
    have hwire : n < sizeofIpcPackageHeader + m.payload.length := by
      rw [← Message.length_wire]
      exact not_le.mp fun hle => h ⟨hshort, hle⟩
    rw [sizeofIpcPackageHeader] at hwire
    rw [if_pos hshort, List.take_take, min_eq_left (le_of_lt hshort), take_wire_append,
      if_neg (not_wrongSync_makeHeader _ _ _), if_pos (by omega)]
  · rw [if_neg hshort]

/-! ## The loop along the stream -/

/-- `done` has been delivered, and the ring buffer holds the first `n` bytes of the
stream of `todo`. -/
structure At (cap : ℕ) (s : State) (done todo : List Message) (n : ℕ) : Prop where
  aborted : s.aborted = false
  size : s.ring.bufferSize = cap
  contents : s.ring.contents = (wires todo).take n
  le : n ≤ (wires todo).length
  delivered : s.delivered = done.map Message.delivery

theorem At.readAvail {cap n : ℕ} {s : State} {done todo : List Message}
    (h : At cap s done todo n) : s.ring.readAvail = n := by
  rw [← RingBuffer.length_contents, h.contents, List.length_take_of_le h.le]

/-- What a pass adds to the packages handed to the listener. -/
def Event.package : Event → List (List UInt8)
  | .delivered data => [data]
  | .skipped _ => []

theorem delivered_append {s s' : State} {e : Event} (h : s'.events = s.events ++ [e]) :
    s'.delivered = s.delivered ++ e.package := by
  rw [State.delivered, h, List.filterMap_append]
  cases e <;> rfl

theorem At.stop {cap n : ℕ} (hcap : sizeofIpcPackageHeader < cap) {s : State}
    {done todo : List Message} (h : At cap s done todo n)
    (hnone : frameStep ((wires todo).take n) = none) : consumeStep s = none := by
  rcases consumeStep_eq h.aborted (h.size ▸ hcap) with ⟨-, hstop⟩ | ⟨t, s', hsome, -⟩
  · exact hstop
  · rw [h.contents, hnone] at hsome
    exact absurd hsome (by simp)

theorem At.take {cap n : ℕ} (hcap : sizeofIpcPackageHeader < cap) {s : State}
    {done todo : List Message} {m : Message} (hm : m.payload.length < 2 ^ 31)
    (h : At cap s done (m :: todo) n) (htaken : sizeofIpcPackageHeader < n ∧ m.wire.length ≤ n) :
    ∃ s', consumeStep s = some s' ∧ At cap s' (done ++ [m]) todo (n - m.wire.length) := by
  have hle := h.le
  have hbytes : (wires (m :: todo)).take n = m.wire ++ (wires todo).take (n - m.wire.length) := by
    rw [wires_cons, List.take_append, List.take_of_length_le htaken.2]
  have hlong : sizeofIpcPackageHeader <
      (m.wire ++ (wires todo).take (n - m.wire.length)).length := by
    rw [← hbytes, List.length_take_of_le hle]
    exact htaken.1
  obtain ⟨copies, hframe⟩ := frameStep_wire_append hm hlong
  rcases consumeStep_eq h.aborted (h.size ▸ hcap) with ⟨hnone, -⟩ | ⟨t, s', hsome, hstep, hfol⟩
  · rw [h.contents, hbytes, hframe] at hnone
    exact absurd hnone (by simp)
  · rw [h.contents, hbytes, hframe, Option.some_inj] at hsome
    subst hsome
    refine ⟨s', hstep, ⟨hfol.aborted, hfol.size.trans h.size, hfol.contents, ?_, ?_⟩⟩
    · rw [wires_cons, List.length_append] at hle
      omega
    · rw [delivered_append hfol.events, h.delivered, List.map_append]
      rfl

/-- The inner loop takes the messages that are complete. -/
theorem consumeLoop_at {cap : ℕ} (hcap : sizeofIpcPackageHeader < cap) {todo : List Message}
    (hlt : ∀ m ∈ todo, m.payload.length < 2 ^ 31) {n fuel : ℕ} {s : State} {done : List Message}
    (hs : At cap s done todo n) (hfuel : n ≤ fuel) :
    At cap (consumeLoop fuel s) (done ++ todo.take (takenCount todo n))
      (todo.drop (takenCount todo n)) (pending todo n) := by
  induction todo generalizing n fuel s done with
  | nil =>
    rw [consumeLoop_of_none (hs.stop hcap (by simp [frameStep]))]
    simpa [pending] using hs
  | cons m todo ih =>
    have hm := hlt m List.mem_cons_self
    rw [takenCount, pending]
    by_cases htaken : sizeofIpcPackageHeader < n ∧ m.wire.length ≤ n
    · obtain ⟨s', hstep, hs'⟩ := hs.take hcap hm htaken
      obtain ⟨fuel, rfl⟩ : ∃ k, fuel = k + 1 := ⟨fuel - 1, by omega⟩
      have hfuel' : n - m.wire.length ≤ fuel := by
        rw [Message.length_wire, sizeofIpcPackageHeader]
        omega
      have hrest := ih (fun x hx => hlt x (List.mem_cons_of_mem _ hx)) hs' hfuel'
      rw [consumeLoop, hstep, if_pos htaken, if_pos htaken, List.take_succ_cons,
        List.drop_succ_cons, List.append_cons]
      exact hrest
    · rw [consumeLoop_of_none (hs.stop hcap (frameStep_take_wire hm hs.le htaken)),
        if_neg htaken, if_neg htaken, List.take_zero, List.append_nil, List.drop_zero]
      exact hs

/-- A read that continues the stream and fits is taken into the ring buffer whole. -/
theorem At.fill {cap n : ℕ} {s : State} {done todo : List Message} {chunk : List UInt8}
    (h : At cap s done todo n) (hchunk : chunk <+: (wires todo).drop n)
    (hfits : n + chunk.length ≤ cap) : At cap (fill s chunk) done todo (n + chunk.length) := by
  have hadd := s.ring.avail_add
  have havail := h.readAvail
  have hsize := h.size
  have hlen := hchunk.length_le
  rw [List.length_drop] at hlen
  have hcont : s.ring.contents ++ chunk = (wires todo).take (n + chunk.length) := by
    rw [h.contents, List.take_add, ← List.prefix_iff_eq_take.mp hchunk]
  refine ⟨by rw [fill_aborted, h.aborted], by rw [fill_bufferSize, h.size], ?_, ?_, ?_⟩
  · rw [contents_fill, List.take_of_length_le (by omega), hcont]
  · have := h.le
    omega
  · rw [State.delivered, fill_events]
    exact h.delivered

/-- What is taken of the stream does not depend on where it is cut. -/
theorem takenCount_add (ms : List Message) (n c : ℕ) :
    takenCount ms (n + c) = takenCount ms n +
      takenCount (ms.drop (takenCount ms n)) (pending ms n + c) := by
  induction ms generalizing n with
  | nil => simp [takenCount]
  | cons m ms ih =>
    by_cases h : sizeofIpcPackageHeader < n ∧ m.wire.length ≤ n
    · have h' : sizeofIpcPackageHeader < n + c ∧ m.wire.length ≤ n + c := by omega
      rw [takenCount, takenCount, pending, if_pos h, if_pos h, if_pos h', List.drop_succ_cons,
        Nat.sub_add_comm h.2, ih]
      omega
    · have hcount : takenCount (m :: ms) n = 0 := if_neg h
      have hpending : pending (m :: ms) n = n := if_neg h
      rw [hcount, hpending, List.drop_zero, Nat.zero_add]

theorem pending_add (ms : List Message) (n c : ℕ) :
    pending ms (n + c) = pending (ms.drop (takenCount ms n)) (pending ms n + c) := by
  induction ms generalizing n with
  | nil => simp [pending]
  | cons m ms ih =>
    by_cases h : sizeofIpcPackageHeader < n ∧ m.wire.length ≤ n
    · have h' : sizeofIpcPackageHeader < n + c ∧ m.wire.length ≤ n + c := by omega
      rw [takenCount, pending, pending, if_pos h, if_pos h, if_pos h', List.drop_succ_cons,
        Nat.sub_add_comm h.2, ih]
    · have hcount : takenCount (m :: ms) n = 0 := if_neg h
      have hpending : pending (m :: ms) n = n := if_neg h
      rw [hcount, hpending, List.drop_zero]

@[simp] theorem takenCount_zero (ms : List Message) : takenCount ms 0 = 0 := by
  cases ms with
  | nil => rfl
  | cons m ms => exact if_neg fun h => absurd h.1 (by decide)

@[simp] theorem pending_zero (ms : List Message) : pending ms 0 = 0 := by
  cases ms with
  | nil => rfl
  | cons m ms => exact if_neg fun h => absurd h.1 (by decide)

/-- What has not been read of the stream comes after what is pending. -/
theorem drop_pending (ms : List Message) (n : ℕ) :
    (wires (ms.drop (takenCount ms n))).drop (pending ms n) = (wires ms).drop n := by
  induction ms generalizing n with
  | nil => simp [pending]
  | cons m ms ih =>
    rw [takenCount, pending]
    by_cases h : sizeofIpcPackageHeader < n ∧ m.wire.length ≤ n
    · rw [if_pos h, if_pos h, List.drop_succ_cons, ih, wires_cons, List.drop_append,
        List.drop_of_length_le h.2, List.nil_append]
    · rw [if_neg h, if_neg h, List.drop_zero]

theorem Fits.of_append {cap : ℕ} {ms : List Message} {pre post : List (List UInt8)}
    (h : Fits cap ms (pre ++ post)) : Fits cap ms pre := by
  rintro pre' chunk post' rfl
  exact h pre' chunk (post' ++ post) (by simp)

/-- **The loop along the stream.**  While the reads fit, the loop has delivered the
messages that are complete and holds the rest. -/
theorem at_readFrom {ring : RingBuffer} (hcap : sizeofIpcPackageHeader < ring.bufferSize)
    (hring : ring.contents = []) {ms : List Message} (hlt : ∀ m ∈ ms, m.payload.length < 2 ^ 31)
    {chunks : List (List UInt8)} (hstream : chunks.flatten <+: wires ms)
    (hfits : Fits ring.bufferSize ms chunks) :
    At ring.bufferSize (readFrom ring chunks) (ms.take (takenCount ms chunks.flatten.length))
      (ms.drop (takenCount ms chunks.flatten.length)) (pending ms chunks.flatten.length) := by
  induction chunks using List.reverseRecOn with
  | nil =>
    rw [List.flatten_nil, List.length_nil, takenCount_zero, pending_zero]
    exact ⟨rfl, rfl, hring.trans (List.take_zero).symm, Nat.zero_le _, rfl⟩
  | append_singleton chunks chunk ih =>
    have hflat : (chunks ++ [chunk]).flatten = chunks.flatten ++ chunk := by simp
    rw [hflat] at hstream ⊢
    have hpre := ih ((List.prefix_append _ _).trans hstream) hfits.of_append
    have hchunk : chunk <+: (wires ms).drop chunks.flatten.length := by
      obtain ⟨rest, hrest⟩ := hstream
      exact ⟨rest, by rw [← hrest, List.append_assoc, List.drop_left]⟩
    rw [← drop_pending] at hchunk
    have hfill := hpre.fill hchunk (hfits chunks chunk [] rfl)
    have hpass := consumeLoop_at hcap (fun m hm => hlt m (List.mem_of_mem_drop hm)) hfill le_rfl
    rw [readFrom_append_singleton, pass, hfill.readAvail, List.length_append, takenCount_add,
      pending_add, List.take_add, ← List.drop_drop]
    exact hpass

/-! ## Counting bytes -/

/-- The bytes of the stream that packages handed to the listener account for: their
own, less the four of the type, and a header each. -/
def streamBytes (packages : List (List UInt8)) : ℕ :=
  (packages.map fun data => data.length + 16).sum

/-- What the listener got and what is in the ring buffer. -/
def accounted (s : State) : ℕ := streamBytes s.delivered + s.ring.readAvail

@[simp] theorem streamBytes_append (ps qs : List (List UInt8)) :
    streamBytes (ps ++ qs) = streamBytes ps + streamBytes qs := by
  simp [streamBytes]

theorem streamBytes_delivery (ms : List Message) :
    streamBytes (ms.map Message.delivery) = (wires ms).length := by
  induction ms with
  | nil => rfl
  | cons m ms ih =>
    rw [List.map_cons, streamBytes, List.map_cons, List.sum_cons, ← streamBytes, ih,
      Message.length_delivery, wires_cons, List.length_append, Message.length_wire,
      sizeofIpcPackageHeader]
    omega

/-- A pass takes at least as many bytes off the ring buffer as it hands on. -/
theorem frameStep_accounted {bytes : List UInt8} {t : Taken} (h : frameStep bytes = some t) :
    streamBytes t.event.package + t.rest.length ≤ bytes.length := by
  obtain ⟨hshort, hresync | hpackage⟩ := frameStep_cases h
  · rw [hresync.2]
    simp [takenResync, Event.package, streamBytes]
  obtain ⟨hwait, ht⟩ := hpackage.2
  rw [ht]
  have hneeded := needed_parseHeader (bytes.take sizeofIpcPackageHeader)
  generalize parseHeader (bytes.take sizeofIpcPackageHeader) = curHeader at hwait hneeded ⊢
  rw [sizeofIpcPackageHeader] at hshort
  by_cases halloc : curHeader.dataSize + 4 < 0
  · rw [takenPackage, if_pos halloc]
    simp [Event.package, streamBytes]
  · rw [takenPackage, if_neg halloc]
    rw [if_neg (by omega)] at hneeded
    simp only [Event.package, streamBytes, package, List.map_cons, List.map_nil, List.sum_cons,
      List.sum_nil, List.length_take, List.length_append, length_leBytes, List.length_drop,
      sizeofIpcPackageHeader]
    omega

/-- What holds of the loop while it reads: no assertion has failed, and `bound`
bytes account for what it has. -/
structure Accounts (cap bound : ℕ) (s : State) : Prop where
  aborted : s.aborted = false
  size : s.ring.bufferSize = cap
  le : accounted s ≤ bound

theorem accounts_consumeLoop {cap bound : ℕ} (hcap : sizeofIpcPackageHeader < cap) (fuel : ℕ)
    {s : State} (hs : Accounts cap bound s) : Accounts cap bound (consumeLoop fuel s) := by
  refine consumeLoop_invariant ?_ fuel hs
  intro s s' hs hstep
  rcases consumeStep_eq hs.aborted (hs.size ▸ hcap) with ⟨-, hnone⟩ | ⟨t, s'', ht, hsome, hfol⟩
  · rw [hnone] at hstep
    exact absurd hstep (by simp)
  · rw [hsome, Option.some_inj] at hstep
    subst hstep
    have hbytes := frameStep_accounted ht
    have hle := hs.le
    rw [accounted, ← RingBuffer.length_contents] at hle
    refine ⟨hfol.aborted, hfol.size.trans hs.size, ?_⟩
    rw [accounted, delivered_append hfol.events, streamBytes_append, ← RingBuffer.length_contents,
      hfol.contents]
    omega

theorem accounts_pass {cap bound : ℕ} (hcap : sizeofIpcPackageHeader < cap) {s : State}
    (hs : Accounts cap bound s) (chunk : List UInt8) :
    Accounts cap (bound + min chunk.length (cap - s.ring.readAvail)) (pass s chunk) := by
  refine accounts_consumeLoop hcap _ ⟨by rw [fill_aborted, hs.aborted],
    by rw [fill_bufferSize, hs.size], ?_⟩
  have hle := hs.le
  have hadd := s.ring.avail_add
  have hsize := hs.size
  rw [accounted] at hle
  rw [accounted, State.delivered, fill_events, ← State.delivered, ← RingBuffer.length_contents,
    contents_fill, List.length_append, RingBuffer.length_contents, List.length_take]
  omega

theorem accounts_foldl {cap bound : ℕ} (hcap : sizeofIpcPackageHeader < cap) {s : State}
    (hs : Accounts cap bound s) (chunks : List (List UInt8)) :
    Accounts cap (bound + chunks.flatten.length) (chunks.foldl pass s) := by
  induction chunks generalizing s bound with
  | nil => exact hs
  | cons chunk chunks ih =>
    have htail := ih (accounts_pass hcap hs chunk)
    refine ⟨htail.aborted, htail.size, htail.le.trans ?_⟩
    rw [List.flatten_cons, List.length_append]
    omega

theorem accounts_readFrom {ring : RingBuffer} (hcap : sizeofIpcPackageHeader < ring.bufferSize)
    (hring : ring.contents = []) (chunks : List (List UInt8)) :
    Accounts ring.bufferSize chunks.flatten.length (readFrom ring chunks) := by
  have havail : ring.readAvail = 0 := by rw [← RingBuffer.length_contents, hring, List.length_nil]
  have hstart : Accounts ring.bufferSize 0 (start ring) :=
    ⟨rfl, rfl, by rw [accounted, start, havail]; rfl⟩
  have hrun := accounts_foldl hcap hstart chunks
  rwa [Nat.zero_add] at hrun

/-- When every byte of the stream is accounted for, every read was taken whole. -/
theorem room_of_accounted {ring : RingBuffer} (hcap : sizeofIpcPackageHeader < ring.bufferSize)
    (hring : ring.contents = []) {pre post : List (List UInt8)} {chunk : List UInt8}
    (h : (pre ++ chunk :: post).flatten.length ≤ accounted (readFrom ring (pre ++ chunk :: post))) :
    (readFrom ring pre).ring.readAvail + chunk.length ≤ ring.bufferSize := by
  have hpre := accounts_readFrom hcap hring pre
  have hpost := (accounts_foldl hcap (accounts_pass hcap hpre chunk) post).le
  rw [readFrom, List.foldl_append, List.foldl_cons, ← readFrom, List.flatten_append,
    List.flatten_cons, List.length_append, List.length_append] at h
  have hle := (readFrom ring pre).ring.readAvail_le
  have hsize := hpre.size
  omega

/-! ## When every message is delivered -/

theorem fits_append_singleton {cap : ℕ} {ms : List Message} {chunks : List (List UInt8)}
    {chunk : List UInt8} (h : Fits cap ms chunks)
    (hchunk : pending ms chunks.flatten.length + chunk.length ≤ cap) :
    Fits cap ms (chunks ++ [chunk]) := by
  intro pre c post heq
  rcases List.eq_nil_or_concat post with rfl | ⟨post, c', rfl⟩
  · obtain ⟨rfl, hc⟩ := List.append_inj' heq rfl
    rw [← List.singleton_inj.mp hc]
    exact hchunk
  · rw [List.concat_eq_append, ← List.cons_append, ← List.append_assoc] at heq
    exact h pre c post (List.append_inj' heq rfl).1

/-- Nothing is lost of a stream that is delivered whole. -/
theorem fits_of_delivered {ring : RingBuffer} (hcap : sizeofIpcPackageHeader < ring.bufferSize)
    (hring : ring.contents = []) {ms : List Message} (hlt : ∀ m ∈ ms, m.payload.length < 2 ^ 31)
    {chunks : List (List UInt8)} (hstream : chunks.flatten = wires ms)
    (h : (readFrom ring chunks).delivered = ms.map Message.delivery) :
    Fits ring.bufferSize ms chunks := by
  have hall : chunks.flatten.length ≤ accounted (readFrom ring chunks) := by
    rw [accounted, h, streamBytes_delivery, hstream]
    exact Nat.le_add_right _ _
  suffices hpre : ∀ pre, pre <+: chunks → Fits ring.bufferSize ms pre from
    hpre chunks List.prefix_rfl
  intro pre
  induction pre using List.reverseRecOn with
  | nil =>
    intro _ pre chunk post heq
    exact absurd heq (by simp)
  | append_singleton pre chunk ih =>
    rintro ⟨post, rfl⟩
    have hfits := ih ⟨chunk :: post, by simp⟩
    have hprefix : pre.flatten <+: wires ms := by
      rw [← hstream]
      exact ⟨chunk ++ post.flatten, by simp⟩
    rw [List.append_assoc, List.singleton_append] at hall
    have hroom := room_of_accounted hcap hring hall
    rw [(at_readFrom hcap hring hlt hprefix hfits).readAvail] at hroom
    exact fits_append_singleton hfits hroom

theorem takenCount_le (ms : List Message) (n : ℕ) : takenCount ms n ≤ ms.length := by
  induction ms generalizing n with
  | nil => exact le_rfl
  | cons m ms ih =>
    rw [takenCount, List.length_cons]
    split
    · exact Nat.succ_le_succ (ih _)
    · exact Nat.zero_le _

/-- The whole stream is enough to take every message exactly when the last message
has a payload. -/
theorem takenCount_wires (ms : List Message) :
    takenCount ms (wires ms).length = ms.length ↔ ∀ m ∈ ms.getLast?, m.payload ≠ [] := by
  induction ms with
  | nil => simp
  | cons m ms ih =>
    rw [takenCount, wires_cons, List.length_append, Nat.add_sub_cancel_left, List.length_cons]
    cases ms with
    | nil =>
      rw [wires_nil, List.length_nil, Nat.add_zero, Message.length_wire]
      by_cases hempty : m.payload = []
      · simp [hempty]
      · have := List.length_pos_iff.mpr hempty
        rw [if_pos (by omega)]
        simp [hempty, takenCount]
    | cons m' ms =>
      have hlong : sizeofIpcPackageHeader < m.wire.length + (wires (m' :: ms)).length := by
        rw [wires_cons, List.length_append, Message.length_wire, Message.length_wire,
          sizeofIpcPackageHeader]
        omega
      rw [if_pos ⟨hlong, Nat.le_add_right _ _⟩, Nat.add_right_cancel_iff, ih,
        List.getLast?_cons_cons]

/-- **Delivery in any ring buffer.** -/
theorem delivered_readFrom_eq_iff {ring : RingBuffer}
    (hcap : sizeofIpcPackageHeader < ring.bufferSize) (hring : ring.contents = [])
    {ms : List Message} (hlt : ∀ m ∈ ms, m.payload.length < 2 ^ 31) {chunks : List (List UInt8)}
    (hstream : chunks.flatten = wires ms) :
    (readFrom ring chunks).delivered = ms.map Message.delivery ↔
      Fits ring.bufferSize ms chunks ∧ ∀ m ∈ ms.getLast?, m.payload ≠ [] := by
  rw [← takenCount_wires]
  constructor
  · intro h
    have hfits := fits_of_delivered hcap hring hlt hstream h
    have hat := (at_readFrom hcap hring hlt (hstream ▸ List.prefix_rfl) hfits).delivered
    have hlen := congrArg List.length (h.symm.trans hat)
    rw [hstream, List.length_map, List.length_map, List.length_take] at hlen
    have hle := takenCount_le ms (wires ms).length
    exact ⟨hfits, by omega⟩
  · rintro ⟨hfits, hcount⟩
    rw [(at_readFrom hcap hring hlt (hstream ▸ List.prefix_rfl) hfits).delivered, hstream, hcount,
      List.take_length]

/-- **When `readLoop` delivers a stream of messages.**  Each message reaches the
listener once, in order and whole, exactly when every read fits into the ring
buffer beside what is pending and the last message has a payload. -/
theorem delivered_readLoop_eq_iff {ms : List Message}
    (hms : ∀ m ∈ ms, m.wire.length ≤ fmqbuffer.bufferSize) {chunks : List (List UInt8)}
    (hstream : chunks.flatten = wires ms) :
    (readLoop chunks).delivered = ms.map Message.delivery ↔
      Fits fmqbuffer.bufferSize ms chunks ∧ ∀ m ∈ ms.getLast?, m.payload ≠ [] := by
  refine delivered_readFrom_eq_iff (by decide) fmqbuffer_contents ?_ hstream
  intro m hm
  have hle := hms m hm
  rw [Message.length_wire, fmqbuffer_bufferSize] at hle
  omega

/-- A message read in two pieces, the first of them half its sync word. -/
theorem delivered_readLoop_eq_iff_two_pieces :
    (readLoop [[0xB1, 0xC0], (Message.mk 7 .subData [1, 2]).wire.drop 2]).delivered =
      [Message.mk 7 .subData [1, 2]].map Message.delivery := by
  refine (delivered_readLoop_eq_iff ?_ ?_).mpr ⟨?_, ?_⟩
  · intro m hm
    rw [List.mem_singleton.mp hm, fmqbuffer_bufferSize]
    decide
  · decide
  · have hnil : Fits fmqbuffer.bufferSize [Message.mk 7 .subData [1, 2]] [] :=
      fun _ _ _ h => absurd h (by simp)
    exact fits_append_singleton (fits_append_singleton hnil (by decide)) (by decide)
  · decide

/-- Data of no bytes, sent last, is not delivered. -/
theorem readLoop_empty_subData :
    (readLoop [(Message.mk 7 .subData []).wire]).delivered ≠
      [Message.delivery ⟨7, .subData, []⟩] := by
  intro h
  have hstream : [(Message.mk 7 .subData []).wire].flatten = wires [⟨7, .subData, []⟩] := by decide
  have hiff := delivered_readFrom_eq_iff (show _ < fmqbuffer.bufferSize by decide)
    fmqbuffer_contents (by simp) hstream
  exact (hiff.mp h).2 ⟨7, .subData, []⟩ rfl rfl

end FmqReceiver
end AmlSubtitle
