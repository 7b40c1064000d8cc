import AmlSubtitle.Client.SubtitleReportAPI
import AmlSubtitle.Ipc.FmqReceiver

/-!
# Safety of `FmqReceiver::readLoop` against any stream

Here the bytes on the message queue are arbitrary.  The loop is run one action at
a time, a read of the queue or one pass of the inner loop, so that every state in
between is looked at; a read is made only when the inner loop has been left.

A state is `Good` when every copy so far went into its payload buffer, no
assertion of the ring buffer has failed, and some continuation of the stream makes
the loop deliver or skip something more.  Of the three, only the second always
holds:

* a `dataSize` from `-4` to `-1` makes `malloc` grant less than the four bytes of
  the type that are copied into it (`SizeFits` excludes it);
* a `dataSize` below `-20`, or above what fits into the ring buffer beside its
  header, is waited for without end (`Completable` excludes it).

`good_iff` says that a run is good exactly when it meets neither.
-/

namespace AmlSubtitle
namespace FmqReceiver

open Run

/-- What the loop does next. -/
inductive Action where
  | read (chunk : List UInt8)
  | iterate
  deriving DecidableEq, Repr

/-- One action of the loop.  A read takes place only when the inner loop has been
left. -/
def exec (s : State) : Action → State
  | .read chunk => if consumeStep s = none then fill s chunk else s
  | .iterate => (consumeStep s).getD s

/-- Some continuation makes the loop deliver or skip something. -/
def Live (s : State) : Prop := ∃ es : List Action, s.events.length < (es.foldl exec s).events.length

/-- What is asked of every state of the loop. -/
structure Good (s : State) : Prop where
  inBounds : ∀ c ∈ s.copies, c.InBounds
  aborted : s.aborted = false
  live : Live s

/-- A header the loop does something about in a ring buffer of `cap` bytes: it is
resynced over, or what it announces fits. -/
def Acceptable (cap : ℕ) (head : List UInt8) : Prop :=
  wrongSync head ∨ (-20 ≤ (parseHeader head).dataSize ∧ (parseHeader head).dataSize + 20 ≤ cap)

/-- The bytes at the front of the ring buffer are, or can become, an acceptable
header. -/
def Completable (s : State) : Prop :=
  ∃ tail, sizeofIpcPackageHeader ≤ (s.ring.contents ++ tail).length ∧
    Acceptable s.ring.bufferSize ((s.ring.contents ++ tail).take sizeofIpcPackageHeader)

/-- The header at the front, if the loop takes it for one, does not announce a size
from `-4` to `-1`. -/
def SizeFits (s : State) : Prop :=
  sizeofIpcPackageHeader < s.ring.contents.length →
    ¬ wrongSync (s.ring.contents.take sizeofIpcPackageHeader) →
      ¬ (-4 ≤ (parseHeader (s.ring.contents.take sizeofIpcPackageHeader)).dataSize ∧
        (parseHeader (s.ring.contents.take sizeofIpcPackageHeader)).dataSize < 0)

/-- A pass of the loop is a read and as many passes of the inner loop as it
makes. -/
theorem pass_eq_foldl_exec {s : State} (h : consumeStep s = none) (chunk : List UInt8) :
    ∃ k, pass s chunk = (Action.read chunk :: List.replicate k .iterate).foldl exec s := by
  have hloop : ∀ k s, consumeLoop k s = (List.replicate k Action.iterate).foldl exec s := by
    intro k
    induction k with
    | zero => exact fun _ => rfl
    | succ k ih =>
      intro s
      rw [List.replicate_succ, List.foldl_cons, ← ih, consumeLoop, exec]
      cases hstep : consumeStep s with
      | none => exact (consumeLoop_of_none hstep k).symm
      | some s' => rfl
  refine ⟨(fill s chunk).ring.readAvail, ?_⟩
  rw [List.foldl_cons, ← hloop, exec, if_pos h, pass]

/-! ## What every action preserves -/

/-- The loop in a ring buffer of `cap` bytes, no assertion having failed. -/
structure Running (cap : ℕ) (s : State) : Prop where
  aborted : s.aborted = false
  size : s.ring.bufferSize = cap

variable {cap : ℕ}

/-- One action takes what `frameStep` takes, adds a read, or does nothing. -/
theorem exec_cases (hcap : sizeofIpcPackageHeader < cap) {s : State} (hs : Running cap s)
    (a : Action) :
    (∃ chunk, a = .read chunk ∧ frameStep s.ring.contents = none ∧ exec s a = fill s chunk) ∨
      (∃ t, a = .iterate ∧ frameStep s.ring.contents = some t ∧ Follows s (exec s a) t) ∨
      exec s a = s := by
  rcases consumeStep_eq hs.aborted (hs.size ▸ hcap) with
    ⟨hframe, hstep⟩ | ⟨t, s', hframe, hstep, hfol⟩
  · cases a with
    | read chunk => exact Or.inl ⟨chunk, rfl, hframe, if_pos hstep⟩
    | iterate => exact Or.inr (Or.inr (by rw [exec, hstep]; rfl))
  · cases a with
    | read chunk => exact Or.inr (Or.inr (if_neg (by rw [hstep]; simp)))
    | iterate =>
      refine Or.inr (Or.inl ⟨t, rfl, hframe, ?_⟩)
      rw [exec, hstep]
      exact hfol

/-- A pass that can take something takes it. -/
theorem exec_iterate (hcap : sizeofIpcPackageHeader < cap) {s : State} (hs : Running cap s)
    {t : Taken} (ht : frameStep s.ring.contents = some t) : Follows s (exec s .iterate) t := by
  rcases consumeStep_eq hs.aborted (hs.size ▸ hcap) with ⟨hnone, -⟩ | ⟨t', s', ht', hstep, hfol⟩
  · rw [hnone] at ht
    exact absurd ht (by simp)
  · rw [ht', Option.some_inj] at ht
    rw [exec, hstep, ← ht]
    exact hfol

theorem running_exec (hcap : sizeofIpcPackageHeader < cap) {s : State} (hs : Running cap s)
    (a : Action) : Running cap (exec s a) := by
  obtain ⟨chunk, -, -, h⟩ | ⟨t, -, -, h⟩ | h := exec_cases hcap hs a
  · rw [h]
    exact ⟨by rw [fill_aborted, hs.aborted], by rw [fill_bufferSize, hs.size]⟩
  · exact ⟨h.aborted, h.size.trans hs.size⟩
  · rw [h]
    exact hs

/-- The four bytes of the type fit unless the announced size is from `-4` to `-1`,
and the payload always does. -/
theorem inBounds_takenPackage (curHeader : IpcPackageHeader) (bytes : List UInt8) :
    (∀ c ∈ (takenPackage curHeader bytes).copies, c.InBounds) ↔
      ¬ (-4 ≤ curHeader.dataSize ∧ curHeader.dataSize < 0) := by
  unfold takenPackage
  by_cases halloc : curHeader.dataSize + 4 < 0
  · rw [if_pos halloc]
    refine iff_of_true (by simp) ?_
    omega
  · rw [if_neg halloc]
    simp only [List.mem_cons, List.not_mem_nil, or_false, forall_eq_or_imp, forall_eq,
      PayloadCopy.InBounds, List.length_take]
    omega

/-- The copies of a pass are in bounds exactly when the header it took fits. -/
theorem inBounds_iff_sizeFits {s : State} {t : Taken} (h : frameStep s.ring.contents = some t) :
    (∀ c ∈ t.copies, c.InBounds) ↔ SizeFits s := by
  obtain ⟨hshort, hresync | hpackage⟩ := frameStep_cases h
  · rw [hresync.2]
    exact iff_of_true (by simp [takenResync]) fun _ hsync => absurd hresync.1 hsync
  · rw [hpackage.2.2, inBounds_takenPackage]
    exact ⟨fun hfits _ _ => hfits, fun hfits => hfits hshort hpackage.1⟩

/-- A header that does not fit is taken at once: it asks for fewer bytes than are
there. -/
theorem exists_frameStep_of_not_sizeFits {s : State} (h : ¬ SizeFits s) :
    ∃ t, frameStep s.ring.contents = some t := by
  simp only [SizeFits, not_forall, not_not] at h
  obtain ⟨hshort, hsync, hsize⟩ := h
  have hneeded := needed_parseHeader (s.ring.contents.take sizeofIpcPackageHeader)
  rw [if_neg (by omega)] at hneeded
  refine exists_frameStep hshort (Or.inr ?_)
  rw [sizeofIpcPackageHeader] at hshort
  omega

/-! ## Going on -/

/-- A header that is not acceptable is waited for in vain. -/
theorem frameStep_of_not_acceptable (hbig : cap < 2 ^ 63) {bytes : List UInt8}
    (hle : bytes.length ≤ cap)
    (h : sizeofIpcPackageHeader ≤ bytes.length →
      ¬ Acceptable cap (bytes.take sizeofIpcPackageHeader)) : frameStep bytes = none := by
  by_contra hsome
  obtain ⟨t, ht⟩ := Option.ne_none_iff_exists'.mp hsome
  obtain ⟨hshort, hresync | hpackage⟩ := frameStep_cases ht
  · exact h (le_of_lt hshort) (Or.inl hresync.1)
  · refine h (le_of_lt hshort) (Or.inr ?_)
    have hwait := hpackage.2.1
    have hneeded := needed_parseHeader (bytes.take sizeofIpcPackageHeader)
    have hmin := le_dataSize (bytes.take sizeofIpcPackageHeader)
    split at hneeded <;> omega

/-- Bytes at the front that cannot become an acceptable header stay there. -/
theorem exec_of_not_completable (hcap : sizeofIpcPackageHeader < cap) (hbig : cap < 2 ^ 63)
    {s : State} (hs : Running cap s) (h : ¬ Completable s) (a : Action) :
    ¬ Completable (exec s a) ∧ (exec s a).events = s.events := by
  have hnone : frameStep s.ring.contents = none := by
    refine frameStep_of_not_acceptable hbig ?_ fun hlong hacc => h ⟨[], ?_, ?_⟩
    · rw [RingBuffer.length_contents, ← hs.size]
      exact s.ring.readAvail_le
    · rwa [List.append_nil]
    · rwa [List.append_nil, hs.size]
  obtain ⟨chunk, -, -, hexec⟩ | ⟨t, -, ht, -⟩ | hexec := exec_cases hcap hs a
  · rw [hexec, fill_events]
    refine ⟨?_, rfl⟩
    rintro ⟨tail, hlong, hacc⟩
    rw [contents_fill, List.append_assoc] at hlong hacc
    exact h ⟨_, hlong, by rwa [fill_bufferSize] at hacc⟩
  · rw [hnone] at ht
    exact absurd ht (by simp)
  · rw [hexec]
    exact ⟨h, rfl⟩

/-- Bytes that can become an acceptable header are continued to something the loop
takes by filling the ring buffer up. -/
theorem exists_continuation (hcap : sizeofIpcPackageHeader < cap) {bytes tail : List UInt8}
    (hle : bytes.length ≤ cap) (hlong : sizeofIpcPackageHeader ≤ (bytes ++ tail).length)
    (hacc : Acceptable cap ((bytes ++ tail).take sizeofIpcPackageHeader)) :
    ∃ chunk t, bytes.length + chunk.length ≤ cap ∧ frameStep (bytes ++ chunk) = some t := by
  set chunk := (tail ++ List.replicate cap 0).take (cap - bytes.length) with hchunk
  have hfull : bytes ++ chunk = (bytes ++ tail ++ List.replicate cap 0).take cap := by
    rw [List.append_assoc, List.take_append, List.take_of_length_le hle]
  have hlen : (bytes ++ chunk).length = cap := by
    rw [hfull, List.length_take, List.length_append, List.length_replicate]
    omega
  have hhead : (bytes ++ chunk).take sizeofIpcPackageHeader =
      (bytes ++ tail).take sizeofIpcPackageHeader := by
    rw [hfull, List.take_take, min_eq_left (le_of_lt hcap), List.take_append_of_le_length hlong]
  have hwait : wrongSync ((bytes ++ chunk).take sizeofIpcPackageHeader) ∨
      needed (parseHeader ((bytes ++ chunk).take sizeofIpcPackageHeader)) ≤
        (bytes ++ chunk).length := by
    rw [hhead, hlen]
    refine hacc.imp_right fun hsize => ?_
    have hneeded := needed_parseHeader ((bytes ++ tail).take sizeofIpcPackageHeader)
    rw [if_neg (by omega)] at hneeded
    omega
  obtain ⟨t, ht⟩ := exists_frameStep (hlen ▸ hcap) hwait
  refine ⟨chunk, t, ?_, ht⟩
  rw [← List.length_append, hlen]

/-- **The loop can go on** exactly when the front of the ring buffer is, or can
become, an acceptable header. -/
theorem live_iff_completable (hcap : sizeofIpcPackageHeader < cap) (hbig : cap < 2 ^ 63)
    {s : State} (hs : Running cap s) : Live s ↔ Completable s := by
  constructor
  · rintro ⟨es, hes⟩
    by_contra hnot
    have hrun := invariant (I := fun t => Running cap t ∧ ¬ Completable t ∧ t.events = s.events)
      (fun t a ht => by
        have hstay := exec_of_not_completable hcap hbig ht.1 ht.2.1 a
        exact ⟨running_exec hcap ht.1 a, hstay.1, hstay.2.trans ht.2.2⟩)
      ⟨hs, hnot, rfl⟩ es
    rw [hrun.2.2] at hes
    exact lt_irrefl _ hes
  · rintro ⟨tail, hlong, hacc⟩
    have hle : s.ring.contents.length ≤ cap := by
      rw [RingBuffer.length_contents, ← hs.size]
      exact s.ring.readAvail_le
    have hprogress : ∀ u t, Running cap u → frameStep u.ring.contents = some t →
        (exec u .iterate).events.length = u.events.length + 1 := by
      intro u t hu ht
      rw [(exec_iterate hcap hu ht).events, List.length_append, List.length_singleton]
    rcases consumeStep_eq hs.aborted (hs.size ▸ hcap) with ⟨-, hstop⟩ | ⟨t, -, ht, -⟩
    · rw [hs.size] at hacc
      obtain ⟨chunk, t, hfits, ht⟩ := exists_continuation hcap hle hlong hacc
      refine ⟨[.read chunk, .iterate], ?_⟩
      have hread : exec s (.read chunk) = fill s chunk := if_pos hstop
      have hadd := s.ring.avail_add
      have hsize := hs.size
      rw [RingBuffer.length_contents] at hfits
      rw [List.foldl_cons, List.foldl_cons, List.foldl_nil, hread,
        hprogress _ t (hread ▸ running_exec hcap hs (.read chunk)) ?_, fill_events]
      · exact Nat.lt_succ_self _
      · rw [contents_fill, List.take_of_length_le (by omega), ht]
    · refine ⟨[.iterate], ?_⟩
      rw [List.foldl_cons, List.foldl_nil, hprogress s t hs ht]
      exact Nat.lt_succ_self _

/-! ## Good runs -/

theorem running_start (ring : RingBuffer) : Running ring.bufferSize (start ring) := ⟨rfl, rfl⟩

/-- **When a run is good**, in any ring buffer. -/
theorem good_iff_of_ring {ring : RingBuffer} (hcap : sizeofIpcPackageHeader < ring.bufferSize)
    (hbig : ring.bufferSize < 2 ^ 63) (es : List Action) :
    (∀ t, Reached exec (start ring) es t → Good t) ↔
      (∀ t, Reached exec (start ring) es t → Completable t) ∧
        Meets exec (fun s a => a = .iterate → SizeFits s) (start ring) es := by
  have hrunning : ∀ p : List Action, Running ring.bufferSize (p.foldl exec (start ring)) :=
    fun p => invariant (I := Running ring.bufferSize) (fun _ a hs => running_exec hcap hs a)
      (running_start ring) p
  constructor
  · intro hgood
    refine ⟨?_, meets_iff.mpr ?_⟩
    · rintro t ⟨p, hp, rfl⟩
      exact (live_iff_completable hcap hbig (hrunning p)).mp (hgood _ ⟨p, hp, rfl⟩).live
    · rintro p a hp rfl
      by_contra hfits
      obtain ⟨t, ht⟩ := exists_frameStep_of_not_sizeFits hfits
      have hnext := hgood _ ⟨p ++ [.iterate], hp, rfl⟩
      rw [List.foldl_append, List.foldl_cons, List.foldl_nil] at hnext
      refine hfits ((inBounds_iff_sizeFits ht).mp fun c hc => hnext.inBounds c ?_)
      rw [(exec_iterate hcap (hrunning p) ht).copies]
      exact List.mem_append_right _ hc
  · rintro ⟨hcomp, hmeets⟩ t ht
    have hinv := invariant_of_meets (I := fun s => Running ring.bufferSize s ∧
        ∀ c ∈ s.copies, c.InBounds) (fun s a hs hC => ?_) ⟨running_start ring, by simp [start]⟩
      hmeets ht
    · exact ⟨hinv.2, hinv.1.aborted, (live_iff_completable hcap hbig hinv.1).mpr (hcomp t ht)⟩
    · refine ⟨running_exec hcap hs.1 a, ?_⟩
      obtain ⟨chunk, -, -, h⟩ | ⟨t, ha, ht, hfol⟩ | h := exec_cases hcap hs.1 a
      · rw [h, fill_copies]
        exact hs.2
      · rw [hfol.copies]
        intro c hc
        rcases List.mem_append.mp hc with hc | hc
        · exact hs.2 c hc
        · exact (inBounds_iff_sizeFits ht).mpr (hC ha) c hc
      · rw [h]
        exact hs.2

/-- **When a run of `readLoop` is good.**  Every state of a run is good exactly when
in every state the front of the ring buffer is, or can become, an acceptable
header, and no pass begins at a header that announces a size from `-4` to `-1`. -/
theorem good_iff (es : List Action) :
    (∀ t, Reached exec (start fmqbuffer) es t → Good t) ↔
      (∀ t, Reached exec (start fmqbuffer) es t → Completable t) ∧
        Meets exec (fun s a => a = .iterate → SizeFits s) (start fmqbuffer) es :=
  good_iff_of_ring (by decide) (by decide) es

theorem contents_first_read {chunk : List UInt8} (h : chunk.length ≤ 1048576) :
    (exec (start fmqbuffer) (.read chunk)).ring.contents = chunk := by
  have hread : exec (start fmqbuffer) (.read chunk) = fill (start fmqbuffer) chunk := by
    have hstop : consumeStep (start fmqbuffer) = none := rfl
    rw [exec, if_pos hstop]
  have hroom : (start fmqbuffer).ring.writeAvail = 1048576 := rfl
  rw [hread, contents_fill, hroom, List.take_of_length_le h, start, fmqbuffer_contents,
    List.nil_append]

/-- A header that announces `-1` bytes makes the loop write past the payload buffer,
and one that announces the largest `int` is waited for without end. -/
theorem not_good_negative_and_huge :
    (∃ t, Reached exec (start fmqbuffer) [.read (makeHeader 7 .subData (-1) ++ [0]), .iterate] t ∧
        ¬ Good t) ∧
      ∃ t, Reached exec (start fmqbuffer) [.read (makeHeader 7 .subData 2147483647)] t ∧
        ¬ Live t := by
  constructor
  · by_contra hall
    simp only [not_exists, not_and, not_not] at hall
    have hiff := good_iff_of_ring (show _ < fmqbuffer.bufferSize by decide) (by decide)
      [.read (makeHeader 7 .subData (-1) ++ [0]), .iterate]
    have hfits := (hiff.mp hall).2.2.1 rfl
    rw [SizeFits, contents_first_read (by decide)] at hfits
    exact absurd hfits (by decide)
  · refine ⟨_, reached_last _ _, ?_⟩
    have hrun := running_exec (by decide) (running_start fmqbuffer)
      (.read (makeHeader 7 .subData 2147483647))
    rw [List.foldl_cons, List.foldl_nil, live_iff_completable (by decide) (by decide) hrun]
    rintro ⟨tail, -, hacc⟩
    rw [contents_first_read (by decide), List.take_left' (by decide), hrun.size] at hacc
    exact absurd hacc (by
      rw [fmqbuffer_bufferSize, Acceptable]
      decide)

end FmqReceiver
end AmlSubtitle
