import AmlSubtitle.Lib.Run
import AmlSubtitle.Lib.Words
import AmlSubtitle.Utils.Segment

/-!
# `DemuxSource::read`

The demux callback pushes sections while the parser thread reads them in pieces of
its own choosing.  A read may wait for a section in the middle, so it is not one
step: `turn` is one round of its loop, and pushes, `stop` and `notifyExit` fall
between the rounds as they like.

`read` counts the bytes a read has copied as an `int` and compares it with the
requested `size_t`; `Counted` says that the count never overflows.  A request
larger than an `int` is converted to whatever its low 32 bits say: the piece asked
of an item is then negative, which no `memcpy` survives (`crashed`), or too small
for the loop ever to end.

`returned_prefix`: in every state every run reaches, the bytes returned by finished
reads, then those of the read under way, then those left in the current item and in
the queue are the bytes that were pushed.
-/

namespace AmlSubtitle
namespace DemuxSource

open Words

/-- A read under way: its size, and what it has copied so far. -/
structure Reading where
  size : ℕ
  got : List UInt8

/-- The source, from its start on. -/
structure State where
  mSegment : BufferSegment
  mCurrentItem : Option BufferItem
  started : Bool
  reading : Option Reading
  crashed : Bool
  pushed : List UInt8
  returned : List UInt8

/-- `DemuxSource::start`. -/
def start : State where
  mSegment := ⟨[], true⟩
  mCurrentItem := none
  started := true
  reading := none
  crashed := false
  pushed := []
  returned := []

/-- What can happen: `pes_data_cb` pushes a section, the parser calls `read`, the read
goes once round its loop, `stop` sets the state and, after that, disables the queue. -/
inductive Event where
  | push (s : Section)
  | read (size : ℕ)
  | turn
  | stop
  | notifyExit

/-- The bytes an event pushes. -/
def Event.pushed : Event → List UInt8
  | .push s => s.bytes
  | _ => []

/-- The size a read goes by at an item: `0xffff` stands for the size of the item. -/
def Reading.sizeAt (r : Reading) (item : BufferItem) : ℕ :=
  if r.size = 0xffff then item.getSize else r.size

namespace State

/-- The read returns. -/
def finish (s : State) (r : Reading) : State :=
  { s with reading := none, returned := s.returned ++ r.got }

/-- The current item has bytes left. -/
def itemLeft (s : State) : Option BufferItem := s.mCurrentItem.filter fun item => !item.isEmpty

/-- One round of the loop, for a read that has not got its size yet. -/
def round (s : State) (r : Reading) : State :=
  match s.itemLeft with
  | some item =>
    match item.readCheck (asSigned 32 (r.sizeAt item - r.got.length)) with
    | some (bytes, item', isReadItemEnd) =>
      let r : Reading := ⟨r.sizeAt item, r.got ++ bytes⟩
      let s := { s with mCurrentItem := some item', reading := some r }
      if r.got.length = r.size ∨ isReadItemEnd then s.finish r else s
    | none => { s with crashed := true }
  | none =>
    match s.mSegment.pop with
    | some (item, q) => { s with mSegment := q, mCurrentItem := item }
    | none => s

/-- The condition of the loop and one round of it. -/
def turn (s : State) : State :=
  match s.reading with
  | some r => if r.got.length ≠ r.size ∧ s.started then s.round r else s.finish r
  | none => s

/-- One event.  A thread reads once at a time, and not after a crash. -/
def step (s : State) (e : Event) : State :=
  if s.crashed then s else
  match e with
  | .push t => { s with mSegment := s.mSegment.push t, pushed := s.pushed ++ t.bytes }
  | .read size => if s.reading.isSome then s else { s with reading := some ⟨size, []⟩ }
  | .turn => s.turn
  | .stop => { s with started := false }
  | .notifyExit => { s with mSegment := s.mSegment.notifyExit }

/-- A run from the start of the source. -/
def run (es : List Event) : State := es.foldl step start

/-- The bytes copied by the read under way. -/
def inFlight (s : State) : List UInt8 := s.reading.elim [] Reading.got

/-- The bytes not copied yet. -/
def left (s : State) : List UInt8 := s.mCurrentItem.elim [] BufferItem.rest ++ s.mSegment.rest

/-- The accounting of the pushed bytes. -/
def Accounted (s : State) : Prop := s.returned ++ s.inFlight ++ s.left = s.pushed

/-- The count of a read fits in an `int`: either nothing has been copied, or the low
32 bits of the request bound it. -/
def Counted (s : State) : Prop :=
  ∀ r ∈ s.reading, r.got = [] ∨ (r.got.length ≤ r.size % 2 ^ 32 ∧ r.size % 2 ^ 32 < 2 ^ 31)

theorem Counted.lt {s : State} (h : s.Counted) {r : Reading} (hr : r ∈ s.reading) :
    r.got.length < 2 ^ 31 := by
  rcases h r hr with hnil | ⟨hle, hlt⟩
  · rw [hnil]
    decide
  · omega

theorem accounted_start : start.Accounted := rfl

/-! ## One round -/

/-- A finished read hands its bytes over. -/
theorem Accounted.finish {s : State} {r : Reading} (h : s.Accounted) (hr : s.reading = some r) :
    (s.finish r).Accounted := by
  rw [Accounted, inFlight, hr] at h
  show s.returned ++ r.got ++ [] ++ s.left = s.pushed
  rw [List.append_nil]
  exact h

theorem left_of_itemLeft_eq_none {s : State} (h : s.itemLeft = none) :
    s.left = s.mSegment.rest := by
  rw [left]
  cases hitem : s.mCurrentItem with
  | none => rfl
  | some item =>
    rw [itemLeft, hitem, Option.filter_eq_none_iff] at h
    have hempty : item.isEmpty := by simpa using h item rfl
    rw [Option.elim_some, BufferItem.rest_of_isEmpty hempty, List.nil_append]

theorem left_of_itemLeft {s : State} {item : BufferItem} (h : s.itemLeft = some item) :
    s.left = item.rest ++ s.mSegment.rest := by
  rw [left, (Option.filter_eq_some_iff.mp h).1]
  rfl

/-- **A round loses no byte.**  What leaves the item goes to the read, and a popped
item is kept. -/
theorem Accounted.round {s : State} {r : Reading} (h : s.Accounted) (hr : s.reading = some r) :
    (s.round r).Accounted := by
  have hacc := h
  rw [Accounted, inFlight, hr] at hacc
  unfold State.round
  split
  · rename_i item hitem
    rw [left_of_itemLeft hitem] at hacc
    dsimp only
    split
    · rename_i bytes item' e hread
      obtain ⟨hrest, -⟩ := BufferItem.readCheck_spec hread
      have hnext : State.Accounted { s with
          mCurrentItem := some item'
          reading := some ⟨r.sizeAt item, r.got ++ bytes⟩ } := by
        rw [Accounted, ← hacc, ← hrest]
        simp only [inFlight, left, Option.elim_some, List.append_assoc]
      split
      · exact hnext.finish rfl
      · exact hnext
    · exact h
  · rename_i hitem
    rw [left_of_itemLeft_eq_none hitem] at hacc
    split
    · rename_i item q hpop
      rw [Accounted, ← hacc, ← BufferSegment.rest_pop hpop]
      simp only [inFlight, left, hr]
    · exact h

/-- What the conversion to `int` still allows of a request. -/
theorem add_le_of_le_asSigned {size got n : ℕ} (hgot : got < 2 ^ 31)
    (hn : (n : ℤ) ≤ asSigned 32 (size - got)) (h : got = 0 ∨ size % 2 ^ 32 < 2 ^ 31) :
    got + n ≤ size % 2 ^ 32 ∧ size % 2 ^ 32 < 2 ^ 31 := by
  have hlt := asSigned_lt 31 (size - got)
  have hmod : asSigned 32 (size - got) % 2 ^ 32 = (size - got) % 2 ^ 32 := by
    unfold asSigned
    exact_mod_cast Int.bmod_emod (x := size - got) (m := 2 ^ 32)
  obtain ⟨t, ht⟩ : ∃ t, asSigned 32 (size - got) = t := ⟨_, rfl⟩
  rw [ht] at hn hlt hmod
  omega

/-- **The count of a read never overflows.**  A round copies no more than the low 32
bits of the request still allow. -/
theorem Counted.round {s : State} {r : Reading} (h : s.Counted) (hr : s.reading = some r) :
    (s.round r).Counted := by
  have hlt := h.lt hr
  unfold State.round
  split
  · rename_i item hitem
    have hbound : r.got.length = 0 ∨ r.sizeAt item % 2 ^ 32 < 2 ^ 31 := by
      have hgetSize : item.getSize < 2 ^ 31 := item.length_lt
      unfold Reading.sizeAt
      rcases h r hr with hnil | ⟨-, hsize⟩
      · exact Or.inl (List.length_eq_zero_iff.mpr hnil)
      · split_ifs
        · omega
        · exact Or.inr hsize
    dsimp only
    split
    · rename_i bytes item' e hread
      obtain ⟨-, hle⟩ := BufferItem.readCheck_spec hread
      have hnext : r.got ++ bytes = [] ∨ ((r.got ++ bytes).length ≤ r.sizeAt item % 2 ^ 32 ∧
          r.sizeAt item % 2 ^ 32 < 2 ^ 31) := by
        have hfull : item.isEmpty = false := by
          simpa using (Option.filter_eq_some_iff.mp hitem).2
        rcases hle with hle | hempty
        · rw [List.length_append]
          exact Or.inr (add_le_of_le_asSigned hlt hle hbound)
        · rw [hfull] at hempty
          cases hempty
      split
      · intro r' hr'
        cases hr'
      · intro r' hr'
        obtain rfl : _ = r' := Option.some_inj.mp hr'
        exact hnext
    · exact h
  · split
    · exact h
    · exact h

/-! ## Runs -/

/-- One event keeps the accounting. -/
theorem Accounted.step {s : State} (h : s.Accounted) (e : Event) : (s.step e).Accounted := by
  unfold State.step
  split
  · exact h
  cases e with
  | push t =>
    rw [Accounted] at h ⊢
    simp only [inFlight, left, BufferSegment.rest_push] at h ⊢
    rw [← h]
    simp only [List.append_assoc]
  | read size =>
    dsimp only
    split
    · exact h
    · rename_i hreading
      rw [Option.not_isSome_iff_eq_none] at hreading
      rw [Accounted, inFlight, hreading] at h
      exact h
  | turn =>
    dsimp only [turn]
    split
    · rename_i r hr
      split
      · exact h.round hr
      · exact h.finish hr
    · exact h
  | stop => exact h
  | notifyExit => exact h

/-- One event keeps the count of the read. -/
theorem Counted.step {s : State} (h : s.Counted) (e : Event) : (s.step e).Counted := by
  unfold State.step
  split
  · exact h
  cases e with
  | push t => exact h
  | read size =>
    dsimp only
    split
    · exact h
    · intro r hr
      rw [← Option.some_inj.mp hr]
      exact Or.inl rfl
  | turn =>
    dsimp only [turn]
    split
    · rename_i r hr
      split
      · exact h.round hr
      · intro r' hr'
        cases hr'
    · exact h
  | stop => exact h
  | notifyExit => exact h

/-- The count of a read fits in an `int` in every reachable state. -/
theorem counted_run (es : List Event) : (run es).Counted :=
  Run.invariant (fun _ e h => h.step e) (fun _ hr => by cases hr) es

theorem pushed_round (s : State) (r : Reading) : (s.round r).pushed = s.pushed := by
  unfold round
  split
  · dsimp only
    split
    · split <;> rfl
    · rfl
  · split <;> rfl

theorem pushed_step {s : State} (h : s.crashed = false) (e : Event) :
    (s.step e).pushed = s.pushed ++ e.pushed := by
  unfold step
  rw [h, if_neg Bool.false_ne_true]
  cases e with
  | push t => rfl
  | read size =>
    dsimp only
    split <;> exact (List.append_nil _).symm
  | turn =>
    dsimp only [turn]
    split
    · split
      · rw [pushed_round]
        exact (List.append_nil _).symm
      · exact (List.append_nil _).symm
    · exact (List.append_nil _).symm
  | stop => exact (List.append_nil _).symm
  | notifyExit => exact (List.append_nil _).symm

theorem step_of_crashed {s : State} (h : s.crashed) (e : Event) : s.step e = s := if_pos h

/-- The bytes pushed before a crash, if there is one. -/
theorem pushed_run (es : List Event) :
    (run es).pushed <+: es.flatMap Event.pushed ∧
      ((run es).crashed = false → (run es).pushed = es.flatMap Event.pushed) := by
  induction es using List.reverseRecOn with
  | nil => exact ⟨List.prefix_rfl, fun _ => rfl⟩
  | append_singleton es e ih =>
    obtain ⟨ihinit, iheq⟩ := ih
    have hrun : run (es ++ [e]) = (run es).step e := by
      rw [run, List.foldl_append]
      rfl
    rw [hrun, List.flatMap_append, List.flatMap_singleton]
    cases hc : (run es).crashed with
    | true =>
      rw [step_of_crashed hc]
      exact ⟨ihinit.trans (List.prefix_append ..), fun h => absurd (hc.symm.trans h) (by decide)⟩
    | false =>
      rw [pushed_step hc, iheq hc]
      exact ⟨List.prefix_rfl, fun _ => rfl⟩

/-- **Reads lose, repeat and reorder nothing.**  In every state a run reaches, the
bytes returned so far are a beginning of the bytes pushed so far, and the rest of them
has been copied by the read under way or waits in the current item and the queue. -/
theorem returned_prefix (es : List Event) :
    (run es).returned <+: es.flatMap Event.pushed ∧
      ((run es).crashed = false →
        (run es).returned ++ (run es).inFlight ++ (run es).left = es.flatMap Event.pushed) := by
  have hacc : (run es).Accounted := Run.invariant (fun _ e h => h.step e) accounted_start es
  obtain ⟨hpushed, hall⟩ := pushed_run es
  refine ⟨List.IsPrefix.trans ⟨(run es).inFlight ++ (run es).left, ?_⟩ hpushed, fun hc => ?_⟩
  · rw [← List.append_assoc]
    exact hacc
  · rw [← hall hc]
    exact hacc

end State
end DemuxSource
end AmlSubtitle
