import AmlSubtitle.Lib.Run
import AmlSubtitle.Lib.Words
import AmlSubtitle.Utils.Segment

/-!
# The count of the queued bytes

A `BufferSegment` keeps `mAvailableDataSize` beside its list: `push` adds the size of
the item to it and `pop` takes the size off again.  `notifyExit` sets it to zero and
leaves the items in the list, from where `pop` still hands them out.

A thread holds the mutex while it changes the list and the count, so a run is a list
of such sections in some order.  `notifyExit` clears `mEnabled` before it takes the
mutex, and its two parts are two events.

* `available_eq_queued_iff`: the runs along which the count is that of the list.
* `segment_push`, `segment_pop`, `segment_exit`: the list does what `BufferSegment`
  does with it.
-/

namespace AmlSubtitle
namespace SegmentCount

open Words

/-- `BufferSegment`, over items of any kind. -/
structure Queue (α : Type*) where
  mSegments : List α
  mAvailableDataSize : ℤ
  mEnabled : Bool

/-- What a thread does to the queue at once. -/
inductive Event (α : Type*) where
  | push (item : α)
  | pop
  /-- `notifyExit` up to the mutex -/
  | disable
  /-- `notifyExit` behind it -/
  | reset

variable {α : Type*}

/-- The constructor. -/
def Queue.new : Queue α := ⟨[], 0, true⟩

section Steps

variable (getSize : α → ℕ)

/-- `push`: an empty buffer is refused. -/
def push (q : Queue α) (item : α) : Queue α :=
  if getSize item = 0 then q
  else { q with
    mSegments := q.mSegments ++ [item]
    mAvailableDataSize := asSigned 32 (q.mAvailableDataSize + getSize item) }

/-- `pop`: `none` while it waits, and otherwise the item popped, which is null once
the queue is empty and disabled. -/
def pop (q : Queue α) : Option (Option α × Queue α) :=
  match q.mSegments with
  | [] => if q.mEnabled then none else some (none, q)
  | item :: items => some (some item, { q with
      mSegments := items
      mAvailableDataSize := asSigned 32 (q.mAvailableDataSize - getSize item) })

/-- One event.  A `pop` that waits has changed nothing. -/
def step (q : Queue α) : Event α → Queue α
  | .push item => push getSize q item
  | .pop => (pop getSize q).elim q Prod.snd
  | .disable => { q with mEnabled := false }
  | .reset => { q with mAvailableDataSize := 0 }

/-- The sizes of the queued items, added up. -/
def Queue.queued (q : Queue α) : ℕ := (q.mSegments.map getSize).sum

/-- The events that keep the count right: there are less than 2³¹ bytes in the queue
afterwards, and none at an exit. -/
def Keeps (q : Queue α) : Event α → Prop
  | .push item => q.queued getSize + getSize item < 2 ^ 31
  | .reset => q.mSegments = []
  | .pop | .disable => True

instance (q : Queue α) : ∀ e, Decidable (Keeps getSize q e)
  | .push item => inferInstanceAs (Decidable (q.queued getSize + getSize item < 2 ^ 31))
  | .reset => decidable_of_iff (q.mSegments.isEmpty = true) List.isEmpty_iff
  | .pop | .disable => isTrue trivial

end Steps

/-! ## The list is that of `BufferSegment` -/

/-- A queue of buffers without its count. -/
def Queue.segment (q : Queue BufferItem) : BufferSegment := ⟨q.mSegments, q.mEnabled⟩

theorem segment_push (q : Queue BufferItem) (s : Section) :
    (push BufferItem.getSize q (.ofSection s)).segment = q.segment.push s := by
  have hsize : BufferItem.getSize (.ofSection s) = 0 ↔ s.bytes = [] := List.length_eq_zero_iff
  unfold push BufferSegment.push
  by_cases h : s.bytes = []
  · rw [if_pos (hsize.mpr h), if_pos h]
  · rw [if_neg (mt hsize.mp h), if_neg h]
    rfl

theorem segment_pop (q : Queue BufferItem) :
    (pop BufferItem.getSize q).map (Prod.map id Queue.segment) = q.segment.pop := by
  obtain ⟨_ | ⟨item, items⟩, count, enabled⟩ := q
  · cases enabled <;> rfl
  · rfl

theorem segment_exit (q : Queue BufferItem) :
    ([.disable, .reset].foldl (step BufferItem.getSize) q).segment = q.segment.notifyExit := rfl

/-! ## The count -/

/-- The count is right, has not reached the sign bit, and every item counts. -/
structure Counted (getSize : α → ℕ) (q : Queue α) : Prop where
  count : q.mAvailableDataSize = q.queued getSize
  queued_lt : q.queued getSize < 2 ^ 31
  pos : ∀ item ∈ q.mSegments, 0 < getSize item

variable {getSize : α → ℕ} {q : Queue α}

theorem counted_new : Counted getSize Queue.new :=
  ⟨rfl, Nat.two_pow_pos 31, fun _ h => absurd h List.not_mem_nil⟩

@[simp] theorem queued_append (items : List α) (item : α) (count : ℤ) (enabled : Bool) :
    Queue.queued getSize ⟨items ++ [item], count, enabled⟩ =
      Queue.queued getSize ⟨items, count, enabled⟩ + getSize item := by
  simp [Queue.queued]

@[simp] theorem queued_cons (items : List α) (item : α) (count : ℤ) (enabled : Bool) :
    Queue.queued getSize ⟨item :: items, count, enabled⟩ =
      getSize item + Queue.queued getSize ⟨items, count, enabled⟩ := by
  simp [Queue.queued]

theorem asSigned_natCast {n : ℕ} (h : n < 2 ^ 31) : asSigned 32 n = n :=
  asSigned_of_lt (by omega)

/-- A queue with an item in it is not empty. -/
theorem Counted.queued_pos (h : Counted getSize q) (hne : q.mSegments ≠ []) :
    0 < q.queued getSize := by
  obtain ⟨item, items, hitems⟩ := List.exists_cons_of_ne_nil hne
  have hpos := h.pos item (hitems ▸ List.mem_cons_self)
  rw [Queue.queued, hitems, List.map_cons, List.sum_cons]
  omega

theorem Counted.push (h : Counted getSize q) {item : α}
    (hlt : q.queued getSize + getSize item < 2 ^ 31) : Counted getSize (push getSize q item) := by
  obtain ⟨items, count, enabled⟩ := q
  unfold SegmentCount.push
  split_ifs with hzero
  · exact h
  · have hcount := h.count
    dsimp only at hcount ⊢
    refine ⟨?_, by rwa [queued_append], fun i hi => ?_⟩
    · dsimp only
      rw [queued_append, hcount, ← Nat.cast_add, asSigned_natCast hlt]
      rfl
    · rcases List.mem_append.mp hi with hi | hi
      · exact h.pos i hi
      · rw [List.eq_of_mem_singleton hi]
        exact Nat.pos_of_ne_zero hzero

theorem Counted.pop (h : Counted getSize q) :
    Counted getSize ((pop getSize q).elim q Prod.snd) := by
  obtain ⟨_ | ⟨item, items⟩, count, enabled⟩ := q
  · cases enabled <;> exact h
  · have hcount := h.count
    have hlt := h.queued_lt
    simp only [queued_cons, Nat.cast_add] at hcount hlt
    have hrest : count - getSize item = Queue.queued getSize ⟨items, count, enabled⟩ := by omega
    have hpop : (SegmentCount.pop getSize ⟨item :: items, count, enabled⟩).elim
        ⟨item :: items, count, enabled⟩ Prod.snd =
        ⟨items, asSigned 32 (count - getSize item), enabled⟩ := rfl
    have hlt' : Queue.queued getSize ⟨items, count, enabled⟩ < 2 ^ 31 := by omega
    rw [hpop, hrest, asSigned_natCast hlt']
    exact ⟨rfl, hlt', fun i hi => h.pos i (List.mem_cons_of_mem _ hi)⟩

/-- **One event** that keeps the count. -/
theorem Counted.step (h : Counted getSize q) {e : Event α} (hkeeps : Keeps getSize q e) :
    Counted getSize (step getSize q e) := by
  cases e with
  | push item => exact h.push hkeeps
  | pop => exact h.pop
  | disable => exact ⟨h.count, h.queued_lt, h.pos⟩
  | reset =>
    refine ⟨?_, h.queued_lt, h.pos⟩
    show (0 : ℤ) = ((q.mSegments.map getSize).sum : ℕ)
    rw [show q.mSegments = [] from hkeeps]
    rfl

/-- **The other events** spoil it. -/
theorem not_counts_step (h : Counted getSize q) {e : Event α} (hkeeps : ¬ Keeps getSize q e) :
    (step getSize q e).mAvailableDataSize ≠ (step getSize q e).queued getSize := by
  cases e with
  | push item =>
    obtain ⟨items, count, enabled⟩ := q
    have hge : 2 ^ 31 ≤ Queue.queued getSize ⟨items, count, enabled⟩ + getSize item :=
      Nat.le_of_not_lt hkeeps
    have hlt := h.queued_lt
    have hstep : step getSize ⟨items, count, enabled⟩ (.push item) =
        ⟨items ++ [item], asSigned 32 (count + getSize item), enabled⟩ := if_neg (by omega)
    have hsigned : 2 * asSigned 32 (count + getSize item) < 2 ^ 32 := asSigned_lt 31 _
    rw [hstep]
    intro heq
    have heq' : asSigned 32 (count + getSize item) =
        (Queue.queued getSize ⟨items, count, enabled⟩ + getSize item : ℕ) := by
      rw [← queued_append]
      exact heq
    omega
  | pop => exact absurd trivial hkeeps
  | disable => exact absurd trivial hkeeps
  | reset =>
    have hpos := h.queued_pos hkeeps
    show (0 : ℤ) ≠ (q.queued getSize : ℕ)
    omega

/-- **The runs along which the count is that of the queued items**: less than 2³¹ bytes
are queued at a time, and an exit finds the queue empty. -/
theorem available_eq_queued_iff (getSize : α → ℕ) (es : List (Event α)) :
    (∀ q, Run.Reached (step getSize) Queue.new es q →
      q.mAvailableDataSize = q.queued getSize) ↔
      Run.Meets (step getSize) (Keeps getSize) Queue.new es :=
  Run.forall_reached_iff (I := Counted getSize)
    (P := fun q => q.mAvailableDataSize = q.queued getSize) (fun _ h => h.count)
    (fun _ _ h hkeeps => h.step hkeeps) (fun _ _ h hkeeps => not_counts_step h hkeeps)
    counted_new es

/-- A buffer of four bytes. -/
def fourBytes : BufferItem := .ofSection ⟨[1, 2, 3, 4], by decide⟩

/-- **An exit forgets what is queued.** -/
theorem not_available_exit : ¬ ∀ (es : List (Event BufferItem)) (q : Queue BufferItem),
    Run.Reached (step BufferItem.getSize) Queue.new es q →
      q.mAvailableDataSize = q.queued BufferItem.getSize := by
  intro h
  have hlast := h [.push fourBytes, .disable, .reset] _ (Run.reached_last _ _)
  revert hlast
  decide

end SegmentCount
end AmlSubtitle
