import Mathlib.Tactic

/-!
# `utils/Segment.h`, `utils/Segment.cpp`

The queue of buffers between a demux callback and the parser thread.  A
`BufferItem` is one pushed buffer with a cursor in it; `BufferSegment` keeps the
items that no reader has popped yet.

`rest` is what an item still has to give.  `read_check` gives a piece of it from
the front, in whatever way the requested size and the start-code check shorten the
piece (`readCheck_spec`).
-/

namespace AmlSubtitle

/-- A buffer pushed by a demux callback, which gets its length as an `int`. -/
structure Section where
  bytes : List UInt8
  length_lt : bytes.length < 2 ^ 31

/-- `BufferItem`, with what its operations keep true of the cursor. -/
structure BufferItem where
  mBuffer : List UInt8
  mPtr : ℕ
  mRemainSize : ℕ
  ptr_add : mPtr + mRemainSize = mBuffer.length
  length_lt : mBuffer.length < 2 ^ 31

namespace BufferItem

/-- The constructor. -/
def ofSection (s : Section) : BufferItem where
  mBuffer := s.bytes
  mPtr := 0
  mRemainSize := s.bytes.length
  ptr_add := Nat.zero_add _
  length_lt := s.length_lt

/-- `isEmpty`. -/
def isEmpty (item : BufferItem) : Bool := item.mRemainSize == 0

/-- `getSize`. -/
def getSize (item : BufferItem) : ℕ := item.mBuffer.length

/-- The bytes from the cursor on. -/
def rest (item : BufferItem) : List UInt8 := item.mBuffer.drop item.mPtr

@[simp] theorem length_rest (item : BufferItem) : item.rest.length = item.mRemainSize := by
  have := item.ptr_add
  rw [rest, List.length_drop]
  omega

@[simp] theorem rest_ofSection (s : Section) : (ofSection s).rest = s.bytes := rfl

theorem rest_of_isEmpty {item : BufferItem} (h : item.isEmpty) : item.rest = [] := by
  rw [isEmpty, beq_iff_eq] at h
  rw [← List.length_eq_zero_iff, length_rest, h]

/-- Move the cursor over `n` bytes. -/
def consume (item : BufferItem) (n : ℕ) (h : n ≤ item.mRemainSize) : BufferItem where
  mBuffer := item.mBuffer
  mPtr := item.mPtr + n
  mRemainSize := item.mRemainSize - n
  ptr_add := by
    have := item.ptr_add
    omega
  length_lt := item.length_lt

@[simp] theorem rest_consume (item : BufferItem) (n : ℕ) (h : n ≤ item.mRemainSize) :
    (item.consume n h).rest = item.rest.drop n := by
  rw [rest, rest, List.drop_drop]
  rfl

/-- The first of the places below `n` where a private-stream start code stands. -/
def startCode (bytes : List UInt8) (n : ℕ) : Option ℕ :=
  (List.range n).find? fun i => (bytes.drop i).take 4 = [0, 0, 1, 0xbd]

/-- The size a read settles on, and whether the start-code check shortened it. -/
def needRead (item : BufferItem) (size : ℤ) : ℤ × Bool :=
  let needRead : ℤ := if size > item.mRemainSize then item.mRemainSize else size
  if 4 ≤ needRead then
    match startCode item.rest (needRead - 4).toNat with
    | some i => (i, true)
    | none => (needRead, false)
  else
    (needRead, false)

theorem needRead_le (item : BufferItem) (size : ℤ) :
    (item.needRead size).1 ≤ item.mRemainSize ∧ (item.needRead size).1 ≤ size := by
  unfold needRead
  extract_lets n
  have hn : n ≤ item.mRemainSize ∧ n ≤ size := by
    simp only [n]
    split_ifs <;> omega
  split_ifs with h
  · split
    · rename_i i hi
      have := List.mem_range.mp (List.mem_of_find?_eq_some hi)
      constructor <;> dsimp only <;> omega
    · exact hn
  · exact hn

/-- `read_check` on a demux source: the bytes copied, the item afterwards and whether
`isReadItemEnd` was set.  A `memcpy` of a negative length is `none`. -/
def readCheck (item : BufferItem) (size : ℤ) : Option (List UInt8 × BufferItem × Bool) :=
  if size = 0 ∨ item.mRemainSize = 0 then
    some ([], item, false)
  else if 0 ≤ (item.needRead size).1 then
    have h : (item.needRead size).1.toNat ≤ item.mRemainSize := by
      have := (item.needRead_le size).1
      omega
    some (item.rest.take (item.needRead size).1.toNat, item.consume _ h, (item.needRead size).2)
  else
    none

/-- **A read takes from the front**, no more than was asked for. -/
theorem readCheck_spec {item item' : BufferItem} {size : ℤ} {bytes : List UInt8} {e : Bool}
    (h : item.readCheck size = some (bytes, item', e)) :
    bytes ++ item'.rest = item.rest ∧ ((bytes.length : ℤ) ≤ size ∨ item.isEmpty) := by
  have hle := item.needRead_le size
  unfold readCheck at h
  split_ifs at h with h₁ h₂
  · obtain ⟨rfl, rfl, -⟩ : [] = bytes ∧ item = item' ∧ false = e := by simpa using h
    exact ⟨rfl, h₁.imp (fun h => h.ge) fun h => beq_iff_eq.mpr h⟩
  · simp only [Option.some.injEq, Prod.mk.injEq] at h
    obtain ⟨rfl, rfl, -⟩ := h
    refine ⟨by rw [rest_consume, List.take_append_drop], Or.inl ?_⟩
    rw [List.length_take, length_rest]
    omega

end BufferItem

/-- `BufferSegment`. -/
structure BufferSegment where
  mSegments : List BufferItem
  mEnabled : Bool

namespace BufferSegment

/-- `push`: an empty buffer is refused. -/
def push (q : BufferSegment) (s : Section) : BufferSegment :=
  if s.bytes = [] then q else { q with mSegments := q.mSegments ++ [.ofSection s] }

/-- `pop`: `none` while it waits, and otherwise the item popped, which is null once
the queue is empty and disabled. -/
def pop (q : BufferSegment) : Option (Option BufferItem × BufferSegment) :=
  match q.mSegments with
  | [] => if q.mEnabled then none else some (none, q)
  | item :: items => some (some item, { q with mSegments := items })

/-- `notifyExit`. -/
def notifyExit (q : BufferSegment) : BufferSegment := { q with mEnabled := false }

/-- The bytes waiting in the queue. -/
def rest (q : BufferSegment) : List UInt8 := q.mSegments.flatMap BufferItem.rest

@[simp] theorem rest_push (q : BufferSegment) (s : Section) :
    (q.push s).rest = q.rest ++ s.bytes := by
  unfold push
  split
  · rename_i h
    rw [h, List.append_nil]
  · rw [rest, rest, List.flatMap_append, List.flatMap_singleton, BufferItem.rest_ofSection]

/-- Popping moves the first item out of the queue. -/
theorem rest_pop {q q' : BufferSegment} {item : Option BufferItem}
    (h : q.pop = some (item, q')) : (item.elim [] BufferItem.rest) ++ q'.rest = q.rest := by
  unfold pop at h
  split at h
  · split_ifs at h
    obtain ⟨rfl, rfl⟩ : none = item ∧ q = q' := by simpa using h
    rfl
  · rename_i i items hitems
    obtain ⟨rfl, rfl⟩ : some i = item ∧ { q with mSegments := items } = q' := by simpa using h
    rw [rest, rest, hitems, List.flatMap_cons]
    rfl

end BufferSegment
end AmlSubtitle
