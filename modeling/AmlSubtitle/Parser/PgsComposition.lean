import AmlSubtitle.Parser.PgsShared

/-!
# The references of a PGS composition

Which references a presentation composition leaves below its object count, and which bytes
`parsePresentationSegment` reads for them.

* `entryOffset` is where the entry of a reference is in the segment: an entry with the
  cropping flag has eight bytes more.
* `ReadFromSegment` says that each reference below the count was read from its entry, and
  that nothing behind the segment was read.
* `readFromSegment_iff`: that holds of the segments that have their header, announce two
  objects at most, have all of their cropping fields, and no position outside the video.
-/

namespace AmlSubtitle
namespace Pgs

/-- Where the entry behind the one at `pos` is. -/
def nextEntry (buf : Source) (pos : ℕ) : ℕ :=
  if buf (pos + 3) &&& 0x80 ≠ 0 then pos + 16 else pos + 8

/-- Where the `i`th entry is. -/
def entryOffset (buf : Source) : ℕ → ℕ
  | 0 => 11
  | i + 1 => nextEntry buf (entryOffset buf i)

/-- A reference is that of the entry at `pos`; the entry has cropping fields where its flag
says so. -/
structure RefAt (buf : Source) (pos : ℕ) (ref : PGSSubObjectRef) : Prop where
  id : ref.id = bytestreamGetBe16 buf pos
  windowId : ref.windowId = bytestreamGetByte buf (pos + 2)
  compositionFlag : ref.compositionFlag = buf (pos + 3)
  x : ref.x = bytestreamGetBe16 buf (pos + 4)
  y : ref.y = bytestreamGetBe16 buf (pos + 6)
  crop : ref.compositionFlag &&& 0x80 ≠ 0 →
    ref.cropX = bytestreamGetBe16 buf (pos + 8) ∧ ref.cropY = bytestreamGetBe16 buf (pos + 10) ∧
    ref.cropW = bytestreamGetBe16 buf (pos + 12) ∧ ref.cropH = bytestreamGetBe16 buf (pos + 14)

/-- No byte behind the segment was read, and the references below the count were read from
their entries. -/
structure FromEntries (buf : Source) (bufSize : ℕ) (c : Composed) : Prop where
  reach : c.reach ≤ bufSize
  refs : ∀ i < c.presentation.objectCount,
    i < c.refs ∧ RefAt buf (entryOffset buf i) (c.presentation.objects i)

/-- **The references of a context are those of the segment** that it is parsed from. -/
def ReadFromSegment (ctx : PGSSubContext) (buf : Source) (bufSize : ℕ) : Prop :=
  FromEntries buf bufSize (compose buf bufSize ctx.presentation) ∧
    (parsePresentationSegment ctx buf bufSize).presentation =
      (compose buf bufSize ctx.presentation).presentation

/-- The `n` entries from `pos` on have their cropping fields, and positions in the video, as
far as there are eight bytes for them. -/
def EntriesReadable (buf : Source) (bufSize width height : ℕ) : ℕ → ℕ → Prop
  | 0, pos => pos ≤ bufSize
  | n + 1, pos =>
    if bufSize < pos + 8 then pos ≤ bufSize
    else
      bytestreamGetBe16 buf (pos + 4) ≤ width ∧ bytestreamGetBe16 buf (pos + 6) ≤ height ∧
        EntriesReadable buf bufSize width height n (nextEntry buf pos)

/-- The segments whose references are all read. -/
def Readable (buf : Source) (bufSize : ℕ) : Prop :=
  bytestreamGetByte buf 10 ≤ MAX_OBJECT_REFS ∧
    EntriesReadable buf bufSize (bytestreamGetBe16 buf 0) (bytestreamGetBe16 buf 2)
      (bytestreamGetByte buf 10) 11

section Refs

variable {buf : Source} {bufSize n i pos : ℕ} {p : PGSSubPresentation}

theorem readRef_next (buf : Source) (pos : ℕ) (old : PGSSubObjectRef) :
    (readRef buf pos old).2 = nextEntry buf pos := by
  unfold readRef nextEntry
  dsimp only
  split_ifs <;> rfl

theorem refAt_readRef (buf : Source) (pos : ℕ) (old : PGSSubObjectRef) :
    RefAt buf pos (readRef buf pos old).1 := by
  unfold readRef
  dsimp only
  split_ifs with hcrop
  · exact ⟨rfl, rfl, rfl, rfl, rfl, fun _ => ⟨rfl, rfl, rfl, rfl⟩⟩
  · exact ⟨rfl, rfl, rfl, rfl, rfl, fun h => absurd h hcrop⟩

/-- **The loop over the entries**: the references before the `i`th have been read. -/
theorem fromEntries_readRefs (hpos : entryOffset buf i = pos) (hcount : p.objectCount = i + n)
    (hread : ∀ j < i, RefAt buf (entryOffset buf j) (p.objects j)) :
    FromEntries buf bufSize (readRefs buf bufSize n i pos p) ↔
      EntriesReadable buf bufSize p.videoWidth p.videoHeight n pos := by
  induction n generalizing i pos p with
  | zero =>
    rw [readRefs, EntriesReadable]
    refine ⟨fun h => h.reach, fun h => ⟨h, fun j hj => ?_⟩⟩
    have hj : j < i := hj.trans_eq hcount
    exact ⟨hj, hread j hj⟩
  | succ n ih =>
    rw [readRefs, EntriesReadable]
    by_cases hshort : bufSize < pos + 8
    · rw [if_pos hshort, if_pos hshort]
      exact ⟨fun h => h.reach, fun h => ⟨h, fun j hj => ⟨hj, hread j hj⟩⟩⟩
    rw [if_neg hshort, if_neg hshort]
    have hat := refAt_readRef buf pos (p.objects i)
    have hnext := readRef_next buf pos (p.objects i)
    dsimp only
    by_cases hout : (readRef buf pos (p.objects i)).1.x > p.videoWidth ∨
        (readRef buf pos (p.objects i)).1.y > p.videoHeight
    · -- the position is thrown away, and the count stays
      rw [if_pos hout]
      refine iff_of_false (fun h => ?_) (fun h => ?_)
      · obtain ⟨-, hi⟩ := h.refs i (show i < p.objectCount by omega)
        dsimp only at hi
        rw [Function.update_self, hpos] at hi
        have hx := hi.x
        have hy := hi.y
        dsimp only at hx hy
        rw [hat.x, hat.y] at hout
        omega
      · rw [hat.x, hat.y] at hout
        exact hout.elim (fun hx => absurd h.1 (not_le.mpr hx))
          fun hy => absurd h.2.1 (not_le.mpr hy)
    · rw [if_neg hout, hnext]
      rw [hat.x, hat.y, not_or, not_lt, not_lt] at hout
      have hread' : ∀ j < i + 1, RefAt buf (entryOffset buf j)
          (Function.update p.objects i (readRef buf pos (p.objects i)).1 j) := by
        intro j hj
        rcases Nat.lt_succ_iff_lt_or_eq.mp hj with hlt | rfl
        · rw [Function.update_of_ne hlt.ne]
          exact hread j hlt
        · rw [Function.update_self, hpos]
          exact hat
      have hnext : entryOffset buf (i + 1) = nextEntry buf pos := by rw [entryOffset, hpos]
      have hrest := ih
        (p := { p with objects := Function.update p.objects i (readRef buf pos (p.objects i)).1 })
        hnext (by dsimp only; omega) hread'
      rw [hrest]
      exact ⟨fun h => ⟨hout.1, hout.2, h⟩, fun h => h.2.2⟩

/-- **The references below the count were read from the segment**, and nothing behind it was
read, exactly when the segment has what it announces: two objects at most, their cropping
fields, and positions in the video. -/
theorem readFromSegment_iff (ctx : PGSSubContext) (buf : Source) (bufSize : ℕ) :
    ReadFromSegment ctx buf bufSize ↔ Readable buf bufSize := by
  have hpresentation : (parsePresentationSegment ctx buf bufSize).presentation =
      (compose buf bufSize ctx.presentation).presentation := rfl
  rw [ReadFromSegment, Readable, and_iff_left hpresentation, compose]
  have hcount : (readHead buf ctx.presentation).objectCount = bytestreamGetByte buf 10 := rfl
  by_cases hmany : (readHead buf ctx.presentation).objectCount > MAX_OBJECT_REFS
  · -- the count becomes two, and none is read
    rw [if_pos hmany]
    refine iff_of_false (fun h => ?_) fun h => absurd h.1 (not_le.mpr (hcount ▸ hmany))
    exact absurd (h.refs 0 Nat.zero_lt_two).1 (Nat.not_lt_zero 0)
  · rw [if_neg hmany]
    have hle : bytestreamGetByte buf 10 ≤ MAX_OBJECT_REFS := hcount ▸ not_lt.mp hmany
    rw [and_iff_right hle, hcount]
    exact fromEntries_readRefs rfl (by rw [hcount, Nat.zero_add]) fun j hj =>
      absurd hj (Nat.not_lt_zero j)

end Refs

/-- A composition of three objects. -/
def threeObjects : List UInt8 :=
  [4, 0, 4, 0, 0x10, 0, 0, 0x80, 0, 0, 3] ++ [0, 7, 0, 0, 0, 1, 0, 1] ++
    [0, 8, 0, 0, 0, 2, 0, 2] ++ [0, 9, 0, 0, 0, 3, 0, 3]

/-- The references are counted, but none of them is read. -/
theorem not_readFromSegment_threeObjects :
    ¬ ReadFromSegment .zero (sourceOf threeObjects) threeObjects.length := by
  rintro ⟨⟨-, hrefs⟩, -⟩
  have hnone : (compose (sourceOf threeObjects) threeObjects.length
      PGSSubContext.zero.presentation).refs = 0 := by decide
  have hfirst := (hrefs 0 (by decide)).1
  rw [hnone] at hfirst
  exact absurd hfirst (Nat.not_lt_zero 0)

end Pgs
end AmlSubtitle
