import AmlSubtitle.Lib.Circular
import AmlSubtitle.Lib.Fifo
import AmlSubtitle.Lib.Run
import AmlSubtitle.Lib.Words

/-!
# `io/UserdataDriver.c`

The package queue between the user-data reader and the closed-caption decoder: a
ring of bytes that holds each package behind its length, four bytes little
endian.  The fields are those of `UserdataRingBufferType`; the condition variable
and the unused `error` are left out, and reader and writer hold the device lock,
so their calls follow one another.

A `memcpy` past the backing array is the result `none`.  One place of the ring is
kept free, so that equal positions mean an empty ring: as a queue of bytes its
capacity is one less than its size.

* `userdataRingBufRead_spec`, `userdataRingBufWrite_spec`: the ring is a queue of
  bytes.
* `Queued`: the ring holds a whole number of framed packages.
* `framing_run`: every run of writes and reads keeps it so, and reads return the
  packages that were accepted, whole and in order.
-/

namespace AmlSubtitle

open Circular Words

/-- `UserdataRingBufferType`, with what its operations keep true of it. -/
structure UserdataRingBuffer where
  data : List UInt8
  size : ℕ
  pread : ℕ
  pwrite : ℕ
  length_data : data.length = size
  pread_lt : pread < size
  pwrite_lt : pwrite < size

namespace UserdataRingBuffer

/-- `userdata_ring_buf_init`, the allocation succeeding. -/
def userdataRingBufInit (len : ℕ) (h : 0 < len) : UserdataRingBuffer where
  data := List.replicate len 0
  size := len
  pread := 0
  pwrite := 0
  length_data := List.length_replicate
  pread_lt := h
  pwrite_lt := h

/-- `userdata_ring_buf_free`. -/
def userdataRingBufFree (r : UserdataRingBuffer) : ℤ :=
  let free : ℤ := r.pread - r.pwrite
  (if free ≤ 0 then free + r.size else free) - 1

/-- `userdata_ring_buf_avail`. -/
def userdataRingBufAvail (r : UserdataRingBuffer) : ℤ :=
  let avail : ℤ := r.pwrite - r.pread
  if avail < 0 then avail + r.size else avail

/-- `userdata_ring_buf_read`: the bytes copied to `buf` and the ring afterwards. -/
def userdataRingBufRead (r : UserdataRingBuffer) (len : ℕ) :
    Option (List UInt8 × UserdataRingBuffer) :=
  if len ≤ r.size then
    let split := if r.size < r.pread + len then r.size - r.pread else 0
    let todo := len - split
    let pread := if 0 < split then 0 else r.pread
    some ((r.data.drop r.pread).take split ++ (r.data.drop pread).take todo,
      { r with
        pread := (pread + todo) % r.size
        pread_lt := Nat.mod_lt _ (Nat.zero_lt_of_lt r.pread_lt) })
  else
    none

/-- `userdata_ring_buf_write` of the bytes `buf`. -/
def userdataRingBufWrite (r : UserdataRingBuffer) (buf : List UInt8) :
    Option UserdataRingBuffer :=
  if h : buf.length ≤ r.size then
    let split := if r.size < r.pwrite + buf.length then r.size - r.pwrite else 0
    have hsplit : r.pwrite + split ≤ r.size ∧ split ≤ buf.length := by
      have := r.pwrite_lt
      simp only [split]
      split_ifs <;> omega
    let todo := buf.drop split
    let pwrite := if 0 < split then 0 else r.pwrite
    have hpwrite : pwrite + todo.length ≤ r.size := by
      have := r.pwrite_lt
      simp only [pwrite, todo, split, List.length_drop]
      split_ifs <;> omega
    have hfirst : (blit r.data r.pwrite (buf.take split)).length = r.size := by
      rw [length_blit, r.length_data]
      rw [r.length_data, List.length_take]
      omega
    some { r with
      data := blit (blit r.data r.pwrite (buf.take split)) pwrite todo
      pwrite := (pwrite + todo.length) % r.size
      length_data := by rw [length_blit (by omega), hfirst]
      pwrite_lt := Nat.mod_lt _ (Nat.zero_lt_of_lt r.pread_lt) }
  else
    none

/-! ## The queue of bytes -/

/-- The number of bytes in use. -/
def used (r : UserdataRingBuffer) : ℕ := (r.pwrite + r.size - r.pread) % r.size

/-- The bytes in use, oldest first. -/
def contents (r : UserdataRingBuffer) : List UInt8 := (r.data.rotate r.pread).take r.used

theorem used_eq (r : UserdataRingBuffer) :
    r.used = if r.pwrite < r.pread then r.pwrite + r.size - r.pread else r.pwrite - r.pread := by
  have h₁ := r.pread_lt
  have h₂ := r.pwrite_lt
  unfold used
  split
  · rw [Nat.mod_eq_of_lt (by omega)]
  · rw [show r.pwrite + r.size - r.pread = r.pwrite - r.pread + r.size by omega,
      Nat.add_mod_right, Nat.mod_eq_of_lt (by omega)]

theorem used_lt (r : UserdataRingBuffer) : r.used < r.size :=
  Nat.mod_lt _ (Nat.zero_lt_of_lt r.pread_lt)

@[simp] theorem length_contents (r : UserdataRingBuffer) : r.contents.length = r.used := by
  rw [contents, List.length_take, List.length_rotate, r.length_data]
  exact min_eq_left r.used_lt.le

theorem userdataRingBufAvail_eq (r : UserdataRingBuffer) : r.userdataRingBufAvail = r.used := by
  have h₁ := r.pread_lt
  rw [used_eq]
  simp only [userdataRingBufAvail]
  split_ifs <;> omega

theorem userdataRingBufFree_eq (r : UserdataRingBuffer) :
    r.userdataRingBufFree = r.size - 1 - r.used := by
  have h₁ := r.pread_lt
  have h₂ := r.pwrite_lt
  rw [used_eq]
  simp only [userdataRingBufFree]
  split_ifs <;> omega

/-- The write position is the one after the bytes in use. -/
theorem pwrite_mod (r : UserdataRingBuffer) : r.pwrite % r.size = (r.pread + r.used) % r.size := by
  have h₁ := r.pread_lt
  have h₂ := r.pwrite_lt
  rw [used_eq]
  split
  · rw [show r.pread + (r.pwrite + r.size - r.pread) = r.pwrite + r.size by omega,
      Nat.add_mod_right]
  · rw [show r.pread + (r.pwrite - r.pread) = r.pwrite by omega]

/-- Positions that agree modulo the size leave the same number of bytes in use. -/
theorem used_eq_of_mod {r : UserdataRingBuffer} {n : ℕ} (hn : n < r.size)
    (h : r.pwrite % r.size = (r.pread + n) % r.size) : r.used = n := by
  have hmod := r.pwrite_mod
  rw [h] at hmod
  have := Nat.ModEq.add_left_cancel' r.pread (show r.pread + n ≡ r.pread + r.used [MOD r.size]
    from hmod)
  rw [Nat.ModEq, Nat.mod_eq_of_lt hn, Nat.mod_eq_of_lt r.used_lt] at this
  exact this.symm

/-- The position an operation of the source leaves: it starts over where it splits. -/
theorem split_mod {size pos n split : ℕ} (hpos : pos < size)
    (hsplit : split = if size < pos + n then size - pos else 0) :
    ((if 0 < split then 0 else pos) + (n - split)) % size = (pos + n) % size := by
  rcases Nat.lt_or_ge size (pos + n) with hpast | hfit
  · rw [if_pos hpast] at hsplit
    rw [if_pos (by omega), Nat.mod_eq_sub_mod hpast.le, hsplit,
      show 0 + (n - (size - pos)) = pos + n - size by omega]
  · rw [if_neg (by omega)] at hsplit
    rw [hsplit, if_neg (by omega), Nat.sub_zero]

/-- A read copies out and moves the read position. -/
theorem userdataRingBufRead_eq (r : UserdataRingBuffer) {len : ℕ} (h : len ≤ r.size) :
    ∃ r', r.userdataRingBufRead len = some (copyOut r.data r.pread len, r') ∧
      r'.data = r.data ∧ r'.size = r.size ∧ r'.pwrite = r.pwrite ∧
      r'.pread % r.size = (r.pread + len) % r.size := by
  have hpread := r.pread_lt
  rw [userdataRingBufRead, if_pos h]
  refine ⟨_, Option.some_inj.mpr (Prod.ext ?_ rfl), rfl, rfl, rfl, ?_⟩
  · dsimp only
    rw [copyOut, r.length_data]
    rcases Nat.lt_or_ge r.size (r.pread + len) with hpast | hfit
    · rw [if_pos hpast, if_pos hpast, if_pos (by omega), List.drop_zero,
        show len - (r.pread + len - r.size) = r.size - r.pread by omega,
        show len - (r.size - r.pread) = r.pread + len - r.size by omega]
    · rw [if_neg (by omega), if_neg (by omega), if_neg (by omega), List.take_zero,
        List.nil_append, Nat.sub_zero]
  · show _ % r.size % r.size = _
    rw [Nat.mod_mod, split_mod hpread rfl]

/-- A write copies in and moves the write position. -/
theorem userdataRingBufWrite_eq (r : UserdataRingBuffer) {buf : List UInt8}
    (h : buf.length ≤ r.size) :
    ∃ r', r.userdataRingBufWrite buf = some r' ∧ r'.data = copyIn r.data r.pwrite buf ∧
      r'.size = r.size ∧ r'.pread = r.pread ∧
      r'.pwrite % r.size = (r.pwrite + buf.length) % r.size := by
  have hpwrite := r.pwrite_lt
  rw [userdataRingBufWrite, dif_pos h]
  refine ⟨_, rfl, ?_, rfl, rfl, ?_⟩
  · dsimp only
    rw [copyIn, r.length_data]
    rcases Nat.lt_or_ge r.size (r.pwrite + buf.length) with hpast | hfit
    · rw [if_pos hpast, if_pos hpast, if_pos (by omega)]
      show _ = blit (blit r.data r.pwrite _) 0 _
      rw [show buf.length - (r.pwrite + buf.length - r.size) = r.size - r.pwrite by omega]
    · have hnil : blit r.data r.pwrite [] = r.data := by simp [blit]
      rw [if_neg (by omega), if_neg (by omega), if_neg (by omega), List.take_zero,
        List.drop_zero, hnil]
  · show _ % r.size % r.size = _
    rw [Nat.mod_mod, List.length_drop, split_mod hpwrite rfl]

/-- **A read drops.**  Reading at most the bytes in use returns the oldest of them. -/
theorem userdataRingBufRead_spec (r : UserdataRingBuffer) {len : ℕ} (h : len ≤ r.used) :
    ∃ r', r.userdataRingBufRead len = some (r.contents.take len, r') ∧
      r'.contents = r.contents.drop len ∧ r'.size = r.size := by
  have hused := r.used_lt
  have hlen := r.length_data
  have hpread := r.pread_lt
  obtain ⟨r', hread, hdata, hsize, hpwrite, hmod⟩ :=
    userdataRingBufRead_eq r (show len ≤ r.size by omega)
  have hbytes : copyOut r.data r.pread len = r.contents.take len := by
    rw [copyOut_eq (by omega) (by omega), contents, List.take_take, min_eq_left h]
  have hused' : r'.used = r.used - len := by
    apply used_eq_of_mod (by omega)
    rw [hsize, hpwrite, r.pwrite_mod, Nat.add_mod r'.pread, hmod, ← Nat.add_mod,
      show r.pread + len + (r.used - len) = r.pread + r.used by omega]
  have hrot : r'.pread % r.data.length = advance r.data.length r.pread len % r.data.length := by
    rw [advance_mod, hlen, hmod]
  refine ⟨r', by rw [hread, hbytes], ?_, hsize⟩
  rw [contents, hused', hdata, rotate_congr hrot, take_rotate_advance (by omega) h, ← contents]

/-- **A write appends.**  What leaves one place free is accepted whole. -/
theorem userdataRingBufWrite_spec (r : UserdataRingBuffer) {buf : List UInt8}
    (h : r.used + buf.length < r.size) :
    ∃ r', r.userdataRingBufWrite buf = some r' ∧ r'.contents = r.contents ++ buf ∧
      r'.size = r.size := by
  have hlen := r.length_data
  have hpwrite := r.pwrite_lt
  obtain ⟨r', hwrite, hdata, hsize, hpread, hmod⟩ :=
    userdataRingBufWrite_eq r (show buf.length ≤ r.size by omega)
  have hused' : r'.used = r.used + buf.length := by
    apply used_eq_of_mod (by omega)
    rw [hsize, hpread, hmod, Nat.add_mod, r.pwrite_mod, ← Nat.add_mod, Nat.add_assoc]
  refine ⟨r', hwrite, ?_, hsize⟩
  rw [contents, hused', hdata, hpread, take_rotate_copyIn (by omega)
    (by rw [hlen]; exact r.pwrite_mod) (by omega), ← contents]

/-! ## Packages -/

/-- `read_unused_data`; `malloc` says whether its allocation succeeds. -/
def readUnusedData (r : UserdataRingBuffer) (len : ℕ) (malloc : Bool) :
    Option UserdataRingBuffer :=
  if malloc then (r.userdataRingBufRead len).map Prod.snd else some r

/-- `userdata_package_write`: the ring afterwards and the value returned. -/
def userdataPackageWrite (r : UserdataRingBuffer) (buf : List UInt8) :
    Option (UserdataRingBuffer × ℤ) :=
  if asSigned 32 r.userdataRingBufFree < asSigned 32 (buf.length + 4) then
    some (r, 0)
  else
    (r.userdataRingBufWrite (leBytes 4 buf.length)).bind fun r =>
      (r.userdataRingBufWrite buf).map fun r => (r, asSigned 32 buf.length)

/-- The branch a read takes: too few bytes for a package, fewer bytes than the header
announces, a package larger than the caller's buffer, a package. -/
inductive ReadBranch where
  | few
  | mustNotHappen
  | notEnough
  | package
  deriving DecidableEq

/-- `userdata_package_read` into a buffer of `size` bytes: the branch taken, the bytes
stored in the buffer and the ring afterwards. -/
def userdataPackageRead (r : UserdataRingBuffer) (size : ℤ) (malloc : Bool) :
    Option (ReadBranch × List UInt8 × UserdataRingBuffer) :=
  if 4 < asSigned 32 r.userdataRingBufAvail then
    (r.userdataRingBufRead 4).bind fun (header, r) =>
      let udCnt := asSigned 32 (leValue header)
      if asSigned 32 r.userdataRingBufAvail < udCnt then
        (r.readUnusedData 0 malloc).map fun r => (.mustNotHappen, [], r)
      else if size < udCnt then
        (r.readUnusedData (asUnsigned 64 udCnt) malloc).map fun r => (.notEnough, [], r)
      else if 0 < udCnt then
        (r.userdataRingBufRead udCnt.toNat).map fun (bytes, r) => (.package, bytes, r)
      else
        some (.package, [], r)
  else
    (r.readUnusedData 0 malloc).map fun r => (.few, [], r)

/-- A package behind its length. -/
def frame (p : List UInt8) : List UInt8 := leBytes 4 p.length ++ p

@[simp] theorem length_frame (p : List UInt8) : (frame p).length = p.length + 4 := by
  rw [frame, List.length_append, length_leBytes, Nat.add_comm]

/-- The ring holds these packages, and nothing else. -/
def Queued (r : UserdataRingBuffer) (ps : List (List UInt8)) : Prop :=
  r.contents = ps.flatMap frame

section Spec

variable {r : UserdataRingBuffer} {ps : List (List UInt8)} {p : List UInt8}

/-- A package that does not fit leaves the ring alone. -/
theorem userdataPackageWrite_of_lt (_ : r.size < 2 ^ 31) (hp : p.length + 4 < 2 ^ 31)
    (h : r.size ≤ r.used + p.length + 4) : r.userdataPackageWrite p = some (r, 0) := by
  have hused := r.used_lt
  rw [userdataPackageWrite, userdataRingBufFree_eq, asSigned_eq (by omega) (by omega),
    asSigned_eq (by omega) (by omega), if_pos (by omega)]

/-- A package that fits is appended behind its length. -/
theorem userdataPackageWrite_of_le (hsize : r.size < 2 ^ 31)
    (h : r.used + p.length + 4 < r.size) :
    ∃ r' : UserdataRingBuffer, r.userdataPackageWrite p = some (r', (p.length : ℤ)) ∧
      r'.contents = r.contents ++ frame p ∧ r'.size = r.size := by
  have hheader : r.used + (leBytes 4 p.length).length < r.size := by
    rw [length_leBytes]
    omega
  obtain ⟨r₁, hwrite₁, hcontents₁, hsize₁⟩ := r.userdataRingBufWrite_spec hheader
  have hused₁ : r₁.used = r.used + 4 := by
    rw [← length_contents, hcontents₁, List.length_append, length_contents, length_leBytes]
  obtain ⟨r₂, hwrite₂, hcontents₂, hsize₂⟩ := r₁.userdataRingBufWrite_spec
    (show r₁.used + p.length < r₁.size by omega)
  refine ⟨r₂, ?_, ?_, hsize₂.trans hsize₁⟩
  · rw [userdataPackageWrite, userdataRingBufFree_eq, asSigned_eq (by omega) (by omega),
      asSigned_eq (by omega) (by omega), if_neg (by omega), hwrite₁, Option.bind_some, hwrite₂,
      Option.map_some, asSigned_of_lt (by omega)]
  · rw [hcontents₂, hcontents₁, List.append_assoc, frame]

/-- Reading nothing leaves the bytes in use. -/
theorem readUnusedData_zero (r : UserdataRingBuffer) (malloc : Bool) :
    ∃ r', r.readUnusedData 0 malloc = some r' ∧ r'.contents = r.contents ∧ r'.size = r.size := by
  unfold readUnusedData
  split
  · obtain ⟨r', hread, hcontents, hsize⟩ := r.userdataRingBufRead_spec (Nat.zero_le r.used)
    exact ⟨r', by rw [hread]; rfl, by rw [hcontents, List.drop_zero], hsize⟩
  · exact ⟨r, rfl, rfl, rfl⟩

/-- A read of a ring with no more than a header in it. -/
theorem userdataPackageRead_of_le (_ : r.size < 2 ^ 31) (h : r.used ≤ 4) (size : ℤ)
    (malloc : Bool) :
    ∃ r' : UserdataRingBuffer, r.userdataPackageRead size malloc = some (.few, [], r') ∧
      r'.contents = r.contents ∧ r'.size = r.size := by
  obtain ⟨r', hread, hcontents, hsize'⟩ := r.readUnusedData_zero malloc
  refine ⟨r', ?_, hcontents, hsize'⟩
  rw [userdataPackageRead, userdataRingBufAvail_eq, asSigned_of_lt (by omega), if_neg (by omega),
    hread, Option.map_some]

/-- **A read of a package.**  The header says how many bytes follow it, and they do. -/
theorem userdataPackageRead_of_queued (hsize : r.size < 2 ^ 31) (hq : r.Queued (p :: ps))
    (h : 4 < r.used) {size : ℤ} (hp : p.length ≤ size) (malloc : Bool) :
    ∃ r' : UserdataRingBuffer, r.userdataPackageRead size malloc = some (.package, p, r') ∧
      r'.Queued ps ∧ r'.size = r.size := by
  have hused := r.used_lt
  have hlen : r.used = p.length + 4 + (ps.flatMap frame).length := by
    rw [← length_contents, hq, List.flatMap_cons, List.length_append, length_frame]
  rw [Queued, List.flatMap_cons, frame, List.append_assoc] at hq
  obtain ⟨r₁, hread₁, hcontents₁, hsize₁⟩ := r.userdataRingBufRead_spec h.le
  rw [hq, List.take_left' (length_leBytes 4 _)] at hread₁
  rw [hq, List.drop_left' (length_leBytes 4 _)] at hcontents₁
  have hused₁ : r₁.used = p.length + (ps.flatMap frame).length := by
    rw [← length_contents, hcontents₁, List.length_append]
  have hcnt : asSigned 32 (leValue (leBytes 4 p.length)) = p.length := by
    rw [leValue_leBytes (by omega), asSigned_of_lt (by omega)]
  rw [userdataPackageRead, userdataRingBufAvail_eq, asSigned_of_lt (by omega), if_pos (by omega),
    hread₁, Option.bind_some]
  dsimp only
  rw [hcnt, userdataRingBufAvail_eq, asSigned_of_lt (by omega), if_neg (by omega),
    if_neg (by omega), Int.toNat_natCast]
  split
  · obtain ⟨r₂, hread₂, hcontents₂, hsize₂⟩ := r₁.userdataRingBufRead_spec
      (show p.length ≤ r₁.used by omega)
    rw [hcontents₁, List.take_left' rfl] at hread₂
    rw [hcontents₁, List.drop_left' rfl] at hcontents₂
    exact ⟨r₂, by rw [hread₂]; rfl, hcontents₂, hsize₂.trans hsize₁⟩
  · have hnil : p = [] := List.length_eq_zero_iff.mp (by omega)
    refine ⟨r₁, by rw [hnil], ?_, hsize₁⟩
    rw [Queued, hcontents₁, hnil, List.nil_append]

end Spec

/-! ## Runs -/

/-- A call on the queue. -/
inductive Call where
  | write (p : List UInt8)
  | read (size : ℤ) (malloc : Bool)

/-- The queue with its history: the packages that were accepted, how many of them
reads have taken out, the packages reads have returned (a read that returns no byte
returns none), and whether a read took the branch that must not happen. -/
structure Session where
  pkgBuf : UserdataRingBuffer
  accepted : List (List UInt8)
  taken : ℕ
  returned : List (List UInt8)
  mustNotHappen : Bool

namespace Session

/-- `UserdataOpen`: `USERDATA_BUF_SIZE` is `5*1024`. -/
def userdataOpen : Session where
  pkgBuf := userdataRingBufInit (5 * 1024) (by decide)
  accepted := []
  taken := 0
  returned := []
  mustNotHappen := false

/-- The accepted packages that reads have not taken out. -/
def pending (s : Session) : List (List UInt8) := s.accepted.drop s.taken

/-- The packages with a byte in them. -/
def nonempty (ps : List (List UInt8)) : List (List UInt8) := ps.filter fun p => !p.isEmpty

/-- A write.  The return value `0` of an empty package that is accepted is that of a
package that is dropped; the ring tells them apart. -/
def write (s : Session) (p : List UInt8) : Option Session :=
  (s.pkgBuf.userdataPackageWrite p).map fun (r, _) =>
    { s with
      pkgBuf := r
      accepted := if r.used = s.pkgBuf.used then s.accepted else s.accepted ++ [p] }

/-- A read. -/
def read (s : Session) (size : ℤ) (malloc : Bool) : Option Session :=
  (s.pkgBuf.userdataPackageRead size malloc).map fun (branch, bytes, r) =>
    { s with
      pkgBuf := r
      taken := if branch = .package ∨ branch = .notEnough then s.taken + 1 else s.taken
      returned := s.returned ++ nonempty [bytes]
      mustNotHappen := s.mustNotHappen || branch == .mustNotHappen }

/-- One call, on the session or on the wreck of one. -/
def step (s : Option Session) : Call → Option Session
  | .write p => s.bind fun s => s.write p
  | .read size malloc => s.bind fun s => s.read size malloc

@[simp] theorem step_write (s : Session) (p : List UInt8) :
    step (some s) (.write p) = s.write p := by
  rw [step, Option.bind_some]

@[simp] theorem step_read (s : Session) (size : ℤ) (malloc : Bool) :
    step (some s) (.read size malloc) = s.read size malloc := by
  rw [step, Option.bind_some]

/-- What the callers promise: the length of a package, its header counted, is an `int`,
and a read gives a buffer as large as the next package. -/
def Promised (s : Option Session) : Call → Prop
  | .write p => p.length + 4 < 2 ^ 31
  | .read size _ => ∀ t ∈ s, ∀ p ∈ t.pending.head?, (p.length : ℤ) ≤ size

/-- The framing invariant. -/
structure Framed (s : Session) : Prop where
  size_eq : s.pkgBuf.size = 5 * 1024
  queued : s.pkgBuf.Queued s.pending
  returned_eq : s.returned = nonempty (s.accepted.take s.taken)
  taken_le : s.taken ≤ s.accepted.length
  never : s.mustNotHappen = false

theorem framed_userdataOpen : userdataOpen.Framed where
  size_eq := rfl
  queued := by
    have : userdataOpen.pkgBuf.used = 0 := rfl
    rw [Queued, contents, this]
    rfl
  returned_eq := rfl
  taken_le := le_rfl
  never := rfl

variable {s : Session} {p : List UInt8}

/-- **A write.**  A package that does not fit leaves the session as it is. -/
theorem Framed.write_of_lt (h : s.Framed) (hp : p.length + 4 < 2 ^ 31)
    (hfull : s.pkgBuf.size ≤ s.pkgBuf.used + p.length + 4) : s.write p = some s := by
  have hsize := h.size_eq
  rw [write, userdataPackageWrite_of_lt (by omega) hp hfull, Option.map_some]
  dsimp only
  rw [if_pos rfl]

/-- A package that fits is accepted. -/
theorem Framed.write_of_le (h : s.Framed) (hfit : s.pkgBuf.used + p.length + 4 < s.pkgBuf.size) :
    ∃ s', s.write p = some s' ∧ s'.Framed ∧ s'.accepted = s.accepted ++ [p] ∧
      s'.returned = s.returned := by
  have hsize := h.size_eq
  obtain ⟨r', hwrite, hcontents, hsize'⟩ := userdataPackageWrite_of_le (by omega) hfit
  have hused : r'.used ≠ s.pkgBuf.used := by
    rw [← length_contents, hcontents, List.length_append, length_contents, length_frame]
    omega
  have htaken := h.taken_le
  rw [write, hwrite, Option.map_some]
  dsimp only
  rw [if_neg hused]
  refine ⟨_, rfl, ⟨hsize'.trans hsize, ?_, ?_, ?_, h.never⟩, rfl, rfl⟩
  · have hq := h.queued
    rw [Queued, pending] at hq
    show r'.contents = ((s.accepted ++ [p]).drop s.taken).flatMap frame
    rw [hcontents, hq, List.drop_append_of_le_length htaken, List.flatMap_append,
      List.flatMap_singleton]
  · show s.returned = nonempty ((s.accepted ++ [p]).take s.taken)
    rw [List.take_append_of_le_length htaken, h.returned_eq]
  · show s.taken ≤ (s.accepted ++ [p]).length
    rw [List.length_append]
    omega

/-- A read that finds no package with a byte in it. -/
theorem Framed.read_of_le (h : s.Framed) (hfew : s.pkgBuf.used ≤ 4) (size : ℤ) (malloc : Bool) :
    ∃ s', s.read size malloc = some s' ∧ s'.Framed ∧ s'.accepted = s.accepted ∧
      s'.returned = s.returned := by
  have hsize := h.size_eq
  obtain ⟨r', hread, hcontents, hsize'⟩ := userdataPackageRead_of_le (by omega) hfew size malloc
  refine ⟨{ s with pkgBuf := r' }, ?_, ⟨hsize'.trans hsize, ?_, h.returned_eq, h.taken_le,
    h.never⟩, rfl, rfl⟩
  · rw [read, hread, Option.map_some]
    simp [nonempty]
  · exact hcontents.trans h.queued

/-- **A read** takes the next package out. -/
theorem Framed.read_of_pending (h : s.Framed) (hmany : 4 < s.pkgBuf.used)
    (hp : p ∈ s.pending.head?) {size : ℤ} (hfit : (p.length : ℤ) ≤ size) (malloc : Bool) :
    ∃ s', s.read size malloc = some s' ∧ s'.Framed ∧ s'.accepted = s.accepted ∧
      s'.returned = s.returned ++ nonempty [p] := by
  have hsize := h.size_eq
  obtain ⟨ps, hps⟩ : ∃ ps, s.pending = p :: ps := List.head?_eq_some_iff.mp hp
  have hq := h.queued
  rw [hps] at hq
  obtain ⟨r', hread, hq', hsize'⟩ := userdataPackageRead_of_queued (by omega) hq hmany hfit malloc
  have hget : s.accepted[s.taken]? = some p := by
    rw [← List.head?_drop, ← pending, hps, List.head?_cons]
  have hlt : s.taken < s.accepted.length := (List.getElem?_eq_some_iff.mp hget).1
  rw [read, hread, Option.map_some]
  refine ⟨_, rfl, ⟨hsize'.trans hsize, ?_, ?_, ?_, ?_⟩, rfl, rfl⟩
  · show r'.Queued (s.accepted.drop (s.taken + 1))
    rw [← List.drop_drop, ← pending, hps, List.drop_one, List.tail_cons]
    exact hq'
  · show s.returned ++ nonempty [p] = nonempty (s.accepted.take (s.taken + 1))
    rw [List.take_add_one, hget, h.returned_eq, nonempty, nonempty, nonempty, List.filter_append]
    rfl
  · show s.taken + 1 ≤ s.accepted.length
    exact hlt
  · show (s.mustNotHappen || false) = false
    rw [h.never]
    rfl

/-- A ring in use has a package to read. -/
theorem Framed.exists_pending (h : s.Framed) (hused : s.pkgBuf.used ≠ 0) :
    ∃ p, p ∈ s.pending.head? := by
  cases hps : s.pending with
  | nil =>
    have hq := h.queued
    rw [Queued, hps] at hq
    exact absurd (by rw [← length_contents, hq]; rfl) hused
  | cons p ps => exact ⟨p, rfl⟩

/-- A package with a byte in it fills the ring beyond a header. -/
theorem Framed.used_of_pending (h : s.Framed) (hp : p ∈ s.pending.head?) (hne : p ≠ []) :
    4 < s.pkgBuf.used := by
  obtain ⟨ps, hps⟩ := List.head?_eq_some_iff.mp hp
  have hq := h.queued
  have hpos := List.length_pos_iff.mpr hne
  rw [Queued, hps, List.flatMap_cons] at hq
  rw [← length_contents, hq, List.length_append, length_frame]
  omega

/-- What one call keeps. -/
theorem Framed.step (h : s.Framed) {c : Call} (hc : Promised (some s) c) :
    ∃ s', Session.step (some s) c = some s' ∧ s'.Framed := by
  cases c with
  | write p =>
    rcases Nat.lt_or_ge (s.pkgBuf.used + p.length + 4) s.pkgBuf.size with hfit | hfull
    · obtain ⟨s', hwrite, hs', -⟩ := h.write_of_le hfit
      exact ⟨s', by rw [step_write, hwrite], hs'⟩
    · exact ⟨s, by rw [step_write, h.write_of_lt hc hfull], h⟩
  | read size malloc =>
    rcases Nat.lt_or_ge 4 s.pkgBuf.used with hmany | hfew
    · obtain ⟨p, hp⟩ := h.exists_pending (by omega)
      obtain ⟨s', hread, hs', -⟩ := h.read_of_pending hmany hp (hc s rfl p hp) malloc
      exact ⟨s', by rw [step_read, hread], hs'⟩
    · obtain ⟨s', hread, hs', -⟩ := h.read_of_le hfew size malloc
      exact ⟨s', by rw [step_read, hread], hs'⟩

theorem exists_framed {calls : List Call} (hcalls : Run.Meets Session.step Promised
      (some userdataOpen) calls) {t : Option Session}
    (ht : Run.Reached Session.step (some userdataOpen) calls t) : ∃ s, t = some s ∧ s.Framed := by
  have hstart : ∃ s, some userdataOpen = some s ∧ s.Framed :=
    ⟨userdataOpen, rfl, framed_userdataOpen⟩
  have hstep : ∀ t c, (∃ s, t = some s ∧ s.Framed) → Promised t c →
      ∃ s, Session.step t c = some s ∧ s.Framed := by
    rintro t c ⟨s, rfl, hs⟩ hc
    exact hs.step hc
  exact Run.invariant_of_meets hstep hstart hcalls ht

/-- **The queue never loses its framing.**  In every state a run of writes and reads
reaches, the ring holds the accepted packages that were not taken out, each behind its
length; the reads have returned the others, whole and in order; the branch that must
not happen has not happened.  From there a package that fits is accepted, one that does
not leaves the queue as it is, and a read returns the next package. -/
theorem framing_run (calls : List Call) (hcalls : Run.Meets Session.step Promised
      (some userdataOpen) calls) {t : Option Session}
    (ht : Run.Reached Session.step (some userdataOpen) calls t) :
    ∃ s, t = some s ∧ s.pkgBuf.contents = s.pending.flatMap frame ∧
      s.returned = nonempty (s.accepted.take s.taken) ∧ s.mustNotHappen = false ∧
      (∀ p, p.length + 4 < 2 ^ 31 → s.pkgBuf.size - 1 < s.pkgBuf.used + (frame p).length →
        s.write p = some s) ∧
      (∀ p, s.pkgBuf.used + (frame p).length ≤ s.pkgBuf.size - 1 →
        ∃ s', s.write p = some s' ∧ s'.accepted = s.accepted ++ [p] ∧
          s'.returned = s.returned) ∧
      (∀ p size malloc, p ∈ s.pending.head? → p ≠ [] → (p.length : ℤ) ≤ size →
        ∃ s', s.read size malloc = some s' ∧ s'.accepted = s.accepted ∧
          s'.returned = s.returned ++ [p]) := by
  obtain ⟨s, rfl, hs⟩ := exists_framed hcalls ht
  have hsize := hs.size_eq
  refine ⟨s, rfl, hs.queued, hs.returned_eq, hs.never, ?_, ?_, ?_⟩
  · intro p hp hfull
    rw [length_frame] at hfull
    exact hs.write_of_lt hp (by omega)
  · intro p hfit
    rw [length_frame] at hfit
    obtain ⟨s', hwrite, -, haccepted, hreturned⟩ := hs.write_of_le (p := p) (by omega)
    exact ⟨s', hwrite, haccepted, hreturned⟩
  · intro p size malloc hp hne hfit
    obtain ⟨s', hread, -, haccepted, hreturned⟩ :=
      hs.read_of_pending (hs.used_of_pending hp hne) hp hfit malloc
    refine ⟨s', hread, haccepted, ?_⟩
    rw [hreturned, nonempty, List.filter_cons_of_pos (by simpa using hne), List.filter_nil]

theorem framing_run_write : ∃ s, step (some userdataOpen) (.write [7]) = some s ∧
    s.pkgBuf.contents = s.pending.flatMap frame ∧
      s.returned = nonempty (s.accepted.take s.taken) ∧ s.mustNotHappen = false ∧
      (∀ p, p.length + 4 < 2 ^ 31 → s.pkgBuf.size - 1 < s.pkgBuf.used + (frame p).length →
        s.write p = some s) ∧
      (∀ p, s.pkgBuf.used + (frame p).length ≤ s.pkgBuf.size - 1 →
        ∃ s', s.write p = some s' ∧ s'.accepted = s.accepted ++ [p] ∧
          s'.returned = s.returned) ∧
      (∀ p size malloc, p ∈ s.pending.head? → p ≠ [] → (p.length : ℤ) ≤ size →
        ∃ s', s.read size malloc = some s' ∧ s'.accepted = s.accepted ∧
          s'.returned = s.returned ++ [p]) :=
  framing_run [.write [7]] ⟨show 1 + 4 < 2 ^ 31 by decide, trivial⟩ (Run.reached_last _ _)

end Session
end UserdataRingBuffer
end AmlSubtitle
