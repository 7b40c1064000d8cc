import Mathlib.Data.List.TakeWhile
import AmlSubtitle.Parser.DvbContext

/-!
# The data units of teletext

`slice2VbiLines` of `TeletextParser.cpp`, which takes the lines of teletext out of the data
units of a buffer.

* `Splits`: a buffer is data units, one after the other, and a rest too short for another.
* `sliceLoop_spec`: the loop takes the first teletext units, up to the first whose length is
  not that of a line.

A `char` is unsigned, as on the target.
-/

namespace AmlSubtitle
namespace Teletext

open Dvb (Source sourceOf)

/-! ## The loop -/

/-- `MAX_SLICES`. -/
def MAX_SLICES : ℕ := 64

/-- `VBI_SLICED_TELETEXT_B`. -/
def VBI_SLICED_TELETEXT_B : ℕ := 3

/-- `vbi_rev8`: the bits in the other order. -/
def vbiRev8 (c : UInt8) : UInt8 := ⟨c.toBitVec.reverse⟩

/-- `checkUnitIdIsTeletext`. -/
def checkUnitIdIsTeletext (unitId : UInt8) : Bool := unitId = 0x02 ∨ unitId = 0x03

/-- The fields of `vbi_sliced`. -/
structure VbiSliced where
  id : ℕ
  line : ℕ
  data : List UInt8
  deriving DecidableEq, Repr

/-- The number of a line, of a byte with its offset and its parity. -/
def lineNumber (b : UInt8) : ℕ :=
  let lineOffset := b.toNat &&& 0x1f
  let fieldParity := b.toNat &&& 0x20
  if 0 < lineOffset then lineOffset + (if fieldParity ≠ 0 then 0 else 13) else 0

/-- The line of the unit at `p`. -/
def slicedAt (buf : Source) (p : ℕ) : VbiSliced where
  id := VBI_SLICED_TELETEXT_B
  line := lineNumber (buf (p + 2))
  data := (List.range' (p + 4) 42).map fun k => vbiRev8 (buf k)

/-- What `slice2VbiLines` returns, the entries of `sliced` that it has written, and where it has
read. -/
structure Slices where
  ret : ℤ
  sliced : List VbiSliced
  reads : List ℕ

/-- The loop at `p`, where `size` bytes are left and `lines` lines are written; of at most `fuel`
passes. -/
def sliceLoop (buf : Source) : ℕ → ℕ → ℤ → ℕ → Slices
  | 0, _, _, lines => { ret := lines, sliced := [], reads := [] }
  | fuel + 1, p, size, lines =>
    if 2 ≤ size ∧ lines < MAX_SLICES then
      let unitId := buf p
      let unitLen := (buf (p + 1)).toNat
      let next := p + (unitLen + 2)
      if size < unitLen + 2 then
        { ret := lines, sliced := [], reads := [p, p + 1] }
      else if checkUnitIdIsTeletext unitId then
        if unitLen ≠ 0x2c then
          { ret := -1, sliced := [], reads := [p, p + 1] }
        else
          let rest := sliceLoop buf fuel next (size - (unitLen + 2)) (lines + 1)
          { rest with
            sliced := slicedAt buf p :: rest.sliced
            reads := [p, p + 1, p + 2] ++ List.range' (p + 4) 42 ++ rest.reads }
      else
        let rest := sliceLoop buf fuel next (size - (unitLen + 2)) lines
        { rest with reads := [p, p + 1] ++ rest.reads }
    else
      { ret := lines, sliced := [], reads := [] }

/-- `slice2VbiLines`.  A pass takes two bytes or more. -/
def slice2VbiLines (buf : Source) (size : ℤ) : Slices := sliceLoop buf size.toNat 0 size 0

/-! ## Units -/

/-- A data unit. -/
structure DataUnit where
  id : UInt8
  payload : List UInt8
  length_lt : payload.length < 256

namespace DataUnit

/-- The bytes of a unit. -/
def encode (u : DataUnit) : List UInt8 := u.id :: UInt8.ofNat u.payload.length :: u.payload

/-- The unit is one of teletext. -/
def isTeletext (u : DataUnit) : Bool := checkUnitIdIsTeletext u.id

/-- The unit has the length of a line. -/
def isLine (u : DataUnit) : Bool := u.payload.length = 44

/-- The line of a unit: behind the line number and the framing code, each byte with its bits in the
other order. -/
def toSliced (u : DataUnit) : VbiSliced where
  id := VBI_SLICED_TELETEXT_B
  line := lineNumber (u.payload.getD 0 0)
  data := (u.payload.drop 2).map vbiRev8

end DataUnit

/-- Too few bytes for a unit. -/
def Truncated : List UInt8 → Prop
  | _ :: len :: rest => rest.length < len.toNat
  | _ => True

/-- The bytes are units, one after the other, and a rest too short for another. -/
def Splits (bytes : List UInt8) (units : List DataUnit) (tail : List UInt8) : Prop :=
  bytes = units.flatMap DataUnit.encode ++ tail ∧ Truncated tail

/-- `n` bytes of a buffer. -/
def bytesAt (buf : Source) (p n : ℕ) : List UInt8 := (List.range' p n).map buf

/-- Every string of bytes is units and a rest. -/
theorem exists_splits : ∀ bytes : List UInt8, ∃ units tail, Splits bytes units tail
  | [] => ⟨[], [], rfl, trivial⟩
  | [b] => ⟨[], [b], rfl, trivial⟩
  | id :: len :: rest => by
    by_cases hlen : rest.length < len.toNat
    · exact ⟨[], id :: len :: rest, rfl, hlen⟩
    · obtain ⟨units, tail, hsplits, htail⟩ := exists_splits (rest.drop len.toNat)
      have htake : (rest.take len.toNat).length = len.toNat := by
        rw [List.length_take]
        omega
      refine ⟨⟨id, rest.take len.toNat, by rw [htake]; exact len.toNat_lt⟩ :: units, tail, ?_,
        htail⟩
      have hencode : DataUnit.encode ⟨id, rest.take len.toNat, by rw [htake]; exact len.toNat_lt⟩ =
          id :: len :: rest.take len.toNat := by
        simp [DataUnit.encode, htake]
      rw [List.flatMap_cons, List.append_assoc, ← hsplits, hencode]
      simp
termination_by bytes => bytes.length
decreasing_by
  simp only [List.length_drop, List.length_cons]
  omega

section Loop

variable {buf : Source} {p n : ℕ}

theorem bytesAt_succ (buf : Source) (p n : ℕ) :
    bytesAt buf p (n + 1) = buf p :: bytesAt buf (p + 1) n := by
  rw [bytesAt, List.range'_succ, List.map_cons, bytesAt]

theorem bytesAt_add (buf : Source) (p n m : ℕ) :
    bytesAt buf p (n + m) = bytesAt buf p n ++ bytesAt buf (p + n) m := by
  rw [bytesAt, bytesAt, bytesAt, ← List.map_append, List.range'_append_1]

@[simp] theorem length_bytesAt (buf : Source) (p n : ℕ) : (bytesAt buf p n).length = n := by
  simp [bytesAt]

/-- A unit in front. -/
theorem bytesAt_encode {u : DataUnit} {rest : List UInt8}
    (h : bytesAt buf p n = u.encode ++ rest) :
    ∃ m, n = u.payload.length + 2 + m ∧ buf p = u.id ∧
      (buf (p + 1)).toNat = u.payload.length ∧
      bytesAt buf (p + 2) u.payload.length = u.payload ∧
      bytesAt buf (p + (u.payload.length + 2)) m = rest := by
  have hlength := congrArg List.length h
  rw [length_bytesAt, List.length_append, DataUnit.encode, List.length_cons, List.length_cons]
    at hlength
  obtain ⟨m, rfl⟩ : ∃ m, n = u.payload.length + 2 + m := ⟨rest.length, hlength⟩
  rw [bytesAt_add] at h
  obtain ⟨hfirst, hrest⟩ := List.append_inj h (by simp [DataUnit.encode])
  rw [bytesAt_succ, bytesAt_succ, DataUnit.encode, List.cons.injEq, List.cons.injEq] at hfirst
  obtain ⟨hid, hlen, hpayload⟩ := hfirst
  refine ⟨m, rfl, hid, ?_, hpayload, hrest⟩
  rw [hlen, UInt8.toNat_ofNat', Nat.mod_eq_of_lt u.length_lt]

/-- The line of a unit with 44 bytes. -/
theorem slicedAt_eq {u : DataUnit} (hline : u.payload.length = 44)
    (hpayload : bytesAt buf (p + 2) u.payload.length = u.payload) :
    slicedAt buf p = u.toSliced := by
  rw [hline] at hpayload
  have hdata : bytesAt buf (p + 4) 42 = u.payload.drop 2 := by
    rw [← hpayload, show 44 = 2 + 42 from rfl, bytesAt_add, List.drop_left' (length_bytesAt ..)]
  have hfirst : buf (p + 2) = u.payload.getD 0 0 := by
    rw [← hpayload]
    rfl
  rw [slicedAt, DataUnit.toSliced, ← hdata, bytesAt, List.map_map, hfirst]
  rfl

/-- The first `k` teletext units. -/
def taken (k : ℕ) (units : List DataUnit) : List DataUnit :=
  (units.filter DataUnit.isTeletext).take k

/-- What the loop makes of units, where `lines` lines are written: it reads up to `last`, and takes
the first teletext units up to one that is no line, for which it fails. -/
structure Takes (units : List DataUnit) (last lines : ℕ) (s : Slices) : Prop where
  reads : ∀ r ∈ s.reads, r < last
  sliced : s.sliced =
    ((taken (MAX_SLICES - lines) units).takeWhile DataUnit.isLine).map DataUnit.toSliced
  ret : s.ret = if (taken (MAX_SLICES - lines) units).all DataUnit.isLine then
    ((lines + s.sliced.length : ℕ) : ℤ) else -1

theorem takes_nil (last lines : ℕ) {reads : List ℕ} (hreads : ∀ r ∈ reads, r < last) :
    Takes [] last lines { ret := lines, sliced := [], reads := reads } :=
  ⟨hreads, by simp [taken], by simp [taken]⟩

/-- A full array. -/
theorem takes_full (units : List DataUnit) {last lines : ℕ} (hfull : MAX_SLICES ≤ lines) :
    Takes units last lines { ret := lines, sliced := [], reads := [] } := by
  have hnone : MAX_SLICES - lines = 0 := Nat.sub_eq_zero_of_le hfull
  exact ⟨by simp, by simp [taken, hnone], by simp [taken, hnone]⟩

section Cons

variable {u : DataUnit} {units : List DataUnit} {last lines : ℕ} {s : Slices} {reads : List ℕ}

theorem taken_cons_of_text (htext : u.isTeletext = true) (hlines : lines < MAX_SLICES) :
    taken (MAX_SLICES - lines) (u :: units) = u :: taken (MAX_SLICES - (lines + 1)) units := by
  obtain ⟨k, hk⟩ : ∃ k, MAX_SLICES - lines = k + 1 := ⟨MAX_SLICES - lines - 1, by omega⟩
  have hk' : MAX_SLICES - (lines + 1) = k := by omega
  rw [taken, taken, List.filter_cons_of_pos htext, hk, hk', List.take_succ_cons]

/-- A line in front. -/
theorem Takes.line (h : Takes units last (lines + 1) s) (htext : u.isTeletext = true)
    (hlines : lines < MAX_SLICES) (hline : u.isLine = true) (hreads : ∀ r ∈ reads, r < last) :
    Takes (u :: units) last lines
      { s with sliced := u.toSliced :: s.sliced, reads := reads ++ s.reads } := by
  refine ⟨List.forall_mem_append.mpr ⟨hreads, h.reads⟩, ?_, ?_⟩
  · rw [taken_cons_of_text htext hlines, List.takeWhile_cons_of_pos hline, List.map_cons,
      ← h.sliced]
  · rw [taken_cons_of_text htext hlines, List.all_cons, hline, Bool.true_and, h.ret,
      List.length_cons, Nat.add_right_comm, Nat.add_assoc]

/-- A teletext unit that is no line in front. -/
theorem takes_noLine (htext : u.isTeletext = true) (hlines : lines < MAX_SLICES)
    (hline : u.isLine = false) (hreads : ∀ r ∈ reads, r < last) :
    Takes (u :: units) last lines { ret := -1, sliced := [], reads := reads } := by
  refine ⟨hreads, ?_, ?_⟩
  · rw [taken_cons_of_text htext hlines]
    simp [hline]
  · rw [taken_cons_of_text htext hlines]
    simp [hline]

/-- Another unit in front. -/
theorem Takes.foreign (h : Takes units last lines s) (htext : u.isTeletext ≠ true)
    (hreads : ∀ r ∈ reads, r < last) :
    Takes (u :: units) last lines { s with reads := reads ++ s.reads } := by
  have htaken : taken (MAX_SLICES - lines) (u :: units) = taken (MAX_SLICES - lines) units := by
    rw [taken, taken, List.filter_cons_of_neg htext]
  refine ⟨List.forall_mem_append.mpr ⟨hreads, h.reads⟩, ?_, ?_⟩
  · rw [htaken]
    exact h.sliced
  · rw [htaken]
    exact h.ret

end Cons

/-- The loop behind the last whole unit. -/
theorem sliceLoop_tail {fuel lines : ℕ} {tail : List UInt8} (hbytes : bytesAt buf p n = tail)
    (htail : Truncated tail) : Takes [] (p + n) lines (sliceLoop buf fuel p n lines) := by
  cases fuel with
  | zero => exact takes_nil _ _ (by simp)
  | succ fuel =>
    rw [sliceLoop]
    by_cases hmore : 2 ≤ (n : ℤ) ∧ lines < MAX_SLICES
    · obtain ⟨m, rfl⟩ : ∃ m, n = m + 2 := ⟨n - 2, by omega⟩
      rw [← hbytes, bytesAt_succ, bytesAt_succ] at htail
      have hshort : m < (buf (p + 1)).toNat := by simpa [Truncated] using htail
      rw [if_pos hmore]
      dsimp only
      rw [if_pos (by omega)]
      refine takes_nil _ _ fun r hr => ?_
      simp only [List.mem_cons, List.not_mem_nil, or_false] at hr
      omega
    · rw [if_neg hmore]
      exact takes_nil _ _ (by simp)

/-- **The loop.** -/
theorem sliceLoop_spec {fuel lines : ℕ} {units : List DataUnit} {tail : List UInt8}
    (hfuel : n ≤ fuel) (hsplits : Splits (bytesAt buf p n) units tail) :
    Takes units (p + n) lines (sliceLoop buf fuel p n lines) := by
  obtain ⟨hbytes, htail⟩ := hsplits
  induction units generalizing p n fuel lines with
  | nil => exact sliceLoop_tail hbytes htail
  | cons u units ih =>
    rw [List.flatMap_cons, List.append_assoc] at hbytes
    obtain ⟨m, rfl, hid, hlen, hpayload, hrest⟩ := bytesAt_encode hbytes
    have hsize : ((u.payload.length + 2 + m : ℕ) : ℤ) - (((buf (p + 1)).toNat : ℤ) + 2) = m := by
      rw [hlen]
      push_cast
      ring
    have hlast : p + (u.payload.length + 2) + m = p + (u.payload.length + 2 + m) := by ring
    have hhead : ∀ r ∈ [p, p + 1], r < p + (u.payload.length + 2 + m) := by
      intro r hr
      simp only [List.mem_cons, List.not_mem_nil, or_false] at hr
      omega
    cases fuel with
    | zero => omega
    | succ fuel =>
      have hloop : ∀ lines, Takes units (p + (u.payload.length + 2 + m)) lines
          (sliceLoop buf fuel (p + (u.payload.length + 2)) m lines) := fun lines =>
        hlast ▸ ih (by omega) hrest
      rw [sliceLoop]
      by_cases hfull : lines < MAX_SLICES
      · rw [if_pos ⟨by omega, hfull⟩]
        dsimp only
        rw [hsize, hlen, hid, if_neg (by omega)]
        by_cases htext : u.isTeletext = true
        · rw [if_pos (show checkUnitIdIsTeletext u.id = true from htext)]
          by_cases hline : u.payload.length = 44
          · rw [if_neg (by omega), slicedAt_eq hline hpayload]
            refine (hloop (lines + 1)).line htext hfull (decide_eq_true hline) fun r hr => ?_
            simp only [List.mem_append, List.mem_cons, List.not_mem_nil, or_false,
              List.mem_range'_1] at hr
            omega
          · rw [if_pos hline]
            exact takes_noLine htext hfull (decide_eq_false hline) hhead
        · rw [if_neg (show checkUnitIdIsTeletext u.id ≠ true from htext)]
          exact (hloop lines).foreign htext hhead
      · rw [if_neg fun h => hfull h.2]
        exact takes_full _ (not_lt.mp hfull)

end Loop

/-- What is made of the units of a buffer: no read goes past it, there are at most `MAX_SLICES`
lines, and they are those of the teletext units in their order.  The call fails exactly if one of
the first `MAX_SLICES` teletext units has another length than a line. -/
structure TakesLines (units : List DataUnit) (size : ℤ) (s : Slices) : Prop where
  reads : ∀ r ∈ s.reads, (r : ℤ) < size
  length_le : s.sliced.length ≤ MAX_SLICES
  failed_iff : s.ret = -1 ↔ ∃ u ∈ taken MAX_SLICES units, u.payload.length ≠ 44
  ret : s.ret ≠ -1 → s.ret = s.sliced.length
  sliced : s.ret ≠ -1 → s.sliced = (taken MAX_SLICES units).map DataUnit.toSliced

theorem Takes.takesLines {units : List DataUnit} {size : ℤ} {s : Slices}
    (h : Takes units (0 + size.toNat) 0 s) : TakesLines units size s := by
  obtain ⟨hreads, hsliced, hret⟩ := h
  rw [Nat.sub_zero] at hsliced hret
  have hlength : ((taken MAX_SLICES units).takeWhile DataUnit.isLine).length ≤ MAX_SLICES :=
    ((List.takeWhile_sublist _).length_le).trans (List.length_take_le _ _)
  have hfailed : s.ret = -1 ↔ ∃ u ∈ taken MAX_SLICES units, u.payload.length ≠ 44 := by
    rw [hret]
    by_cases hall : (taken MAX_SLICES units).all DataUnit.isLine = true
    · have hpos : ((0 + s.sliced.length : ℕ) : ℤ) ≠ -1 := by omega
      rw [if_pos hall]
      refine iff_of_false hpos ?_
      rintro ⟨u, hu, hlen⟩
      exact hlen (of_decide_eq_true (List.all_eq_true.mp hall u hu))
    · rw [if_neg hall]
      simpa [DataUnit.isLine] using hall
  have hall : s.ret ≠ -1 → (taken MAX_SLICES units).all DataUnit.isLine = true := by
    intro hok
    by_contra hnot
    rw [if_neg hnot] at hret
    exact hok hret
  refine ⟨fun r hr => ?_, by rw [hsliced]; simpa using hlength, hfailed, fun hok => ?_,
    fun hok => ?_⟩
  · have := hreads r hr
    omega
  · rw [hret, if_pos (hall hok), Nat.zero_add]
  · rw [hsliced, List.takeWhile_eq_self_iff.mpr (List.all_eq_true.mp (hall hok))]

theorem slice2VbiLines_eq (buf : Source) (size : ℤ) :
    slice2VbiLines buf size = sliceLoop buf size.toNat 0 size.toNat 0 := by
  rcases lt_or_ge size 0 with hneg | hpos
  · have hnone : size.toNat = 0 := by omega
    rw [slice2VbiLines, hnone]
    rfl
  · rw [slice2VbiLines, Int.toNat_of_nonneg hpos]

/-- **The lines of a buffer.**  Every buffer is units and a rest, and the loop takes the lines of
these units. -/
theorem slice2VbiLines_spec (buf : Source) (size : ℤ) :
    (∃ units tail, Splits (bytesAt buf 0 size.toNat) units tail) ∧
      ∀ units tail, Splits (bytesAt buf 0 size.toNat) units tail →
        TakesLines units size (slice2VbiLines buf size) := by
  refine ⟨exists_splits _, fun units tail hsplits => ?_⟩
  rw [slice2VbiLines_eq]
  exact (sliceLoop_spec le_rfl hsplits).takesLines

/-- 64 lines of zeros, and a unit of teletext without any bytes. -/
def lastUnitEmpty : List DataUnit :=
  List.replicate 64 ⟨0x02, List.replicate 44 0, by decide⟩ ++ [⟨0x02, [], by decide⟩]

theorem bytesAt_sourceOf (bytes : List UInt8) :
    bytesAt (sourceOf bytes) 0 bytes.length = bytes := by
  refine List.ext_getElem (length_bytesAt ..) fun i hi hi' => ?_
  simp [bytesAt, sourceOf, hi']

/-- Behind 64 lines a unit with another length is not looked at. -/
theorem not_failed_iff_lastUnitEmpty :
    ¬ ∀ (buf : Source) (size : ℤ) (units : List DataUnit) (tail : List UInt8),
      Splits (bytesAt buf 0 size.toNat) units tail →
        ((slice2VbiLines buf size).ret = -1 ↔
          ∃ u ∈ units, u.isTeletext ∧ u.payload.length ≠ 44) := by
  intro h
  have hsplits : Splits (bytesAt (sourceOf (lastUnitEmpty.flatMap DataUnit.encode)) 0
      ((lastUnitEmpty.flatMap DataUnit.encode).length : ℤ).toNat) lastUnitEmpty [] := by
    refine ⟨?_, trivial⟩
    rw [Int.toNat_natCast, bytesAt_sourceOf, List.append_nil]
  have htakes : Takes lastUnitEmpty _ 0 _ := sliceLoop_spec le_rfl hsplits
  have hlines := htakes.takesLines
  rw [← slice2VbiLines_eq] at hlines
  have hbad : ∃ u ∈ lastUnitEmpty, u.isTeletext ∧ u.payload.length ≠ 44 :=
    ⟨⟨0x02, [], by decide⟩, by simp [lastUnitEmpty], by decide⟩
  have hfirst : ¬ ∃ u ∈ taken MAX_SLICES lastUnitEmpty, u.payload.length ≠ 44 := by decide
  exact hfirst (hlines.failed_iff.mp ((h _ _ _ _ hsplits).mpr hbad))

end Teletext
end AmlSubtitle
