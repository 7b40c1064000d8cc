import AmlSubtitle.Lib.Words

/-!
# `utils/StreamUtils.h`

The helpers that read a big-endian word at the front of a buffer without moving the
pointer.  They shift byte after byte into a variable of the word's own type, which is
a bit vector here.  A `char` is unsigned; a byte that is not there reads as zero.
-/

namespace AmlSubtitle

open Words

/-- A word of `w` bits filled by `n` steps of `value <<= 8; value |= buffer[i]`. -/
def subPeek (w n : ℕ) (buffer : List UInt8) : BitVec w :=
  (List.range n).foldl
    (fun value i => value <<< 8 ||| (buffer.getD i 0).toBitVec.setWidth w) 0

/-- `subPeekAsInt32`. -/
def subPeekAsInt32 (buffer : List UInt8) : ℤ := (subPeek 32 4 buffer).toInt

/-- `subPeekAsInt64`. -/
def subPeekAsInt64 (buffer : List UInt8) : ℤ := (subPeek 64 8 buffer).toInt

/-- `subPeekAsUint32`. -/
def subPeekAsUint32 (buffer : List UInt8) : ℕ := (subPeek 32 4 buffer).toNat

/-- `subPeekAsUint64`. -/
def subPeekAsUint64 (buffer : List UInt8) : ℕ := (subPeek 64 8 buffer).toNat

/-- What is shifted in is the value of the bytes, cut down to the word. -/
theorem subPeek_toNat {w n : ℕ} {buffer : List UInt8} (h : n ≤ buffer.length) :
    (subPeek w n buffer).toNat = beValue (buffer.take n) % 2 ^ w := by
  induction n with
  | zero => simp [subPeek, beValue]
  | succ n ih =>
    have hlt : n < buffer.length := by omega
    have hstep : subPeek w (n + 1) buffer =
        subPeek w n buffer <<< 8 ||| (buffer.getD n 0).toBitVec.setWidth w := by
      rw [subPeek, List.range_succ, List.foldl_append]
      rfl
    rw [hstep, toNat_shiftIn, ih (by omega), List.take_succ_eq_append_getElem hlt,
      beValue_append_singleton, List.getD_eq_getElem _ _ hlt]
    exact ((Nat.mod_modEq _ _).mul_right 256).add_right _

/-- A word written big-endian is read back with its sign. -/
theorem subPeekAsInt32_beBytes {n : ℕ} (hn : n < 2 ^ 32) (rest : List UInt8) :
    subPeekAsInt32 (beBytes 4 n ++ rest) = asSigned 32 n := by
  rw [subPeekAsInt32, BitVec.toInt_eq_toNat_bmod, subPeek_toNat (by simp),
    List.take_append_of_le_length (by simp), List.take_of_length_le (by simp),
    beValue_beBytes (by omega), Nat.mod_eq_of_lt hn]
  rfl

/-- A long word written big-endian is read back with its sign. -/
theorem subPeekAsInt64_beBytes {n : ℕ} (hn : n < 2 ^ 64) (rest : List UInt8) :
    subPeekAsInt64 (beBytes 8 n ++ rest) = asSigned 64 n := by
  rw [subPeekAsInt64, BitVec.toInt_eq_toNat_bmod, subPeek_toNat (by simp),
    List.take_append_of_le_length (by simp), List.take_of_length_le (by simp),
    beValue_beBytes (by omega), Nat.mod_eq_of_lt hn]
  rfl

/-- An unsigned word written big-endian is read back. -/
theorem subPeekAsUint32_beBytes {n : ℕ} (hn : n < 2 ^ 32) (rest : List UInt8) :
    subPeekAsUint32 (beBytes 4 n ++ rest) = n := by
  rw [subPeekAsUint32, subPeek_toNat (by simp), List.take_append_of_le_length (by simp),
    List.take_of_length_le (by simp), beValue_beBytes (by omega), Nat.mod_eq_of_lt hn]

/-- An unsigned long word written big-endian is read back. -/
theorem subPeekAsUint64_beBytes {n : ℕ} (hn : n < 2 ^ 64) (rest : List UInt8) :
    subPeekAsUint64 (beBytes 8 n ++ rest) = n := by
  rw [subPeekAsUint64, subPeek_toNat (by simp), List.take_append_of_le_length (by simp),
    List.take_of_length_le (by simp), beValue_beBytes (by omega), Nat.mod_eq_of_lt hn]

end AmlSubtitle
