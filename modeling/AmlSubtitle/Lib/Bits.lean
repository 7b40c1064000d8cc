import Mathlib.Data.Nat.Bitwise
import Mathlib.Tactic

/-!
# Bits of a string of bytes

The bits of a string of bytes, the highest of a byte first: `bitsAt s i n` is the value of
the `n` bits from bit `i` on.

* `bitsAt_add`: two fields side by side are one field.
* `bitsAt_byte`: eight bits from the start of a byte are the byte.
* `bitsAt_word`: a reader that shifts a window of four bytes gives the field.
* `HasFields`: fields, one after the other, with given widths and values.
-/

namespace AmlSubtitle
namespace Bits

/-- The bit at `i`. -/
def bit (s : ℕ → UInt8) (i : ℕ) : Bool := (s (i / 8)).toNat.testBit (7 - i % 8)

/-- The value of the `n` bits from bit `i` on. -/
def bitsAt (s : ℕ → UInt8) (i : ℕ) : ℕ → ℕ
  | 0 => 0
  | n + 1 => bitsAt s i n * 2 + (bit s (i + n)).toNat

section

variable {s : ℕ → UInt8} {i n m : ℕ}

@[simp] theorem bitsAt_zero (s : ℕ → UInt8) (i : ℕ) : bitsAt s i 0 = 0 := rfl

theorem bitsAt_succ (s : ℕ → UInt8) (i n : ℕ) :
    bitsAt s i (n + 1) = bitsAt s i n * 2 + (bit s (i + n)).toNat := rfl

theorem bitsAt_lt (s : ℕ → UInt8) (i n : ℕ) : bitsAt s i n < 2 ^ n := by
  induction n with
  | zero => simp
  | succ n ih =>
    have hbit := Bool.toNat_le (bit s (i + n))
    rw [bitsAt_succ, pow_succ]
    omega

/-- Two fields side by side. -/
theorem bitsAt_add (s : ℕ → UInt8) (i n m : ℕ) :
    bitsAt s i (n + m) = bitsAt s i n * 2 ^ m + bitsAt s (i + n) m := by
  induction m with
  | zero => simp
  | succ m ih =>
    rw [← Nat.add_assoc, bitsAt_succ, ih, bitsAt_succ, pow_succ, Nat.add_assoc i n m]
    ring

/-- A field depends on its bytes only. -/
theorem bitsAt_congr {s' : ℕ → UInt8}
    (h : ∀ k, i / 8 ≤ k → 8 * k < i + n → s k = s' k) : bitsAt s i n = bitsAt s' i n := by
  induction n with
  | zero => rfl
  | succ n ih =>
    have hlast : s ((i + n) / 8) = s' ((i + n) / 8) := h _ (by omega) (by omega)
    rw [bitsAt_succ, bitsAt_succ, ih fun k hk hlt => h k hk (by omega), bit, bit, hlast]

/-- A field of a part of the bytes. -/
theorem bitsAt_offset (s : ℕ → UInt8) (k i n : ℕ) :
    bitsAt (fun j => s (k + j)) i n = bitsAt s (8 * k + i) n := by
  induction n with
  | zero => rfl
  | succ n ih =>
    have hbyte : (8 * k + i + n) / 8 = k + (i + n) / 8 := by omega
    have hplace : (8 * k + i + n) % 8 = (i + n) % 8 := by omega
    rw [bitsAt_succ, bitsAt_succ, ih, bit, bit, hbyte, hplace]

/-- A field of zero bytes. -/
theorem bitsAt_eq_zero (h : ∀ k, i / 8 ≤ k → s k = 0) : bitsAt s i n = 0 := by
  induction n with
  | zero => rfl
  | succ n ih =>
    rw [bitsAt_succ, ih, bit, h ((i + n) / 8) (Nat.div_le_div_right (Nat.le_add_right i n))]
    simp

/-- The bits of a field, the lowest first. -/
theorem testBit_bitsAt (s : ℕ → UInt8) (i n j : ℕ) :
    (bitsAt s i n).testBit j = (decide (j < n) && bit s (i + (n - 1 - j))) := by
  induction n generalizing j with
  | zero => simp
  | succ n ih =>
    cases j with
    | zero =>
      rw [bitsAt_succ, Nat.testBit_zero]
      cases hbit : bit s (i + n)
      all_goals simp [hbit]
    | succ j =>
      have hhalf : bitsAt s i (n + 1) / 2 = bitsAt s i n := by
        have hbit := Bool.toNat_le (bit s (i + n))
        rw [bitsAt_succ]
        omega
      have hplace : n + 1 - 1 - (j + 1) = n - 1 - j := by omega
      rw [Nat.testBit_succ, hhalf, ih, hplace]
      simp

/-- A number is a field when it has its bits. -/
theorem eq_bitsAt {v : ℕ} (hlt : v < 2 ^ n)
    (h : ∀ j < n, v.testBit j = bit s (i + (n - 1 - j))) : v = bitsAt s i n := by
  refine Nat.eq_of_testBit_eq fun j => ?_
  rw [testBit_bitsAt]
  by_cases hj : j < n
  · simp [h j hj, hj]
  · have hbig : v < 2 ^ j := hlt.trans_le (Nat.pow_le_pow_right (by decide) (by omega))
    simp [hj, Nat.testBit_lt_two_pow hbig]

/-- **A byte.** -/
theorem bitsAt_byte (s : ℕ → UInt8) (k : ℕ) : bitsAt s (8 * k) 8 = (s k).toNat := by
  refine (eq_bitsAt (s k).toNat_lt fun j hj => ?_).symm
  have hbyte : (8 * k + (8 - 1 - j)) / 8 = k := by omega
  have hplace : 7 - (8 * k + (8 - 1 - j)) % 8 = j := by omega
  rw [bit, hbyte, hplace]

/-- The first bits of a field. -/
theorem bitsAt_take (s : ℕ → UInt8) (i n m : ℕ) :
    bitsAt s i n = bitsAt s i (n + m) / 2 ^ m := by
  have hlt := bitsAt_lt s (i + n) m
  rw [bitsAt_add, Nat.mul_comm, Nat.mul_add_div (Nat.two_pow_pos m), Nat.div_eq_of_lt hlt,
    Nat.add_zero]

/-- The last bits of a field. -/
theorem bitsAt_drop (s : ℕ → UInt8) (i n m : ℕ) :
    bitsAt s (i + n) m = bitsAt s i (n + m) % 2 ^ m := by
  rw [bitsAt_add, Nat.mul_add_mod_of_lt (bitsAt_lt s (i + n) m)]

/-- Two bytes side by side. -/
theorem bitsAt_pair (s : ℕ → UInt8) (k : ℕ) :
    bitsAt s (8 * k) 16 = (s k).toNat <<< 8 ||| (s (k + 1)).toNat := by
  have hlt : (s (k + 1)).toNat < 2 ^ 8 := (s (k + 1)).toNat_lt
  rw [← Nat.shiftLeft_add_eq_or_of_lt hlt, Nat.shiftLeft_eq, bitsAt_add s (8 * k) 8 8,
    bitsAt_byte, show 8 * k + 8 = 8 * (k + 1) from rfl, bitsAt_byte]

/-- A mask above a place. -/
theorem and_shiftLeft (v mask k : ℕ) : v &&& mask <<< k = (v >>> k &&& mask) <<< k := by
  refine Nat.eq_of_testBit_eq fun j => ?_
  by_cases hj : k ≤ j
  · simp [hj]
  · simp [hj]

/-- A string of four bytes, the first the highest. -/
theorem testBit_word (s : ℕ → UInt8) (k : ℕ) {j : ℕ} (hj : j < 32) :
    ((s k).toNat <<< 24 ||| (s (k + 1)).toNat <<< 16 ||| (s (k + 2)).toNat <<< 8 |||
      (s (k + 3)).toNat).testBit j = bit s (8 * k + (31 - j)) := by
  have hbyte : ∀ k j, 8 ≤ j → (s k).toNat.testBit j = false := fun k j hj =>
    Nat.testBit_lt_two_pow ((s k).toNat_lt.trans_le (Nat.pow_le_pow_right (by decide) hj))
  have hbit : ∀ k' j', (8 * k + (31 - j)) / 8 = k' → 7 - (8 * k + (31 - j)) % 8 = j' →
      bit s (8 * k + (31 - j)) = (s k').toNat.testBit j' := by
    rintro k' j' rfl rfl
    rfl
  simp only [Nat.testBit_or, Nat.testBit_shiftLeft]
  by_cases h24 : 24 ≤ j
  · rw [hbit k (j - 24) (by omega) (by omega), hbyte (k + 1) (j - 16) (by omega),
      hbyte (k + 2) (j - 8) (by omega), hbyte (k + 3) j (by omega)]
    simp [h24]
  · by_cases h16 : 16 ≤ j
    · rw [hbit (k + 1) (j - 16) (by omega) (by omega), hbyte (k + 2) (j - 8) (by omega),
        hbyte (k + 3) j (by omega)]
      simp [h24, h16]
    · by_cases h8 : 8 ≤ j
      · rw [hbit (k + 2) (j - 8) (by omega) (by omega), hbyte (k + 3) j (by omega)]
        simp [h24, h16, h8]
      · rw [hbit (k + 3) j (by omega) (by omega)]
        simp [h24, h16, h8]

/-- **A window of four bytes**: shifted up to the first bit and down to the last, it is the
field of at most 25 bits. -/
theorem bitsAt_word (s : ℕ → UInt8) (i : ℕ) (hn : n ≤ 25) :
    (((s (i / 8)).toNat <<< 24 ||| (s (i / 8 + 1)).toNat <<< 16 |||
      (s (i / 8 + 2)).toNat <<< 8 ||| (s (i / 8 + 3)).toNat) <<< (i % 8) % 2 ^ 32) >>> (32 - n) =
        bitsAt s i n := by
  refine eq_bitsAt ?_ fun j hj => ?_
  · rw [Nat.shiftRight_eq_div_pow]
    refine Nat.div_lt_of_lt_mul ?_
    rw [← pow_add, Nat.sub_add_cancel (by omega)]
    exact Nat.mod_lt _ (by decide)
  · have hplace : 8 * (i / 8) + (31 - (32 - n + j - i % 8)) = i + (n - 1 - j) := by omega
    have hhigh : 32 - n + j < 32 := by omega
    have hlow : i % 8 ≤ 32 - n + j := by omega
    rw [Nat.testBit_shiftRight, Nat.testBit_mod_two_pow, Nat.testBit_shiftLeft,
      testBit_word s _ (by omega), hplace, decide_eq_true hhigh, decide_eq_true hlow,
      Bool.true_and, Bool.true_and]

/-- A window of one byte. -/
theorem bitsAt_one (s : ℕ → UInt8) (i : ℕ) :
    ((s (i / 8)).toNat <<< (i % 8) % 2 ^ 8) >>> 7 = bitsAt s i 1 := by
  refine eq_bitsAt ?_ fun j hj => ?_
  · rw [Nat.shiftRight_eq_div_pow]
    exact Nat.div_lt_of_lt_mul (Nat.mod_lt _ (by decide))
  · obtain rfl : j = 0 := by omega
    rw [Nat.testBit_shiftRight, Nat.testBit_mod_two_pow, Nat.testBit_shiftLeft, bit]
    simp
    omega

end

/-! ## Fields -/

/-- A width and a value. -/
abbrev Field := ℕ × ℕ

/-- The bits of fields, one after the other. -/
def width (fields : List Field) : ℕ := (fields.map Prod.fst).sum

@[simp] theorem width_nil : width [] = 0 := rfl

@[simp] theorem width_cons (field : Field) (fields : List Field) :
    width (field :: fields) = field.1 + width fields := rfl

/-- The bits from bit `i` on are these fields. -/
def HasFields (s : ℕ → UInt8) : ℕ → List Field → Prop
  | _, [] => True
  | i, field :: fields => bitsAt s i field.1 = field.2 ∧ HasFields s (i + field.1) fields

instance decidableHasFields (s : ℕ → UInt8) : ∀ i fields, Decidable (HasFields s i fields)
  | _, [] => isTrue trivial
  | i, field :: fields =>
    have := decidableHasFields s (i + field.1) fields
    inferInstanceAs (Decidable (_ ∧ _))

@[simp] theorem hasFields_nil (s : ℕ → UInt8) (i : ℕ) : HasFields s i [] := trivial

@[simp] theorem hasFields_cons (s : ℕ → UInt8) (i n v : ℕ) (fields : List Field) :
    HasFields s i ((n, v) :: fields) ↔ bitsAt s i n = v ∧ HasFields s (i + n) fields :=
  Iff.rfl

end Bits
end AmlSubtitle
