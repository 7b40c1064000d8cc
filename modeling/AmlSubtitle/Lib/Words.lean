import Mathlib.Data.Nat.Bitwise
import Mathlib.Tactic

/-!
# Bytes and machine words

A machine word written to or read from a byte string, least significant byte
first (`leBytes`, `leValue`) or most significant byte first (`beBytes`,
`beValue`), and the two readings of a word as an integer: `asSigned w` is the
two's complement value of the low `w` bits, `asUnsigned w` the value of the
conversion to an unsigned type of `w` bits.

Word-assembling code shifts and ors; `shift_or` turns that into arithmetic once,
and the rest of the file is arithmetic.
-/

namespace AmlSubtitle
namespace Words

/-- The little-endian value of a byte string. -/
def leValue : List UInt8 → ℕ
  | [] => 0
  | b :: bs => b.toNat + 256 * leValue bs

/-- The `w` low bytes of `n`, least significant first. -/
def leBytes : ℕ → ℕ → List UInt8
  | 0, _ => []
  | w + 1, n => UInt8.ofNat n :: leBytes w (n / 256)

/-- The big-endian value of a byte string. -/
def beValue (bs : List UInt8) : ℕ := bs.foldl (fun v b => v * 256 + b.toNat) 0

/-- The `w` low bytes of `n`, most significant first. -/
def beBytes (w n : ℕ) : List UInt8 := (leBytes w n).reverse

/-- The two's complement reading of the low `w` bits of `n`. -/
def asSigned (w : ℕ) (n : ℤ) : ℤ := Int.bmod n (2 ^ w)

/-- The conversion of `n` to an unsigned type of `w` bits. -/
def asUnsigned (w : ℕ) (n : ℤ) : ℕ := (n % 2 ^ w).toNat

/-! ## Little-endian words -/

@[simp] theorem leValue_nil : leValue [] = 0 := rfl

@[simp] theorem leValue_cons (b : UInt8) (bs : List UInt8) :
    leValue (b :: bs) = b.toNat + 256 * leValue bs := rfl

@[simp] theorem length_leBytes (w n : ℕ) : (leBytes w n).length = w := by
  induction w generalizing n with
  | zero => rfl
  | succ w ih => rw [leBytes, List.length_cons, ih]

/-- **Round trip**, word to bytes to word. -/
theorem leValue_leBytes {w n : ℕ} (h : n < 256 ^ w) : leValue (leBytes w n) = n := by
  induction w generalizing n with
  | zero =>
    have hn : n = 0 := by simpa using h
    rw [hn]
    rfl
  | succ w ih =>
    have hdiv : n / 256 < 256 ^ w := Nat.div_lt_of_lt_mul (by rwa [pow_succ, mul_comm] at h)
    rw [leBytes, leValue_cons, ih hdiv, UInt8.toNat_ofNat']
    omega

/-! ## Big-endian words -/

@[simp] theorem length_beBytes (w n : ℕ) : (beBytes w n).length = w := by
  rw [beBytes, List.length_reverse, length_leBytes]

theorem beValue_append_singleton (bs : List UInt8) (b : UInt8) :
    beValue (bs ++ [b]) = beValue bs * 256 + b.toNat := by
  rw [beValue, List.foldl_append]
  rfl

/-- The two byte orders read reversed strings alike. -/
theorem beValue_reverse (bs : List UInt8) : beValue bs.reverse = leValue bs := by
  induction bs with
  | nil => rfl
  | cons b bs ih =>
    rw [List.reverse_cons, beValue_append_singleton, ih, leValue_cons]
    omega

/-- **Round trip**, word to bytes to word. -/
theorem beValue_beBytes {w n : ℕ} (h : n < 256 ^ w) : beValue (beBytes w n) = n := by
  rw [beBytes, beValue_reverse, leValue_leBytes h]

/-- The value of two strings, one after the other. -/
theorem beValue_append (bs cs : List UInt8) :
    beValue (bs ++ cs) = beValue bs * 256 ^ cs.length + beValue cs := by
  induction cs using List.reverseRecOn with
  | nil => simp [beValue]
  | append_singleton cs c ih =>
    rw [← List.append_assoc, beValue_append_singleton, beValue_append_singleton, ih,
      List.length_append, List.length_singleton, pow_succ]
    ring

/-- The bytes of a word are what its value determines. -/
theorem beBytes_beValue (bs : List UInt8) : beBytes bs.length (beValue bs) = bs := by
  induction bs using List.reverseRecOn with
  | nil => rfl
  | append_singleton bs b ih =>
    have hb : b.toNat < 256 := b.toNat_lt
    have hdiv : (beValue bs * 256 + b.toNat) / 256 = beValue bs := by omega
    rw [beValue_append_singleton, List.length_append, List.length_singleton, beBytes, leBytes,
      List.reverse_cons, hdiv, ← beBytes, ih]
    exact congrArg (fun c => bs ++ [c]) (UInt8.toNat_inj.mp (by simp))

/-- Two words side by side are one word. -/
theorem beBytes_append {v w m n : ℕ} (hm : m < 256 ^ v) (hn : n < 256 ^ w) :
    beBytes v m ++ beBytes w n = beBytes (v + w) (m * 256 ^ w + n) := by
  have hvalue : beValue (beBytes v m ++ beBytes w n) = m * 256 ^ w + n := by
    rw [beValue_append, beValue_beBytes hm, beValue_beBytes hn, length_beBytes]
  have hlength : (beBytes v m ++ beBytes w n).length = v + w := by simp
  rw [← hvalue, ← hlength, beBytes_beValue]

theorem beValue_lt (bs : List UInt8) : beValue bs < 256 ^ bs.length := by
  induction bs using List.reverseRecOn with
  | nil => simp [beValue]
  | append_singleton bs b ih =>
    have hb : b.toNat < 256 := b.toNat_lt
    rw [beValue_append_singleton, List.length_append, List.length_singleton, pow_succ]
    omega

/-- Zeros in front change nothing. -/
theorem beValue_replicate_append (n : ℕ) (bs : List UInt8) :
    beValue (List.replicate n 0 ++ bs) = beValue bs := by
  induction n with
  | zero => rfl
  | succ n ih =>
    rw [List.replicate_succ, List.cons_append, ← ih]
    simp [beValue]

/-- The low bytes of the value of a string are its last bytes, behind zeros. -/
theorem beValue_mod_eq_iff (s bs : List UInt8) :
    beValue bs % 256 ^ s.length = beValue s ↔ s <:+ List.replicate s.length 0 ++ bs := by
  set padded := List.replicate s.length 0 ++ bs with hpadded
  set q := padded.take bs.length with hq
  set t := padded.drop bs.length with ht
  have hsplit : padded = q ++ t := (List.take_append_drop _ _).symm
  have hlength : t.length = s.length := by
    rw [ht, List.length_drop, hpadded, List.length_append, List.length_replicate]
    omega
  have hvalue : beValue bs % 256 ^ s.length = beValue t := by
    rw [← beValue_replicate_append s.length, ← hpadded, hsplit, beValue_append, hlength,
      Nat.mul_add_mod_of_lt]
    rw [← hlength]
    exact beValue_lt t
  rw [hvalue, hsplit]
  constructor
  · intro h
    have hts : t = s := by rw [← beBytes_beValue t, h, hlength, beBytes_beValue]
    exact hts ▸ List.suffix_append q t
  · intro h
    obtain hts | hts := List.suffix_or_suffix_of_suffix h (List.suffix_append q t)
    · rw [hts.eq_of_length hlength.symm]
    · rw [hts.eq_of_length hlength]

/-! ## Shift and or -/

/-- Or-ing a byte into the place a shift has cleared adds it. -/
theorem shift_or (v : ℕ) (b : UInt8) : (v <<< 8) ||| b.toNat = v * 256 + b.toNat := by
  rw [← Nat.shiftLeft_add_eq_or_of_lt (by exact b.toNat_lt), Nat.shiftLeft_eq]

/-- Or-ing a shifted byte onto what fits below the shift adds it. -/
theorem or_shift {a k : ℕ} (h : a < 2 ^ k) (b : ℕ) : a ||| b <<< k = a + b * 2 ^ k := by
  rw [Nat.lor_comm, ← Nat.shiftLeft_add_eq_or_of_lt h, Nat.shiftLeft_eq, Nat.add_comm]

/-- Shifting a byte into a register of `w` bits. -/
theorem toNat_shiftIn {w : ℕ} (v : BitVec w) (b : UInt8) :
    (v <<< 8 ||| b.toBitVec.setWidth w).toNat = (v.toNat * 256 + b.toNat) % 2 ^ w := by
  rw [← shift_or, Nat.or_mod_two_pow, BitVec.toNat_or, BitVec.toNat_shiftLeft,
    BitVec.toNat_setWidth]
  rfl

/-- Shifting a byte into a window of `k + 8` bits that a mask cuts out of a longer
variable. -/
theorem window_shiftIn (k h : ℕ) (b : UInt8) :
    ((h <<< 8) &&& ((2 ^ k - 1) <<< 8)) ||| b.toNat = (h * 256 + b.toNat) % 2 ^ (k + 8) := by
  have hb : b.toNat < 256 := b.toNat_lt
  have hdiv : (h * 256 + b.toNat) / 256 = h := by omega
  rw [← Nat.shiftLeft_and_distrib, Nat.and_two_pow_sub_one_eq_mod, shift_or, Nat.pow_add,
    show 2 ^ 8 = 256 from rfl, Nat.mul_comm (2 ^ k) 256, Nat.mod_mul, hdiv]
  omega

/-! ## Signed and unsigned readings -/

theorem asSigned_eq {w : ℕ} {n : ℤ} (h₁ : -(2 ^ w : ℤ) ≤ 2 * n) (h₂ : 2 * n < 2 ^ w) :
    asSigned w n = n := by
  unfold asSigned
  rw [Int.bmod_eq_of_le_mul_two] <;> push_cast <;> omega

theorem asSigned_of_lt {w n : ℕ} (h : 2 * n < 2 ^ w) : asSigned w n = n := by
  have h' : (2 * n : ℤ) < 2 ^ w := by exact_mod_cast h
  exact asSigned_eq (by omega) h'

/-- Only the low bits are read. -/
theorem asSigned_mod (w n : ℕ) : asSigned w ((n % 2 ^ w : ℕ) : ℤ) = asSigned w n := by
  rw [asSigned, asSigned, Int.natCast_mod, Int.emod_bmod]

/-- A word with its top bit set is negative. -/
theorem asSigned_of_le {w n : ℕ} (h₁ : 2 ^ w ≤ 2 * n) (h₂ : n < 2 ^ w) :
    asSigned w n = n - 2 ^ w := by
  have h₁' : (2 ^ w : ℤ) ≤ 2 * n := by exact_mod_cast h₁
  have h₂' : (n : ℤ) < 2 ^ w := by exact_mod_cast h₂
  have hsub : asSigned w (n - 2 ^ w) = asSigned w n := by
    unfold asSigned
    exact_mod_cast Int.sub_bmod_right n (2 ^ w)
  rw [← hsub, asSigned_eq (by omega) (by omega)]

/-- A natural number is read as itself or as less. -/
theorem asSigned_le (w n : ℕ) : asSigned w n ≤ n := by
  rw [← asSigned_mod]
  have hmod : n % 2 ^ w ≤ n := Nat.mod_le _ _
  have hlt : n % 2 ^ w < 2 ^ w := Nat.mod_lt _ (Nat.two_pow_pos w)
  by_cases hsmall : 2 * (n % 2 ^ w) < 2 ^ w
  · rw [asSigned_of_lt hsmall]
    exact_mod_cast hmod
  · have hpow : (0 : ℤ) < 2 ^ w := by positivity
    rw [asSigned_of_le (not_lt.mp hsmall) hlt]
    omega

theorem le_asSigned (w : ℕ) (n : ℤ) : -(2 ^ w : ℤ) ≤ 2 * asSigned w n := by
  have h := Int.le_bmod (x := n) (m := 2 ^ w) (by positivity)
  unfold asSigned
  push_cast at h
  omega

theorem asSigned_lt (w : ℕ) (n : ℤ) : 2 * asSigned (w + 1) n < 2 ^ (w + 1) := by
  have h := Int.bmod_lt (x := n) (m := 2 ^ (w + 1)) (by positivity)
  unfold asSigned
  rw [pow_succ] at h ⊢
  push_cast at h ⊢
  omega

theorem asUnsigned_lt (w : ℕ) (n : ℤ) : asUnsigned w n < 2 ^ w := by
  have hlt : n % 2 ^ w < 2 ^ w := Int.emod_lt_of_pos _ (by positivity)
  have hnonneg : 0 ≤ n % 2 ^ w := Int.emod_nonneg _ (by positivity)
  unfold asUnsigned
  zify
  omega

theorem asUnsigned_of_nonneg {w : ℕ} {n : ℤ} (h₁ : 0 ≤ n) (h₂ : n < 2 ^ w) :
    (asUnsigned w n : ℤ) = n := by
  unfold asUnsigned
  rw [Int.emod_eq_of_lt h₁ h₂, Int.toNat_of_nonneg h₁]

/-- A negative number wraps around. -/
theorem asUnsigned_of_neg {w : ℕ} {n : ℤ} (h₁ : -(2 ^ w : ℤ) ≤ n) (h₂ : n < 0) :
    (asUnsigned w n : ℤ) = 2 ^ w + n := by
  unfold asUnsigned
  rw [← Int.add_emod_left, Int.emod_eq_of_lt (by omega) (by omega), Int.toNat_of_nonneg (by omega)]

theorem asUnsigned_of_lt {w : ℕ} {n : ℕ} (h : n < 2 ^ w) : asUnsigned w n = n := by
  unfold asUnsigned
  rw [Int.emod_eq_of_lt (by omega) (by exact_mod_cast h), Int.toNat_natCast]

/-- **Round trip**, unsigned word to signed word and back. -/
theorem asUnsigned_asSigned {w n : ℕ} (h : n < 2 ^ w) : asUnsigned w (asSigned w n) = n := by
  have hmod : asSigned w n % 2 ^ w = n % 2 ^ w := by
    unfold asSigned
    exact_mod_cast Int.bmod_emod (x := n) (m := 2 ^ w)
  unfold asUnsigned
  rw [hmod, Int.emod_eq_of_lt (by omega) (by exact_mod_cast h), Int.toNat_natCast]

/-- A word that is not negative reads the same as an unsigned one. -/
theorem asUnsigned_eq_asSigned {w : ℕ} {n : ℤ} (h : 0 ≤ asSigned w n) :
    (asUnsigned w n : ℤ) = asSigned w n := by
  have hmod : asSigned w n % 2 ^ w = n % 2 ^ w := by
    unfold asSigned
    exact_mod_cast Int.bmod_emod (x := n) (m := 2 ^ w)
  have hlt : asSigned w n < 2 ^ w := by
    have hlt := Int.bmod_lt (x := n) (m := 2 ^ w) (by positivity)
    unfold asSigned
    push_cast at hlt
    omega
  rw [← asUnsigned_of_nonneg h hlt, asUnsigned, asUnsigned, hmod]

/-! ## Windows

A signed word lies in `[0, size)` where the number lies in one of the windows of that size
at the multiples of `2 ^ w`.  -/

/-- Whole turns do not change the reading. -/
theorem asSigned_add_mul (w : ℕ) (n m : ℤ) : asSigned w (n + m * 2 ^ w) = asSigned w n := by
  unfold asSigned
  exact_mod_cast Int.add_mul_bmod_self_right n m (2 ^ w)

theorem exists_eq_asSigned_add (w : ℕ) (n : ℤ) : ∃ m : ℤ, n = asSigned w n + m * 2 ^ w := by
  have h := Int.bmod_add_bdiv' n (2 ^ w)
  push_cast at h
  exact ⟨_, h.symm⟩

theorem asSigned_window {w : ℕ} {n size : ℤ} (hsize : 2 * size ≤ 2 ^ w) :
    (0 ≤ asSigned w n ∧ asSigned w n < size) ↔
      ∃ m : ℤ, m * 2 ^ w ≤ n ∧ n < m * 2 ^ w + size := by
  constructor
  · rintro ⟨hzero, hlt⟩
    obtain ⟨m, hm⟩ := exists_eq_asSigned_add w n
    exact ⟨m, by omega, by omega⟩
  · rintro ⟨m, hle, hlt⟩
    have hvalue : asSigned w n = n - m * 2 ^ w := by
      have hturns := asSigned_add_mul w (n - m * 2 ^ w) m
      rw [sub_add_cancel] at hturns
      rw [hturns, asSigned_eq (by omega) (by omega)]
    omega

/-- What goes up by no more than the gap between two windows stays in one window. -/
theorem same_window {f : ℕ → ℤ} {M size : ℤ} (hM : size ≤ M) {n : ℕ}
    (hstep : ∀ k < n, f k ≤ f (k + 1) ∧ f (k + 1) ≤ f k + (M - size))
    (hf : ∀ k ≤ n, ∃ m : ℤ, m * M ≤ f k ∧ f k < m * M + size) :
    ∃ m : ℤ, ∀ k ≤ n, m * M ≤ f k ∧ f k < m * M + size := by
  induction n with
  | zero =>
    obtain ⟨m, hm⟩ := hf 0 le_rfl
    exact ⟨m, fun k hk => Nat.le_zero.mp hk ▸ hm⟩
  | succ n ih =>
    obtain ⟨m, hm⟩ := ih (fun k hk => hstep k (by omega)) fun k hk => hf k (by omega)
    obtain ⟨m', hle, hlt⟩ := hf (n + 1) le_rfl
    obtain ⟨hle', hlt'⟩ := hm n le_rfl
    obtain ⟨hup, hgap⟩ := hstep n (by omega)
    have hpos : 0 < M := lt_of_lt_of_le (by omega) hM
    have hm' : m' = m := by
      have hge : m * M < (m' + 1) * M := by
        rw [add_mul, one_mul]
        omega
      have hle : m' * M < (m + 1) * M := by
        rw [add_mul, one_mul]
        omega
      have hge' := lt_of_mul_lt_mul_right hge hpos.le
      have hle' := lt_of_mul_lt_mul_right hle hpos.le
      omega
    refine ⟨m, fun k hk => ?_⟩
    rcases Nat.lt_or_ge n k with hlast | hbefore
    · obtain rfl : k = n + 1 := by omega
      exact hm' ▸ ⟨hle, hlt⟩
    · exact hm k hbefore

end Words
end AmlSubtitle
