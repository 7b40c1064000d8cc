import Mathlib.Tactic

/-!
# UTF-16

A sequence of 16-bit units read as characters.  A character above the first 65536 takes
two units, a high surrogate and a low one; a surrogate that is not part of such a pair
stands for the replacement character.

* `encodeChar`, `decode`: the two directions, with `decode_encode` for their round trip.
* `utf8`: the bytes of a code point in UTF-8, by shifts and masks, and
  `utf8EncodeChar_ofNat`, by which they are those that the library gives.
-/

namespace AmlSubtitle
namespace Utf16

/-- A high surrogate. -/
def IsHigh (u : ℕ) : Prop := 0xD800 ≤ u ∧ u ≤ 0xDBFF

/-- A low surrogate. -/
def IsLow (u : ℕ) : Prop := 0xDC00 ≤ u ∧ u ≤ 0xDFFF

instance : DecidablePred IsHigh := fun _ => inferInstanceAs (Decidable (_ ∧ _))

instance : DecidablePred IsLow := fun _ => inferInstanceAs (Decidable (_ ∧ _))

/-- The code point of a surrogate pair. -/
def pair (u v : ℕ) : ℕ := (u - 0xD800) * 1024 + (v - 0xDC00) + 0x10000

/-- The replacement character. -/
def replacement : Char := '\uFFFD'

/-- The units of a character. -/
def encodeChar (c : Char) : List ℕ :=
  if c.toNat < 0x10000 then [c.toNat]
  else [0xD800 + (c.toNat - 0x10000) / 1024, 0xDC00 + (c.toNat - 0x10000) % 1024]

/-- The character of a unit that is not part of a pair. -/
def single (u : ℕ) : Char := if IsHigh u ∨ IsLow u then replacement else Char.ofNat u

/-- The characters of a sequence of units. -/
def decode : List ℕ → List Char
  | [] => []
  | [u] => [single u]
  | u :: v :: us =>
    if IsHigh u ∧ IsLow v then Char.ofNat (pair u v) :: decode us else single u :: decode (v :: us)

theorem decode_cons_of_not_isHigh {u : ℕ} (h : ¬ IsHigh u) (us : List ℕ) :
    decode (u :: us) = single u :: decode us := by
  cases us with
  | nil => rw [decode, decode]
  | cons v us => rw [decode, if_neg fun hpair => h hpair.1]

theorem decode_pair {u v : ℕ} (hu : IsHigh u) (hv : IsLow v) (us : List ℕ) :
    decode (u :: v :: us) = Char.ofNat (pair u v) :: decode us := by
  rw [decode, if_pos ⟨hu, hv⟩]

/-! ## Code points -/

theorem toNat_ofNat {n : ℕ} (h : n.isValidChar) : (Char.ofNat n).toNat = n := by
  rw [Char.ofNat, dif_pos h]
  rfl

theorem isValidChar_of_lt {n : ℕ} (hn : n < 0x10000) (hhigh : ¬ IsHigh n) (hlow : ¬ IsLow n) :
    n.isValidChar := by
  simp only [IsHigh, IsLow, Nat.isValidChar] at *
  omega

theorem isValidChar_pair {u v : ℕ} (hu : IsHigh u) (hv : IsLow v) : (pair u v).isValidChar := by
  simp only [IsHigh, IsLow, Nat.isValidChar, pair] at *
  omega

theorem isValidChar_toNat (c : Char) : c.toNat.isValidChar := c.valid

/-- **Round trip**: what is encoded is decoded. -/
theorem decode_encode (cs : List Char) : decode (cs.flatMap encodeChar) = cs := by
  induction cs with
  | nil => rw [List.flatMap_nil, decode]
  | cons c cs ih =>
    have hvalid := isValidChar_toNat c
    rw [List.flatMap_cons, encodeChar]
    split_ifs with hc
    · have hhigh : ¬ IsHigh c.toNat := by
        simp only [IsHigh, Nat.isValidChar] at *
        omega
      have hlow : ¬ IsLow c.toNat := by
        simp only [IsLow, Nat.isValidChar] at *
        omega
      rw [List.singleton_append, decode_cons_of_not_isHigh hhigh, ih, single,
        if_neg (not_or.mpr ⟨hhigh, hlow⟩), Char.ofNat_toNat]
    · have hhigh : IsHigh (0xD800 + (c.toNat - 0x10000) / 1024) := by
        simp only [IsHigh, Nat.isValidChar] at *
        omega
      have hlow : IsLow (0xDC00 + (c.toNat - 0x10000) % 1024) := by
        simp only [IsLow]
        omega
      have hpair : pair (0xD800 + (c.toNat - 0x10000) / 1024)
          (0xDC00 + (c.toNat - 0x10000) % 1024) = c.toNat := by
        rw [pair]
        omega
      rw [List.cons_append, List.singleton_append, decode_pair hhigh hlow, ih, hpair,
        Char.ofNat_toNat]

/-! ## UTF-8 -/

/-- A byte made of the low bits of a number under a mark: `(UTF8)(mark | (n & mask))`. -/
def marked (mark n mask : ℕ) : UInt8 := UInt8.ofNat (mark ||| (n &&& mask))

/-- The bytes of a code point in UTF-8. -/
def utf8 (n : ℕ) : List UInt8 :=
  if n < 0x80 then [UInt8.ofNat n]
  else if n < 0x800 then [marked 0xC0 (n >>> 6) 0x1F, marked 0x80 n 0x3F]
  else if n < 0x10000 then
    [marked 0xE0 (n >>> 12) 0x0F, marked 0x80 (n >>> 6) 0x3F, marked 0x80 n 0x3F]
  else
    [marked 0xF0 (n >>> 18) 0x07, marked 0x80 (n >>> 12) 0x3F, marked 0x80 (n >>> 6) 0x3F,
      marked 0x80 n 0x3F]

/-- A mark above the mask is added. -/
theorem marked_eq {k : ℕ} (m n : ℕ) :
    marked (m * 2 ^ k) n (2 ^ k - 1) = UInt8.ofNat (n % 2 ^ k + m * 2 ^ k) := by
  rw [marked, Nat.and_two_pow_sub_one_eq_mod, Nat.mul_comm,
    ← Nat.two_pow_add_eq_or_of_lt (Nat.mod_lt _ (Nat.two_pow_pos k)), Nat.add_comm]

theorem utf8EncodeChar_ofNat {n : ℕ} (h : n.isValidChar) :
    String.utf8EncodeChar (Char.ofNat n) = utf8 n := by
  have hval : (Char.ofNat n).val.toNat = n := toNat_ofNat h
  have hC0 : ∀ x, marked 0xC0 x 0x1F = UInt8.ofNat (x % 32 + 0xC0) := marked_eq (k := 5) 6
  have hE0 : ∀ x, marked 0xE0 x 0x0F = UInt8.ofNat (x % 16 + 0xE0) := marked_eq (k := 4) 14
  have hF0 : ∀ x, marked 0xF0 x 0x07 = UInt8.ofNat (x % 8 + 0xF0) := marked_eq (k := 3) 30
  have h80 : ∀ x, marked 0x80 x 0x3F = UInt8.ofNat (x % 64 + 0x80) := marked_eq (k := 6) 2
  rw [String.utf8EncodeChar, utf8]
  simp only [hval, hC0, hE0, hF0, h80, Nat.shiftRight_eq_div_pow]
  have hlt : ∀ a, (n ≤ a) = (n < a + 1) := fun a => propext Nat.lt_succ_iff.symm
  simp only [hlt]

/-- The bytes of a text in UTF-8 are below `0xF8`. -/
theorem lt_of_mem_utf8EncodeChar {c : Char} {b : UInt8} (h : b ∈ String.utf8EncodeChar c) :
    b.toNat < 0xF8 := by
  have hbyte : ∀ n < 0xF8, (UInt8.ofNat n).toNat < 0xF8 := fun n hn =>
    lt_of_le_of_lt (Nat.mod_le n _) hn
  rw [String.utf8EncodeChar] at h
  split_ifs at h with h1 h2 h3 <;> simp only [List.mem_cons, List.not_mem_nil, or_false] at h
  · exact h ▸ hbyte _ (by omega)
  · rcases h with rfl | rfl <;> exact hbyte _ (by omega)
  · rcases h with rfl | rfl | rfl <;> exact hbyte _ (by omega)
  · rcases h with rfl | rfl | rfl | rfl <;> exact hbyte _ (by omega)

theorem utf8_length_pos (n : ℕ) : 0 < (utf8 n).length := by
  rw [utf8]
  split_ifs <;> simp

theorem utf8_length_le (n : ℕ) : (utf8 n).length ≤ 4 := by
  rw [utf8]
  split_ifs <;> simp

theorem pair_ge (u v : ℕ) : 0x10000 ≤ pair u v := Nat.le_add_left _ _

theorem utf8_pair (u v : ℕ) :
    utf8 (pair u v) = [marked 0xF0 (pair u v >>> 18) 0x07, marked 0x80 (pair u v >>> 12) 0x3F,
      marked 0x80 (pair u v >>> 6) 0x3F, marked 0x80 (pair u v) 0x3F] := by
  have hge := pair_ge u v
  rw [utf8, if_neg (by omega), if_neg (by omega), if_neg (by omega)]

theorem length_utf8_pair (u v : ℕ) : (utf8 (pair u v)).length = 4 := by
  rw [utf8_pair]
  rfl

theorem marked_injective {m m' : ℕ} (h : marked 0x80 m 0x3F = marked 0x80 m' 0x3F) :
    m % 64 = m' % 64 := by
  have heq : ∀ x, marked 0x80 x 0x3F = UInt8.ofNat (x % 64 + 0x80) := marked_eq (k := 6) 2
  rw [heq, heq] at h
  have hnat := congrArg UInt8.toNat h
  rw [UInt8.toNat_ofNat', UInt8.toNat_ofNat'] at hnat
  omega

/-- The low surrogate of a pair can be read off its bytes. -/
theorem utf8_pair_injective {u v w : ℕ} (hv : IsLow v) (hw : IsLow w)
    (h : utf8 (pair u v) = utf8 (pair u w)) : v = w := by
  rw [utf8_pair, utf8_pair] at h
  simp only [List.cons.injEq, and_true] at h
  have hhigh := marked_injective h.2.2.1
  have hlow := marked_injective h.2.2.2
  rw [Nat.shiftRight_eq_div_pow, Nat.shiftRight_eq_div_pow] at hhigh
  simp only [pair, IsLow] at *
  omega

/-- The bytes of a pair do not begin like those of the replacement character. -/
theorem utf8_pair_append_ne {u v : ℕ} (l l' : List UInt8) :
    utf8 (pair u v) ++ l ≠ utf8 0xFFFD ++ l' := by
  intro h
  have hF0 : ∀ x, marked 0xF0 x 0x07 = UInt8.ofNat (x % 8 + 0xF0) := marked_eq (k := 3) 30
  rw [utf8_pair, show utf8 0xFFFD = [0xEF, 0xBF, 0xBD] by decide, hF0] at h
  have hnat := congrArg UInt8.toNat (List.cons.inj h).1
  rw [UInt8.toNat_ofNat', show (0xEF : UInt8).toNat = 0xEF from rfl] at hnat
  omega

/-- The bytes of a unit that is not part of a pair. -/
theorem utf8EncodeChar_single {u : ℕ} (hu : u < 0x10000) :
    String.utf8EncodeChar (single u) = utf8 (if IsHigh u ∨ IsLow u then 0xFFFD else u) := by
  rw [single]
  split_ifs with h
  · decide
  · exact utf8EncodeChar_ofNat
      (isValidChar_of_lt hu (fun hhigh => h (Or.inl hhigh)) fun hlow => h (Or.inr hlow))

/-! ## The bytes of a sequence of units -/

/-- The characters of some units in UTF-8. -/
def toUtf8 (us : List ℕ) : List UInt8 := (decode us).flatMap String.utf8EncodeChar

theorem toUtf8_cons_of_not_isHigh {u : ℕ} (hu : u < 0x10000) (h : ¬ IsHigh u) (us : List ℕ) :
    toUtf8 (u :: us) = utf8 (if IsLow u then 0xFFFD else u) ++ toUtf8 us := by
  rw [toUtf8, decode_cons_of_not_isHigh h, List.flatMap_cons, utf8EncodeChar_single hu, toUtf8]
  simp only [h, false_or]

theorem toUtf8_pair {u v : ℕ} (hu : IsHigh u) (hv : IsLow v) (us : List ℕ) :
    toUtf8 (u :: v :: us) = utf8 (pair u v) ++ toUtf8 us := by
  rw [toUtf8, decode_pair hu hv, List.flatMap_cons,
    utf8EncodeChar_ofNat (isValidChar_pair hu hv), toUtf8]

/-- A high surrogate with no low one behind it. -/
theorem toUtf8_cons_of_isHigh {u : ℕ} {us : List ℕ} (hu : IsHigh u)
    (h : ∀ v ∈ us.head?, ¬ IsLow v) : toUtf8 (u :: us) = utf8 0xFFFD ++ toUtf8 us := by
  have hsingle : String.utf8EncodeChar (single u) = utf8 0xFFFD := by
    rw [single, if_pos (Or.inl hu)]
    decide
  cases us with
  | nil => rw [toUtf8, decode, List.flatMap_cons, hsingle, toUtf8, decode]
  | cons v us =>
    rw [toUtf8, decode, if_neg fun hpair => h v rfl hpair.2, List.flatMap_cons, hsingle, toUtf8]

/-- Each unit adds to the bytes. -/
theorem length_toUtf8_lt {u : ℕ} {us : List ℕ} (hu : u < 0x10000) (hus : ∀ v ∈ us, v < 0x10000) :
    (toUtf8 us).length < (toUtf8 (u :: us)).length := by
  by_cases hhigh : IsHigh u
  · by_cases hlow : ∃ v ∈ us.head?, IsLow v
    · obtain ⟨v, hv, hlow⟩ := hlow
      obtain ⟨us, rfl⟩ := List.head?_eq_some_iff.mp hv
      have hnot : ¬ IsHigh v := by
        simp only [IsHigh, IsLow] at *
        omega
      rw [toUtf8_pair hhigh hlow, toUtf8_cons_of_not_isHigh (hus v List.mem_cons_self) hnot,
        if_pos hlow, List.length_append, List.length_append,
        length_utf8_pair, show (utf8 0xFFFD).length = 3 by decide]
      omega
    · have hnone : ∀ v ∈ us.head?, ¬ IsLow v := fun v hv hlow' => hlow ⟨v, hv, hlow'⟩
      rw [toUtf8_cons_of_isHigh hhigh hnone, List.length_append]
      exact Nat.lt_add_of_pos_left (utf8_length_pos _)
  · rw [toUtf8_cons_of_not_isHigh hu hhigh, List.length_append]
    exact Nat.lt_add_of_pos_left (utf8_length_pos _)

end Utf16
end AmlSubtitle
