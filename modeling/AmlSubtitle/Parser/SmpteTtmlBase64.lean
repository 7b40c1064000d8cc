import AmlSubtitle.Parser.SmpteTtmlParser

/-!
# Base64 in `parser/SmpteTtmlParser.cpp`

`base64Decode` shifts six bits into a register for every character it is given, a line break or
a `=` like any other.

* `encode`: base64 as it is defined, and `IsBase64` its texts, in which lines may be broken.
* `Register`: what the register and the bytes so far make together.
* `decodes_iff_undisturbed`: the texts that are decoded.
-/

namespace AmlSubtitle
namespace SmpteTtml

open Words

/-! ## The encoding -/

/-- The character of a number below 64. -/
def base64Char (n : ℕ) : UInt8 :=
  if n < 26 then UInt8.ofNat (65 + n)
  else if n < 52 then UInt8.ofNat (97 + (n - 26))
  else if n < 62 then UInt8.ofNat (48 + (n - 52))
  else if n = 62 then 43
  else 47

/-- The base64 text of a string of bytes, on one line. -/
def encode : List UInt8 → Text
  | [] => []
  | [a] => [base64Char (a.toNat / 4), base64Char (a.toNat % 4 * 16), 61, 61]
  | [a, b] =>
    [base64Char (a.toNat / 4), base64Char (a.toNat % 4 * 16 + b.toNat / 16),
      base64Char (b.toNat % 16 * 4), 61]
  | a :: b :: c :: bytes =>
    base64Char (a.toNat / 4) :: base64Char (a.toNat % 4 * 16 + b.toNat / 16) ::
      base64Char (b.toNat % 16 * 4 + c.toNat / 64) :: base64Char (c.toNat % 64) :: encode bytes

def isBreak (c : UInt8) : Bool := c = 10 || c = 13

/-- A base64 text of a string of bytes, with line breaks anywhere. -/
def IsBase64 (bytes : List UInt8) (t : Text) : Prop := t.filter (fun c => !isBreak c) = encode bytes

instance (bytes : List UInt8) (t : Text) : Decidable (IsBase64 bytes t) :=
  inferInstanceAs (Decidable (_ = _))

theorem base64Digit_char : ∀ n < 64, base64Digit (base64Char n) = n := by decide +kernel

theorem base64Char_injective {n : ℕ} (h : n < 64) : base64Char n = 65 ↔ n = 0 := by
  revert n
  decide +kernel

theorem base64Digit_lt (c : UInt8) : base64Digit c < 64 := by
  rw [base64Digit]
  have h := c.toNat_lt
  simp only [UInt8.le_iff_toNat_le]
  split_ifs <;> simp_all <;> omega

/-! ## Six bits a character -/

/-- The number that the characters of a text make. -/
def sextets (t : Text) : ℕ := t.foldl (fun n c => n * 64 + base64Digit c) 0

theorem sextets_append_singleton (t : Text) (c : UInt8) :
    sextets (t ++ [c]) = sextets t * 64 + base64Digit c := by
  rw [sextets, List.foldl_append]
  rfl

theorem sextets_append (s t : Text) : sextets (s ++ t) = sextets s * 64 ^ t.length + sextets t := by
  induction t using List.reverseRecOn with
  | nil => simp [sextets]
  | append_singleton t c ih =>
    rw [← List.append_assoc, sextets_append_singleton, sextets_append_singleton, ih,
      List.length_append, List.length_singleton, pow_succ]
    ring

theorem sextets_cons (c : UInt8) (t : Text) :
    sextets (c :: t) = base64Digit c * 64 ^ t.length + sextets t := by
  rw [← List.singleton_append, sextets_append]
  simp [sextets]

/-- The number is zero when every character is. -/
theorem sextets_eq_zero_iff (t : Text) : sextets t = 0 ↔ ∀ c ∈ t, base64Digit c = 0 := by
  induction t with
  | nil => exact iff_of_true rfl fun c hc => nomatch hc
  | cons c t ih =>
    have hpow : 64 ^ t.length ≠ 0 := by positivity
    rw [sextets_cons, Nat.add_eq_zero_iff, Nat.mul_eq_zero, or_iff_left hpow, ih,
      List.forall_mem_cons]

/-! ## Whole groups -/

theorem length_encode (bytes : List UInt8) :
    (encode bytes).length = (bytes.length + 2) / 3 * 4 := by
  fun_induction encode bytes with
  | case1 => rfl
  | case2 a => simp
  | case3 a b => simp
  | case4 a b c bytes ih =>
    simp only [List.length_cons, ih]
    omega

/-- A text without `=` has characters of the alphabet only. -/
theorem exists_char_of_mem_encode {bytes : List UInt8} (h : 3 ∣ bytes.length) {c : UInt8}
    (hc : c ∈ encode bytes) : ∃ n < 64, c = base64Char n := by
  fun_induction encode bytes with
  | case1 => exact absurd hc List.not_mem_nil
  | case2 a => exact absurd h (by decide : ¬ 3 ∣ 1)
  | case3 a b => exact absurd h (by decide : ¬ 3 ∣ 2)
  | case4 a b c' bytes ih =>
    have ha := a.toNat_lt
    have hb := b.toNat_lt
    have hc' := c'.toNat_lt
    have hrest : 3 ∣ bytes.length := by
      rw [List.length_cons, List.length_cons, List.length_cons] at h
      omega
    rcases List.mem_cons.mp hc with rfl | hc
    · exact ⟨_, by omega, rfl⟩
    rcases List.mem_cons.mp hc with rfl | hc
    · exact ⟨_, by omega, rfl⟩
    rcases List.mem_cons.mp hc with rfl | hc
    · exact ⟨_, by omega, rfl⟩
    rcases List.mem_cons.mp hc with rfl | hc
    · exact ⟨_, by omega, rfl⟩
    exact ih hrest hc

theorem beValue_cons (b : UInt8) (bytes : List UInt8) :
    beValue (b :: bytes) = b.toNat * 256 ^ bytes.length + beValue bytes := by
  rw [← List.singleton_append, beValue_append]
  simp [beValue]

/-- Four characters hold three bytes. -/
theorem sextets_encode {bytes : List UInt8} (h : 3 ∣ bytes.length) :
    sextets (encode bytes) = beValue bytes := by
  fun_induction encode bytes with
  | case1 => rfl
  | case2 a => exact absurd h (by decide : ¬ 3 ∣ 1)
  | case3 a b => exact absurd h (by decide : ¬ 3 ∣ 2)
  | case4 a b c bytes ih =>
    have ha := a.toNat_lt
    have hb := b.toNat_lt
    have hc := c.toNat_lt
    have hrest : 3 ∣ bytes.length := by
      rw [List.length_cons, List.length_cons, List.length_cons] at h
      omega
    obtain ⟨m, hm⟩ := hrest
    have hlength : (encode bytes).length = 4 * m := by
      rw [length_encode, hm]
      omega
    have hpow : 64 ^ (4 * m) = 256 ^ (3 * m) := by
      rw [pow_mul, pow_mul]
      rfl
    simp only [sextets_cons, beValue_cons, List.length_cons, hlength, hm, pow_succ, hpow]
    rw [base64Digit_char _ (by omega), base64Digit_char _ (by omega),
      base64Digit_char _ (by omega), base64Digit_char _ (by omega), ih ⟨m, hm⟩]
    generalize 256 ^ (3 * m) = p
    have hgroup : a.toNat / 4 * 64 ^ 3 + (a.toNat % 4 * 16 + b.toNat / 16) * 64 ^ 2 +
        (b.toNat % 16 * 4 + c.toNat / 64) * 64 + c.toNat % 64 =
          a.toNat * 256 ^ 2 + b.toNat * 256 + c.toNat := by omega
    linear_combination p * hgroup

/-! ## The register -/

/-- The bytes so far and the bits that are left in the register make the number of the text. -/
structure Register (t : Text) (decodedData : Text) (val bits : ℕ) : Prop where
  even : 2 ∣ bits
  lt : bits < 8
  length : 8 * decodedData.length + bits = 6 * t.length
  value : beValue decodedData * 2 ^ bits + val % 2 ^ bits = sextets t

/-- One character. -/
def shiftIn (s : Text × ℕ × ℕ) (c : UInt8) : Text × ℕ × ℕ :=
  let val := (s.2.1 * 64 + base64Digit c) % 2 ^ 32
  if s.2.2 + 6 ≥ 8 then
    (s.1 ++ [(val / 2 ^ (s.2.2 + 6 - 8)).toUInt8], val, s.2.2 + 6 - 8)
  else (s.1, val, s.2.2 + 6)

theorem toNat_toUInt8 (n : ℕ) : n.toUInt8.toNat = n % 256 := UInt8.toNat_ofNat'

theorem Register.shiftIn {t : Text} {s : Text × ℕ × ℕ} (h : Register t s.1 s.2.1 s.2.2)
    (c : UInt8) : Register (t ++ [c]) (shiftIn s c).1 (shiftIn s c).2.1 (shiftIn s c).2.2 := by
  obtain ⟨heven, hlt, hlength, hvalue⟩ := h
  obtain ⟨decodedData, val, bits⟩ := s
  have hdigit := base64Digit_lt c
  dsimp only at heven hlt hlength hvalue
  have hcases : bits = 0 ∨ bits = 2 ∨ bits = 4 ∨ bits = 6 := by omega
  rw [SmpteTtml.shiftIn]
  dsimp only
  split_ifs with hbyte
  all_goals dsimp only
  · refine ⟨by omega, by omega, ?_, ?_⟩
    · simp only [List.length_append, List.length_singleton]
      omega
    · simp only [beValue_append_singleton, sextets_append_singleton, toNat_toUInt8]
      rcases hcases with rfl | rfl | rfl | rfl
      all_goals omega
  · refine ⟨by omega, by omega, ?_, ?_⟩
    · simp only [List.length_append, List.length_singleton]
      omega
    · simp only [sextets_append_singleton]
      rcases hcases with rfl | rfl | rfl | rfl
      all_goals omega

/-- **The bytes** are the number of the text without the bits that are left over. -/
theorem register_base64Decode (t : Text) :
    ∃ val bits, Register t (base64Decode t) val bits := by
  have hall : ∀ t : Text, Register t (t.foldl shiftIn ([], 0, 0)).1
      (t.foldl shiftIn ([], 0, 0)).2.1 (t.foldl shiftIn ([], 0, 0)).2.2 := by
    intro t
    induction t using List.reverseRecOn with
    | nil => exact ⟨by decide, by decide, rfl, rfl⟩
    | append_singleton t c ih =>
      rw [List.foldl_append]
      exact ih.shiftIn c
  exact ⟨_, _, hall t⟩

theorem length_base64Decode (t : Text) : (base64Decode t).length = 6 * t.length / 8 := by
  obtain ⟨val, bits, h⟩ := register_base64Decode t
  have hlength := h.length
  have hlt := h.lt
  omega

theorem beValue_base64Decode (t : Text) :
    beValue (base64Decode t) = sextets t / 2 ^ (6 * t.length % 8) := by
  obtain ⟨val, bits, h⟩ := register_base64Decode t
  have hlength := h.length
  have hlt := h.lt
  have hbits : 6 * t.length % 8 = bits := by omega
  rw [hbits, ← h.value, Nat.mul_comm, Nat.mul_add_div (Nat.two_pow_pos bits),
    Nat.div_eq_of_lt (Nat.mod_lt _ (Nat.two_pow_pos bits)), Nat.add_zero]

/-- Strings of one length are told by their numbers. -/
theorem eq_iff_beValue {s bytes : List UInt8} :
    s = bytes ↔ s.length = bytes.length ∧ beValue s = beValue bytes := by
  refine ⟨fun h => h ▸ ⟨rfl, rfl⟩, fun ⟨hlength, hvalue⟩ => ?_⟩
  rw [← beBytes_beValue s, ← beBytes_beValue bytes, hlength, hvalue]

/-! ## The texts that are decoded -/

/-- Behind a line break the text has only the letter that stands for zero. -/
def Undisturbed (t : Text) : Prop := ∀ x c y, t = x ++ c :: y → isBreak c = true → ∀ c ∈ y, c = 65

section Breaks

variable {bytes : List UInt8}

theorem base64Digit_break {c : UInt8} (h : isBreak c = true) : base64Digit c = 0 := by
  rw [isBreak, Bool.or_eq_true, decide_eq_true_iff, decide_eq_true_iff] at h
  rcases h with rfl | rfl <;> rfl

/-- Of the characters of an encoding only the letter `A` stands for zero. -/
theorem digit_eq_zero_iff {c : UInt8} (h : ∃ n < 64, c = base64Char n) :
    base64Digit c = 0 ↔ c = 65 := by
  obtain ⟨n, hn, rfl⟩ := h
  rw [base64Digit_char n hn, base64Char_injective hn]

/-- On one line. -/
theorem base64Decode_encode (h : 3 ∣ bytes.length) : base64Decode (encode bytes) = bytes := by
  have hlength := length_encode bytes
  have hbits : 6 * (encode bytes).length % 8 = 0 := by omega
  rw [eq_iff_beValue, length_base64Decode, beValue_base64Decode, hbits, pow_zero, Nat.div_one,
    sextets_encode h]
  exact ⟨by omega, rfl⟩

/-- With one break, the bits behind it come six places late. -/
theorem base64Decode_break (h : 3 ∣ bytes.length) {x y : Text} (hxy : encode bytes = x ++ y)
    {c : UInt8} (hc : isBreak c = true) :
    base64Decode (x ++ c :: y) = bytes ↔ ∀ c ∈ y, c = 65 := by
  have hlength := length_encode bytes
  rw [hxy, List.length_append] at hlength
  have htotal : (x ++ c :: y).length = x.length + y.length + 1 := by
    rw [List.length_append, List.length_cons]
    rfl
  have hbits : 6 * (x ++ c :: y).length % 8 = 6 := by omega
  have hvalue : sextets (x ++ c :: y) / 2 ^ 6 =
      sextets x * 64 ^ y.length + sextets y / 64 := by
    rw [sextets_append, sextets_cons, base64Digit_break hc, Nat.zero_mul, Nat.zero_add,
      List.length_cons, pow_succ, ← Nat.mul_assoc]
    omega
  have hletters : ∀ c ∈ y, (base64Digit c = 0 ↔ c = 65) := fun c hc =>
    digit_eq_zero_iff (exists_char_of_mem_encode h (hxy ▸ List.mem_append_right x hc))
  rw [eq_iff_beValue, length_base64Decode, beValue_base64Decode, hbits, hvalue,
    ← sextets_encode h, hxy, sextets_append, and_iff_right (by omega)]
  calc sextets x * 64 ^ y.length + sextets y / 64 = sextets x * 64 ^ y.length + sextets y
      ↔ sextets y = 0 := by omega
    _ ↔ ∀ c ∈ y, base64Digit c = 0 := sextets_eq_zero_iff y
    _ ↔ ∀ c ∈ y, c = 65 := forall₂_congr hletters

end Breaks

theorem filter_break {x y : Text} {c : UInt8} (hc : isBreak c = true)
    (hx : ∀ c ∈ x, isBreak c = false) (hy : ∀ c ∈ y, isBreak c = false) :
    (x ++ c :: y).filter (fun c => !isBreak c) = x ++ y := by
  have hkeep : ∀ {s : Text}, (∀ c ∈ s, isBreak c = false) →
      s.filter (fun c => !isBreak c) = s := fun hs =>
    List.filter_eq_self.mpr fun c hc => by rw [hs c hc]; rfl
  have hdrop : ¬ (!isBreak c) = true := by
    rw [hc]
    decide
  rw [List.filter_append, List.filter_cons, if_neg hdrop, hkeep hx, hkeep hy]

/-- Behind the first break there is no other one. -/
theorem Undisturbed.split {x y : Text} {c : UInt8} (h : Undisturbed (x ++ c :: y))
    (hc : isBreak c = true) :
    (∀ c ∈ x, isBreak c = false) ∧ ∀ c ∈ y, isBreak c = false := by
  constructor
  · intro c' hc'
    by_contra hbreak
    rw [Bool.not_eq_false] at hbreak
    obtain ⟨x₁, x₂, rfl⟩ := List.append_of_mem hc'
    have hletter := h x₁ c' (x₂ ++ c :: y) (by simp) hbreak c (by simp)
    rw [hletter] at hc
    exact absurd hc (by decide)
  · intro c' hc'
    rw [h x c y rfl hc c' hc']
    rfl

/-- **The texts that are decoded**: there is no padding, and what stands behind a line break does
not move the bits. -/
theorem decodes_iff_undisturbed {bytes : List UInt8} {t : Text} (h : IsBase64 bytes t) :
    base64Decode t = bytes ↔ 3 ∣ bytes.length ∧ Undisturbed t := by
  constructor
  · intro hdecode
    have hcount := t.length_eq_length_filter_add isBreak
    have hlength := congrArg List.length hdecode
    rw [h, length_encode] at hcount
    rw [length_base64Decode] at hlength
    have hgroups : (bytes.length + 2) / 3 * 3 = bytes.length := by omega
    have hthree : 3 ∣ bytes.length := ⟨(bytes.length + 2) / 3, by omega⟩
    refine ⟨hthree, fun x c y ht hc => ?_⟩
    -- more than one break would make the bytes too many
    have hbreaks : (t.filter isBreak).length ≤ 1 := by omega
    rw [ht, List.filter_append, List.filter_cons_of_pos hc, List.length_append,
      List.length_cons] at hbreaks
    have hx : ∀ c ∈ x, isBreak c = false := by
      have hnil : x.filter isBreak = [] := List.eq_nil_of_length_eq_zero (by omega)
      simpa [List.filter_eq_nil_iff] using hnil
    have hy : ∀ c ∈ y, isBreak c = false := by
      have hnil : y.filter isBreak = [] := List.eq_nil_of_length_eq_zero (by omega)
      simpa [List.filter_eq_nil_iff] using hnil
    have hxy : encode bytes = x ++ y := by rw [← h, ht, filter_break hc hx hy]
    rw [ht] at hdecode
    exact (base64Decode_break hthree hxy hc).mp hdecode
  · rintro ⟨hthree, hundisturbed⟩
    by_cases hbreak : ∃ c ∈ t, isBreak c = true
    · obtain ⟨c, hmem, hc⟩ := hbreak
      obtain ⟨x, y, rfl⟩ := List.append_of_mem hmem
      obtain ⟨hx, hy⟩ := hundisturbed.split hc
      have hxy : encode bytes = x ++ y := by rw [← h, filter_break hc hx hy]
      exact (base64Decode_break hthree hxy hc).mpr (hundisturbed x c y rfl hc)
    · have hline : t = encode bytes := by
        rw [← h, eq_comm, List.filter_eq_self]
        intro c hc
        rw [Bool.not_eq_true', ← Bool.not_eq_true]
        exact fun hbreak' => hbreak ⟨c, hc, hbreak'⟩
      rw [hline, base64Decode_encode hthree]

/-- `TWFu`: a group of three bytes. -/
theorem base64Decode_oneGroup : base64Decode [84, 87, 70, 117] = [77, 97, 110] :=
  (decodes_iff_undisturbed (by decide)).mpr ⟨by decide, fun x c y ht hc => by
    have hmem : c ∈ ([84, 87, 70, 117] : Text) := ht ▸ List.mem_append_right x List.mem_cons_self
    simp only [List.mem_cons, List.not_mem_nil, or_false] at hmem
    rcases hmem with rfl | rfl | rfl | rfl <;> exact absurd hc (by decide)⟩

/-- `TQ==` is one byte, and is decoded as three. -/
theorem not_decodes_padding : ¬ ∀ (bytes : List UInt8) (t : Text), IsBase64 bytes t →
    base64Decode t = bytes := by
  intro h
  exact absurd (h [77] [84, 81, 61, 61] (by decide)) (by decide)

end SmpteTtml
end AmlSubtitle
