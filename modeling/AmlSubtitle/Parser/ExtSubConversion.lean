import AmlSubtitle.Lib.Utf16

/-!
# `parser/ExtParser/ExtSubStreamReader.cpp`: from UTF-16 to UTF-8

`doConvertToUtf8` reads 16-bit units as the processor does, least significant byte
first, and turns them round for the other byte order.  With a buffer it writes the
bytes; without one it counts them.

* `IsPaired` is the condition under which it writes what it should: each high surrogate
  has its low one behind it, which for the other byte order reads the same either way.
* `convertsTo_iff` is the statement about all input.
-/

namespace AmlSubtitle
namespace ExtSubStreamReader

open Utf16

/-- The values of `mEncoding`. -/
inductive Encoding where
  | AML_ENCODING_NONE
  | AML_ENCODING_UTF8
  | AML_ENCODING_UTF16
  | AML_ENCODING_UTF16BE
  | AML_ENCODING_UTF32
  | AML_ENCODING_UTF32BE
  deriving DecidableEq, Repr

/-! ## The two loops -/

/-- A unit of the input as the loop that writes takes it. -/
def unit (charset : Encoding) (u : UInt16) : ℕ :=
  if charset = .AML_ENCODING_UTF16BE then ((u.toNat <<< 8) &&& 0xFF00) ||| (u.toNat >>> 8)
  else u.toNat

/-- Some bytes are written, if there is room, and then the rest. -/
def put (bytes : List UInt8) (outMax : ℤ) (rest : ℤ → Option (List UInt8)) :
    Option (List UInt8) :=
  if outMax - bytes.length < 0 then none
  else (rest (outMax - bytes.length)).map (bytes ++ ·)

/-- `Encode3`: the three bytes of a unit. -/
def encode3 (ch : ℕ) : List UInt8 :=
  [marked 0xE0 (ch >>> 12) 0x0F, marked 0x80 (ch >>> 6) 0x3F, marked 0x80 ch 0x3F]

/-- The four bytes of two units. -/
def encode4 (ch ch2 : ℕ) : List UInt8 :=
  let ucs4 := ((ch - 0xD800) <<< 10) + (ch2 - 0xDC00) + 0x10000
  [marked 0xF0 (ucs4 >>> 18) 0x07, marked 0x80 (ucs4 >>> 12) 0x3F, marked 0x80 (ucs4 >>> 6) 0x3F,
    marked 0x80 ucs4 0x3F]

/-- `doConvertToUtf8` with a buffer: what is written, or `none` where it returns -1.  The
second unit of a pair is not turned round. -/
def encodeUnits (charset : Encoding) : List UInt16 → ℤ → Option (List UInt8)
  | [], _ => some []
  | u :: input, outMax =>
    let ch := unit charset u
    if ch < 0x80 then put [UInt8.ofNat ch] outMax (encodeUnits charset input)
    else if ch < 0x800 then
      put [marked 0xC0 (ch >>> 6) 0x1F, marked 0x80 ch 0x3F] outMax (encodeUnits charset input)
    else if ch ≥ 0xD800 ∧ ch ≤ 0xDBFF then
      match input with
      | [] => none
      | ch2 :: input =>
        if ch2.toNat < 0xDC00 ∨ ch2.toNat > 0xDFFF then
          put (encode3 0xFFFD) outMax (encodeUnits charset input)
        else put (encode4 ch ch2.toNat) outMax (encodeUnits charset input)
    else
      put (encode3 (if ch ≥ 0xDC00 ∧ ch ≤ 0xDFFF then 0xFFFD else ch)) outMax
        (encodeUnits charset input)

/-- `doConvertToUtf8` without a buffer: the count, or `none` where it returns -1.  No
unit is turned round. -/
def countUnits : List UInt16 → Option ℕ
  | [] => some 0
  | u :: input =>
    let ch := u.toNat
    if ch < 0x80 then (countUnits input).map (1 + ·)
    else if ch < 0x800 then (countUnits input).map (2 + ·)
    else if ch ≥ 0xD800 ∧ ch ≤ 0xDBFF then
      match input with
      | [] => none
      | ch2 :: input =>
        if ch2.toNat < 0xDC00 ∨ ch2.toNat > 0xDFFF then (countUnits input).map (3 + ·)
        else (countUnits input).map (4 + ·)
    else (countUnits input).map (3 + ·)

/-- The call that `convertToUtf8` makes: the buffer has two bytes for each of the
input. -/
def doConvertToUtf8 (charset : Encoding) (input : List UInt16) : Option (List UInt8) :=
  encodeUnits charset input (4 * input.length)

/-! ## What is asked of it -/

/-- The units of the text. -/
def units (charset : Encoding) (input : List UInt16) : List ℕ := input.map (unit charset)

/-- What is written for a text are the bytes of its characters, each unpaired surrogate
read as the replacement character and nothing else changed by it, and the count is
right. -/
structure ConvertsTo (charset : Encoding) (input : List UInt16) : Prop where
  wellFormed : ∀ cs : List Char, units charset input = cs.flatMap encodeChar →
    doConvertToUtf8 charset input = some (cs.flatMap String.utf8EncodeChar)
  unpaired : doConvertToUtf8 charset input =
    some ((decode (units charset input)).flatMap String.utf8EncodeChar)
  count : countUnits input = (doConvertToUtf8 charset input).map List.length

/-- Each high surrogate has a low one behind it, and that is the same in either byte
order where the units are turned round. -/
def IsPaired (charset : Encoding) : List UInt16 → Prop
  | [] => True
  | u :: input =>
    (IsHigh (unit charset u) →
      ∃ v ∈ input.head?, IsLow (unit charset v) ∧ unit charset v = v.toNat) ∧
    IsPaired charset input

/-- The bytes that some units need in UTF-8, where a high surrogate takes the unit behind
it along. -/
def utf8Size : List ℕ → Option ℕ
  | [] => some 0
  | [u] => if IsHigh u then none else some (utf8 u).length
  | u :: v :: us =>
    if IsHigh u then (utf8Size us).map ((if IsLow v then 4 else 3) + ·)
    else (utf8Size (v :: us)).map ((utf8 u).length + ·)

/-! ## One unit -/

section Units

variable {charset : Encoding} {u v : UInt16} {input : List UInt16} {outMax : ℤ}

theorem unit_lt (charset : Encoding) (u : UInt16) : unit charset u < 0x10000 := by
  have hu : u.toNat < 0x10000 := u.toNat_lt
  rw [unit]
  split_ifs
  · refine Nat.or_lt_two_pow (n := 16) (lt_of_le_of_lt Nat.and_le_right (by norm_num)) ?_
    exact lt_of_le_of_lt (Nat.shiftRight_le _ _) hu
  · exact hu

theorem units_cons (charset : Encoding) (u : UInt16) (input : List UInt16) :
    units charset (u :: input) = unit charset u :: units charset input := rfl

theorem units_lt : ∀ x ∈ units charset input, x < 0x10000 := by
  intro x hx
  obtain ⟨u, -, rfl⟩ := List.mem_map.mp hx
  exact unit_lt charset u

theorem encode3_eq {ch : ℕ} (h : 0x800 ≤ ch) (h' : ch < 0x10000) : encode3 ch = utf8 ch := by
  rw [utf8, if_neg (by omega), if_neg (by omega), if_pos h', encode3]

theorem encode4_eq (ch ch2 : ℕ) : encode4 ch ch2 = utf8 (pair ch ch2) := by
  rw [utf8_pair, encode4, pair, Nat.shiftLeft_eq]

/-- A unit that begins no pair. -/
theorem encodeUnits_cons_of_not_isHigh (h : ¬ IsHigh (unit charset u)) :
    encodeUnits charset (u :: input) outMax =
      put (utf8 (if IsLow (unit charset u) then 0xFFFD else unit charset u)) outMax
        (encodeUnits charset input) := by
  have hlt := unit_lt charset u
  rw [encodeUnits.eq_def]
  dsimp only
  generalize unit charset u = ch at h hlt
  have hhigh : ¬ (ch ≥ 0xD800 ∧ ch ≤ 0xDBFF) := h
  by_cases h1 : ch < 0x80
  · have hlow : ¬ IsLow ch := by
      rw [IsLow]
      omega
    rw [if_pos h1, if_neg hlow, utf8, if_pos h1]
  by_cases h2 : ch < 0x800
  · have hlow : ¬ IsLow ch := by
      rw [IsLow]
      omega
    rw [if_neg h1, if_pos h2, if_neg hlow, utf8, if_neg h1, if_pos h2]
  · rw [if_neg h1, if_neg h2, if_neg hhigh, encode3_eq (by split_ifs <;> omega)
      (by split_ifs <;> omega)]
    rfl

/-- A high surrogate at the end of the input. -/
theorem encodeUnits_singleton (h : IsHigh (unit charset u)) :
    encodeUnits charset [u] outMax = none := by
  rw [encodeUnits.eq_def]
  dsimp only
  rw [IsHigh] at h
  rw [if_neg (by omega), if_neg (by omega), if_pos h]

/-- A high surrogate takes the unit behind it along, whatever it is. -/
theorem encodeUnits_cons_of_isHigh (h : IsHigh (unit charset u)) :
    encodeUnits charset (u :: v :: input) outMax =
      put (utf8 (if IsLow v.toNat then pair (unit charset u) v.toNat else 0xFFFD)) outMax
        (encodeUnits charset input) := by
  rw [encodeUnits.eq_def]
  dsimp only
  have hhigh := h
  rw [IsHigh] at h
  rw [if_neg (by omega), if_neg (by omega), if_pos h]
  by_cases hlow : IsLow v.toNat
  · rw [if_neg (by rw [IsLow] at hlow; omega), if_pos hlow, encode4_eq]
  · rw [if_pos (by rw [IsLow] at hlow; omega), if_neg hlow, encode3_eq (by norm_num) (by norm_num)]

theorem put_eq {bytes : List UInt8} {rest : ℤ → Option (List UInt8)}
    (h : (bytes.length : ℤ) ≤ outMax) :
    put bytes outMax rest = (rest (outMax - bytes.length)).map (bytes ++ ·) := by
  rw [put, if_neg (by omega)]

theorem put_eq_some {bytes out : List UInt8} {rest : ℤ → Option (List UInt8)}
    (h : put bytes outMax rest = some out) :
    ∃ out', rest (outMax - bytes.length) = some out' ∧ out = bytes ++ out' := by
  rw [put] at h
  split_ifs at h
  obtain ⟨out', hout', rfl⟩ := Option.map_eq_some_iff.mp h
  exact ⟨out', hout', rfl⟩

/-! ## What is written -/

/-- With room for four bytes a unit, paired surrogates are written as they should be. -/
theorem encodeUnits_of_isPaired (h : IsPaired charset input)
    (hroom : (4 * input.length : ℤ) ≤ outMax) :
    encodeUnits charset input outMax = some (toUtf8 (units charset input)) := by
  induction hn : input.length using Nat.strong_induction_on generalizing input outMax with
  | _ n ih =>
  cases input with
  | nil => rfl
  | cons u input =>
    obtain ⟨hpair, hrest⟩ := h
    rw [List.length_cons] at hroom
    push_cast at hroom
    by_cases hhigh : IsHigh (unit charset u)
    · obtain ⟨v, hv, hlow, hsame⟩ := hpair hhigh
      obtain ⟨input, rfl⟩ := List.head?_eq_some_iff.mp hv
      rw [hsame] at hlow
      have hle := utf8_length_le (pair (unit charset u) v.toNat)
      rw [List.length_cons] at hroom
      push_cast at hroom
      rw [encodeUnits_cons_of_isHigh hhigh, if_pos hlow, put_eq (by omega),
        ih _ (by rw [← hn, List.length_cons, List.length_cons]; omega) hrest.2 (by omega) rfl,
        units_cons, units_cons, hsame, toUtf8_pair hhigh hlow]
      rfl
    · have hle := utf8_length_le (if IsLow (unit charset u) then 0xFFFD else unit charset u)
      rw [encodeUnits_cons_of_not_isHigh hhigh, put_eq (by omega),
        ih _ (by rw [← hn, List.length_cons]; omega) hrest (by omega) rfl, units_cons,
        toUtf8_cons_of_not_isHigh (unit_lt charset u) hhigh]
      rfl

/-- No more is written than there should be. -/
theorem length_le_of_encodeUnits {out : List UInt8}
    (h : encodeUnits charset input outMax = some out) :
    out.length ≤ (toUtf8 (units charset input)).length := by
  induction hn : input.length using Nat.strong_induction_on generalizing input outMax out with
  | _ n ih =>
  cases input with
  | nil =>
    rw [encodeUnits, Option.some_inj] at h
    rw [← h]
    exact Nat.zero_le _
  | cons u input =>
    by_cases hhigh : IsHigh (unit charset u)
    · cases input with
      | nil =>
        rw [encodeUnits_singleton hhigh] at h
        cases h
      | cons v input =>
        rw [encodeUnits_cons_of_isHigh hhigh] at h
        obtain ⟨out', hout', rfl⟩ := put_eq_some h
        have hlen := ih _ (by rw [← hn, List.length_cons, List.length_cons]; omega) hout' rfl
        have hhead : (utf8 (if IsLow v.toNat then pair (unit charset u) v.toNat else
            0xFFFD)).length ≤ 4 := utf8_length_le _
        rw [units_cons, units_cons, List.length_append]
        by_cases hlow : IsLow (unit charset v)
        · rw [toUtf8_pair hhigh hlow, List.length_append, length_utf8_pair]
          omega
        · have hlt : (toUtf8 (units charset input)).length <
              (toUtf8 (unit charset v :: units charset input)).length :=
            length_toUtf8_lt (unit_lt charset v) units_lt
          rw [toUtf8_cons_of_isHigh hhigh (by rintro _ ⟨⟩; exact hlow), List.length_append,
            show (utf8 0xFFFD).length = 3 by decide]
          omega
    · rw [encodeUnits_cons_of_not_isHigh hhigh] at h
      obtain ⟨out', hout', rfl⟩ := put_eq_some h
      have hlen := ih _ (by rw [← hn, List.length_cons]; omega) hout' rfl
      rw [units_cons, toUtf8_cons_of_not_isHigh (unit_lt charset u) hhigh, List.length_append,
        List.length_append]
      omega

/-- **Only paired surrogates are written as they should be.** -/
theorem isPaired_of_encodeUnits
    (h : encodeUnits charset input outMax = some (toUtf8 (units charset input))) :
    IsPaired charset input := by
  induction hn : input.length using Nat.strong_induction_on generalizing input outMax with
  | _ n ih =>
  cases input with
  | nil => trivial
  | cons u input =>
    by_cases hhigh : IsHigh (unit charset u)
    · cases input with
      | nil =>
        rw [encodeUnits_singleton hhigh] at h
        cases h
      | cons v input =>
        rw [encodeUnits_cons_of_isHigh hhigh] at h
        obtain ⟨out', hout', heq⟩ := put_eq_some h
        rw [units_cons, units_cons] at heq
        by_cases hlow : IsLow (unit charset v)
        · rw [toUtf8_pair hhigh hlow] at heq
          by_cases hraw : IsLow v.toNat
          · rw [if_pos hraw] at heq
            have hlen : (utf8 (pair (unit charset u) (unit charset v))).length =
                (utf8 (pair (unit charset u) v.toNat)).length := by
              rw [length_utf8_pair, length_utf8_pair]
            obtain ⟨hbytes, hrest⟩ := List.append_inj heq hlen
            have hsame := utf8_pair_injective hlow hraw hbytes
            have hnot : ¬ IsHigh (unit charset v) := by
              rw [IsHigh]
              rw [IsLow] at hlow
              omega
            refine ⟨fun _ => ⟨v, rfl, hlow, hsame⟩, fun hv => absurd hv hnot, ?_⟩
            exact ih _ (by rw [← hn, List.length_cons, List.length_cons]; omega)
              (hrest ▸ hout') rfl
          · rw [if_neg hraw] at heq
            exact absurd heq (utf8_pair_append_ne _ _)
        · rw [toUtf8_cons_of_isHigh hhigh (by rintro _ ⟨⟩; exact hlow)] at heq
          by_cases hraw : IsLow v.toNat
          · rw [if_pos hraw] at heq
            exact absurd heq.symm (utf8_pair_append_ne _ _)
          · rw [if_neg hraw, List.append_cancel_left_eq] at heq
            have hlt : (toUtf8 (units charset input)).length <
                (toUtf8 (unit charset v :: units charset input)).length :=
              length_toUtf8_lt (unit_lt charset v) units_lt
            have hle := length_le_of_encodeUnits hout'
            rw [← heq] at hle
            exact absurd hlt (not_lt.mpr hle)
    · rw [encodeUnits_cons_of_not_isHigh hhigh] at h
      obtain ⟨out', hout', heq⟩ := put_eq_some h
      rw [units_cons, toUtf8_cons_of_not_isHigh (unit_lt charset u) hhigh,
        List.append_cancel_left_eq] at heq
      exact ⟨fun hu => absurd hu hhigh,
        ih _ (by rw [← hn, List.length_cons]; omega) (heq ▸ hout') rfl⟩

theorem doConvertToUtf8_eq_iff :
    doConvertToUtf8 charset input = some (toUtf8 (units charset input)) ↔
      IsPaired charset input :=
  ⟨isPaired_of_encodeUnits, fun h => encodeUnits_of_isPaired h le_rfl⟩

/-! ## What is counted -/

theorem utf8Size_cons_of_not_isHigh {x : ℕ} (h : ¬ IsHigh x) (xs : List ℕ) :
    utf8Size (x :: xs) = (utf8Size xs).map ((utf8 x).length + ·) := by
  cases xs with
  | nil =>
    rw [utf8Size, utf8Size, if_neg h]
    rfl
  | cons y xs => rw [utf8Size, if_neg h]

theorem utf8Size_cons_of_isHigh {x : ℕ} (h : IsHigh x) (y : ℕ) (xs : List ℕ) :
    utf8Size (x :: y :: xs) = (utf8Size xs).map ((if IsLow y then 4 else 3) + ·) := by
  rw [utf8Size, if_pos h]

/-- The count is that of the units as they stand in memory. -/
theorem countUnits_eq (input : List UInt16) :
    countUnits input = utf8Size (input.map UInt16.toNat) := by
  induction hn : input.length using Nat.strong_induction_on generalizing input with
  | _ n ih =>
  cases input with
  | nil => rfl
  | cons u input =>
    have hlt : u.toNat < 0x10000 := u.toNat_lt
    rw [countUnits.eq_def, List.map_cons]
    dsimp only
    by_cases hhigh : IsHigh u.toNat
    · have hge := hhigh
      rw [IsHigh] at hge
      rw [if_neg (by omega), if_neg (by omega), if_pos hge]
      cases input with
      | nil => rw [List.map_nil, utf8Size, if_pos hhigh]
      | cons v input =>
        dsimp only
        rw [List.map_cons, utf8Size_cons_of_isHigh hhigh,
          ih _ (by rw [← hn, List.length_cons, List.length_cons]; omega) input rfl]
        by_cases hlow : IsLow v.toNat
        · rw [if_neg (by rw [IsLow] at hlow; omega), if_pos hlow]
        · rw [if_pos (by rw [IsLow] at hlow; omega), if_neg hlow]
    · have hnot := hhigh
      rw [IsHigh] at hnot
      rw [utf8Size_cons_of_not_isHigh hhigh, ih _ (by rw [← hn, List.length_cons]; omega) input rfl,
        utf8]
      split_ifs <;> rfl

/-- The characters of paired surrogates have the size that is asked for. -/
theorem utf8Size_of_isPaired (h : IsPaired charset input) :
    utf8Size (units charset input) = some (toUtf8 (units charset input)).length := by
  induction hn : input.length using Nat.strong_induction_on generalizing input with
  | _ n ih =>
  cases input with
  | nil => rfl
  | cons u input =>
    obtain ⟨hpair, hrest⟩ := h
    by_cases hhigh : IsHigh (unit charset u)
    · obtain ⟨v, hv, hlow, -⟩ := hpair hhigh
      obtain ⟨input, rfl⟩ := List.head?_eq_some_iff.mp hv
      rw [units_cons, units_cons, utf8Size_cons_of_isHigh hhigh, if_pos hlow,
        ih _ (by rw [← hn, List.length_cons, List.length_cons]; omega) hrest.2 rfl,
        toUtf8_pair hhigh hlow, List.length_append, length_utf8_pair, Option.map_some]
    · have hsize : (utf8 (if IsLow (unit charset u) then 0xFFFD else unit charset u)).length =
          (utf8 (unit charset u)).length := by
        have hlt := unit_lt charset u
        split_ifs with hlow
        · rw [IsLow] at hlow
          rw [← encode3_eq (by omega) hlt, ← encode3_eq (by norm_num) (by norm_num)]
          rfl
        · rfl
      rw [units_cons, utf8Size_cons_of_not_isHigh hhigh,
        ih _ (by rw [← hn, List.length_cons]; omega) hrest rfl,
        toUtf8_cons_of_not_isHigh (unit_lt charset u) hhigh, List.length_append, hsize,
        Option.map_some]

end Units

/-- **From UTF-16 to UTF-8.**  A text is converted and counted as it should be if and
only if each high surrogate has its low one behind it, for the other byte order one
whose bytes are the same, and for the other byte order the units need as many bytes
when they are not turned round. -/
theorem convertsTo_iff (charset : Encoding) (input : List UInt16) :
    ConvertsTo charset input ↔ IsPaired charset input ∧
      utf8Size (input.map UInt16.toNat) = utf8Size (units charset input) := by
  constructor
  · rintro ⟨-, hunpaired, hcount⟩
    have hpaired := doConvertToUtf8_eq_iff.mp hunpaired
    refine ⟨hpaired, ?_⟩
    rw [← countUnits_eq, hcount, hunpaired, utf8Size_of_isPaired hpaired, Option.map_some]
    rfl
  · rintro ⟨hpaired, hsize⟩
    have heq := doConvertToUtf8_eq_iff.mpr hpaired
    refine ⟨fun cs hcs => ?_, heq, ?_⟩
    · rw [heq, hcs, toUtf8, decode_encode]
    · rw [countUnits_eq, hsize, utf8Size_of_isPaired hpaired, heq, Option.map_some]

/-- A high surrogate with a letter behind it, least significant byte first: the letter
is lost. -/
theorem not_convertsTo_unpaired : ¬ ConvertsTo .AML_ENCODING_UTF16 [0xD800, 0x41] := by
  intro h
  exact absurd h.unpaired (by decide)

end ExtSubStreamReader
end AmlSubtitle
