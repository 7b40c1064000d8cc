import AmlSubtitle.Lib.Words

/-!
# Formatted input

The C library's `sscanf`, as far as formats made of `%d`, `%u`, `%*d`, `%s`, `%[...]`,
`%[^...]`, literal characters and blanks go.  A text is a list of bytes with no terminator.

* `scanInt`: the conversion `%d`, which skips blanks before the number.  A number that
  does not fit is clamped by `strtol` and then cut to an `int`.
* `scanUnsigned`: the conversion `%u`, with `strtoul`.
* `strtol`: a number in the base that its first digits tell.
* `scan`: the values that a format assigns, up to the first directive that fails.
* `scanInt_digits` and `decimal_padded` read a number back that was written in digits.
* `scan_append`: a format goes on behind its first part, if this assigns all its values.
-/

namespace AmlSubtitle
namespace Scanf

open Words

/-- `isspace`. -/
def isSpace (c : UInt8) : Bool := c = 32 || (9 ≤ c && c ≤ 13)

/-- `isdigit`. -/
def isDigit (c : UInt8) : Bool := 48 ≤ c && c ≤ 57

/-- The value of decimal digits. -/
def decimal (digits : List UInt8) : ℕ := digits.foldl (fun n c => 10 * n + (c.toNat - 48)) 0

/-- A number as `strtol` gives it, cut to an `int`. -/
def toInt (z : ℤ) : ℤ := asSigned 32 (max (-2 ^ 63) (min (2 ^ 63 - 1) z))

/-- The sign of a number, if it is negative, and what follows it. -/
def scanSign : List UInt8 → Bool × List UInt8
  | [] => (false, [])
  | c :: s => if c = 45 then (true, s) else if c = 43 then (false, s) else (false, c :: s)

/-- `%d`: the number and what follows it. -/
def scanInt (s : List UInt8) : Option (ℤ × List UInt8) :=
  let (negative, s) := scanSign (s.dropWhile isSpace)
  let digits := s.takeWhile isDigit
  if digits = [] then none
  else
    some (toInt (if negative then -(decimal digits : ℤ) else decimal digits),
      s.dropWhile isDigit)

/-- A number as `strtoul` gives it, cut to an `unsigned`. -/
def toUnsigned (negative : Bool) (n : ℕ) : ℤ :=
  asUnsigned 32 (if 2 ^ 64 ≤ n then 2 ^ 64 - 1 else if negative then -(n : ℤ) else n)

/-- `%u`: the number and what follows it. -/
def scanUnsigned (s : List UInt8) : Option (ℤ × List UInt8) :=
  let (negative, s) := scanSign (s.dropWhile isSpace)
  let digits := s.takeWhile isDigit
  if digits = [] then none
  else some (toUnsigned negative (decimal digits), s.dropWhile isDigit)

/-- A directive of a format; `skipInt` is `%*d`, and `word` is `%s`. -/
inductive Directive where
  | int
  | unsigned
  | skipInt
  | word
  | oneOf (set : List UInt8)
  | noneOf (set : List UInt8)
  | literal (c : UInt8)
  | blank
  deriving DecidableEq, Repr

/-- A value that is assigned. -/
inductive Value where
  | int (z : ℤ)
  | text (t : List UInt8)
  deriving DecidableEq, Repr

/-- The values a format assigns. -/
def scan : List Directive → List UInt8 → List Value
  | [], _ => []
  | .int :: format, s =>
    match scanInt s with
    | none => []
    | some (z, s) => .int z :: scan format s
  | .unsigned :: format, s =>
    match scanUnsigned s with
    | none => []
    | some (z, s) => .int z :: scan format s
  | .skipInt :: format, s =>
    match scanInt s with
    | none => []
    | some (_, s) => scan format s
  | .word :: format, s =>
    let s := s.dropWhile isSpace
    if s = [] then []
    else .text (s.takeWhile fun c => !isSpace c) :: scan format (s.dropWhile fun c => !isSpace c)
  | .oneOf set :: format, s =>
    if s.takeWhile (set.contains ·) = [] then []
    else .text (s.takeWhile (set.contains ·)) :: scan format (s.dropWhile (set.contains ·))
  | .noneOf set :: format, s =>
    if s.takeWhile (fun c => !set.contains c) = [] then []
    else .text (s.takeWhile fun c => !set.contains c) ::
      scan format (s.dropWhile fun c => !set.contains c)
  | .literal _ :: _, [] => []
  | .literal c :: format, c' :: s => if c' = c then scan format s else []
  | .blank :: format, s => scan format (s.dropWhile isSpace)

/-! ## Numbers -/

/-- A number in `k` digits. -/
def padded : ℕ → ℕ → List UInt8
  | 0, _ => []
  | k + 1, n => padded k (n / 10) ++ [UInt8.ofNat (48 + n % 10)]

theorem isDigit_of_mem_padded (k : ℕ) : ∀ n, ∀ c ∈ padded k n, isDigit c = true := by
  induction k with
  | zero => exact fun _ _ h => absurd h List.not_mem_nil
  | succ k ih =>
    intro n c hc
    rcases List.mem_append.mp hc with hc | hc
    · exact ih (n / 10) c hc
    · rw [List.eq_of_mem_singleton hc]
      have hdigit : ∀ d < 10, isDigit (UInt8.ofNat (48 + d)) = true := by decide
      exact hdigit (n % 10) (Nat.mod_lt n (by decide))

theorem length_padded (k : ℕ) : ∀ n, (padded k n).length = k := by
  induction k with
  | zero => exact fun _ => rfl
  | succ k ih =>
    intro n
    rw [padded, List.length_append, ih]
    rfl

theorem decimal_append (digits : List UInt8) (c : UInt8) :
    decimal (digits ++ [c]) = 10 * decimal digits + (c.toNat - 48) := by
  rw [decimal, List.foldl_append]
  rfl

theorem decimal_padded (k : ℕ) : ∀ n, decimal (padded k n) = n % 10 ^ k := by
  induction k with
  | zero => exact fun n => (Nat.mod_one n).symm
  | succ k ih =>
    intro n
    have hdigit : (UInt8.ofNat (48 + n % 10)).toNat = 48 + n % 10 := by
      have := Nat.mod_lt n (show 10 > 0 by decide)
      exact Nat.mod_eq_of_lt (by omega)
    rw [padded, decimal_append, ih, hdigit, Nat.add_sub_cancel_left, pow_succ',
      Nat.mod_mul, Nat.add_comm]

theorem toInt_natCast {n : ℕ} (h : n < 2 ^ 31) : toInt n = n := by
  have hclamp : max (-2 ^ 63) (min (2 ^ 63 - 1) (n : ℤ)) = n := by
    rw [min_eq_right (by omega), max_eq_right (by omega)]
  rw [toInt, hclamp, asSigned]
  exact Int.bmod_eq_of_le (by omega) (by omega)

theorem toNat_of_isDigit {c : UInt8} (h : isDigit c = true) : 48 ≤ c.toNat ∧ c.toNat ≤ 57 := by
  rw [isDigit, Bool.and_eq_true, decide_eq_true_iff, decide_eq_true_iff] at h
  exact ⟨UInt8.le_iff_toNat_le.mp h.1, UInt8.le_iff_toNat_le.mp h.2⟩

theorem isSpace_of_isDigit {c : UInt8} (h : isDigit c = true) : isSpace c = false := by
  have hc := toNat_of_isDigit h
  rw [isSpace, Bool.or_eq_false_iff, Bool.and_eq_false_iff, decide_eq_false_iff_not,
    decide_eq_false_iff_not, decide_eq_false_iff_not, UInt8.le_iff_toNat_le,
    UInt8.le_iff_toNat_le, ← UInt8.toNat_inj]
  have h32 : UInt8.toNat 32 = 32 := rfl
  have h13 : UInt8.toNat 13 = 13 := rfl
  omega

theorem exists_padded_eq_cons {k : ℕ} (hk : k ≠ 0) (n : ℕ) :
    ∃ d ds, padded k n = d :: ds ∧ isDigit d = true := by
  cases h : padded k n with
  | nil => exact absurd ((length_padded k n).symm.trans (congrArg List.length h)) hk
  | cons d ds => exact ⟨d, ds, rfl, isDigit_of_mem_padded k n d (h ▸ List.mem_cons_self)⟩

/-- No blank is skipped in front of a number. -/
theorem dropWhile_padded {k : ℕ} (hk : k ≠ 0) (n : ℕ) (s : List UInt8) :
    (padded k n ++ s).dropWhile isSpace = padded k n ++ s := by
  obtain ⟨d, ds, hds, hd⟩ := exists_padded_eq_cons hk n
  rw [hds]
  exact List.dropWhile_cons_of_neg ((Bool.not_eq_true _).mpr (isSpace_of_isDigit hd))

theorem scanSign_cons {c : UInt8} (h : isDigit c = true) (s : List UInt8) :
    scanSign (c :: s) = (false, c :: s) := by
  have hc := (toNat_of_isDigit h).1
  have h45 : c ≠ 45 := fun hh => absurd (hh ▸ hc) (by decide)
  have h43 : c ≠ 43 := fun hh => absurd (hh ▸ hc) (by decide)
  rw [scanSign, if_neg h45, if_neg h43]

theorem suffix_scanSign (s : List UInt8) : (scanSign s).2 <:+ s := by
  cases s with
  | nil => exact List.suffix_refl []
  | cons c s =>
    rw [scanSign]
    split_ifs
    · exact List.suffix_cons c s
    · exact List.suffix_cons c s
    · exact List.suffix_refl _

/-- Digits that stand at the beginning: no blank and no sign is skipped in front of them, and they
are told from what follows them. -/
theorem parts_digits {digits rest : List UInt8} (hne : digits ≠ [])
    (hdigits : ∀ c ∈ digits, isDigit c = true) (hrest : ∀ c ∈ rest.head?, isDigit c = false) :
    scanSign ((digits ++ rest).dropWhile isSpace) = (false, digits ++ rest) ∧
      (digits ++ rest).takeWhile isDigit = digits ∧ (digits ++ rest).dropWhile isDigit = rest := by
  have htake : (digits ++ rest).takeWhile isDigit = digits := by
    rw [List.takeWhile_append_of_pos hdigits]
    cases rest with
    | nil => exact List.append_nil digits
    | cons c rest =>
      rw [List.takeWhile_cons_of_neg ((Bool.not_eq_true _).mpr (hrest c rfl)), List.append_nil]
  have hdrop : (digits ++ rest).dropWhile isDigit = rest := by
    rw [List.dropWhile_append_of_pos hdigits]
    cases rest with
    | nil => rfl
    | cons c rest => exact List.dropWhile_cons_of_neg ((Bool.not_eq_true _).mpr (hrest c rfl))
  refine ⟨?_, htake, hdrop⟩
  obtain ⟨d, ds, rfl⟩ := List.exists_cons_of_ne_nil hne
  have hd := hdigits d List.mem_cons_self
  have hspace : ((d :: ds) ++ rest).dropWhile isSpace = (d :: ds) ++ rest :=
    List.dropWhile_cons_of_neg ((Bool.not_eq_true _).mpr (isSpace_of_isDigit hd))
  rw [hspace]
  exact scanSign_cons hd _

/-- **`%d` reads the digits that stand at the beginning.** -/
theorem scanInt_digits {digits rest : List UInt8} (hne : digits ≠ [])
    (hdigits : ∀ c ∈ digits, isDigit c = true) (hrest : ∀ c ∈ rest.head?, isDigit c = false) :
    scanInt (digits ++ rest) = some (toInt (decimal digits), rest) := by
  obtain ⟨hsign, htake, hdrop⟩ := parts_digits hne hdigits hrest
  rw [scanInt, hsign]
  simp only [htake, hdrop, if_neg hne, Bool.false_eq_true, if_false]

/-- **`%u` reads them too.** -/
theorem scanUnsigned_digits {digits rest : List UInt8} (hne : digits ≠ [])
    (hdigits : ∀ c ∈ digits, isDigit c = true) (hrest : ∀ c ∈ rest.head?, isDigit c = false) :
    scanUnsigned (digits ++ rest) = some (toUnsigned false (decimal digits), rest) := by
  obtain ⟨hsign, htake, hdrop⟩ := parts_digits hne hdigits hrest
  rw [scanUnsigned, hsign]
  simp only [htake, hdrop, if_neg hne]

theorem toUnsigned_of_lt {n : ℕ} (h : n < 2 ^ 32) : toUnsigned false n = n := by
  rw [toUnsigned, if_neg (by omega), if_neg Bool.false_ne_true, asUnsigned_of_lt h]

/-! ## Numbers in any base -/

/-- `isxdigit`. -/
def isHexDigit (c : UInt8) : Bool := isDigit c || (65 ≤ c && c ≤ 70) || (97 ≤ c && c ≤ 102)

/-- The value of a digit. -/
def digitValue (c : UInt8) : ℕ :=
  if isDigit c then c.toNat - 48 else if 97 ≤ c then c.toNat - 87 else c.toNat - 55

/-- `isDigitOf base c`: the character is a digit of the base. -/
def isDigitOf (base : ℕ) (c : UInt8) : Bool := isHexDigit c && digitValue c < base

/-- `strtol` with the base zero: the number, and what follows it. -/
def strtol (s : List UInt8) : ℤ × List UInt8 :=
  let (negative, t) := scanSign (s.dropWhile isSpace)
  let hex := (t.take 2 = [48, 120] ∨ t.take 2 = [48, 88]) ∧ isHexDigit ((t.drop 2).headD 0) = true
  let base := if hex then 16 else if t.head? = some 48 then 8 else 10
  let t := if hex then t.drop 2 else t
  let digits := t.takeWhile (isDigitOf base)
  let n := digits.foldl (fun n c => base * n + digitValue c) 0
  if digits = [] then (0, s)
  else (max (-2 ^ 63) (min (2 ^ 63 - 1) (if negative then -(n : ℤ) else n)),
    t.dropWhile (isDigitOf base))

theorem suffix_strtol (s : List UInt8) : (strtol s).2 <:+ s := by
  have hsign := (suffix_scanSign (s.dropWhile isSpace)).trans (List.dropWhile_suffix isSpace)
  unfold strtol
  dsimp only
  generalize (scanSign (s.dropWhile isSpace)).2 = t at hsign
  have hhex := (List.drop_suffix 2 t).trans hsign
  split_ifs
  all_goals first
    | exact List.suffix_refl s
    | exact (List.dropWhile_suffix _).trans hsign
    | exact (List.dropWhile_suffix _).trans hhex

theorem isDigitOf_ten (c : UInt8) : isDigitOf 10 c = isDigit c := by
  have hall : ∀ n < 256, isDigitOf 10 (UInt8.ofNat n) = isDigit (UInt8.ofNat n) := by
    decide +kernel
  have hc := hall c.toNat c.toNat_lt
  rwa [UInt8.ofNat_toNat] at hc

theorem digitValue_of_isDigit {c : UInt8} (h : isDigit c = true) :
    digitValue c = c.toNat - 48 := if_pos h

/-- **`strtol` reads a decimal number** that has no zero in front. -/
theorem strtol_digits {digits rest : List UInt8} (hne : digits ≠ [])
    (hdigits : ∀ c ∈ digits, isDigit c = true) (hzero : digits.head? = some 48 → digits = [48])
    (hrest : ∀ c ∈ rest.head?, isHexDigit c = false ∧ c ≠ 120 ∧ c ≠ 88)
    (hlt : decimal digits < 2 ^ 63) : strtol (digits ++ rest) = ((decimal digits : ℤ), rest) := by
  have hnot : ∀ c ∈ rest.head?, isDigit c = false := fun c hc => by
    have hhex := (hrest c hc).1
    rw [isHexDigit, Bool.or_eq_false_iff, Bool.or_eq_false_iff] at hhex
    exact hhex.1.1
  obtain ⟨hsign, htake, hdrop⟩ := parts_digits hne hdigits hnot
  have hfold : digits.foldl (fun n c => 10 * n + digitValue c) 0 = decimal digits :=
    List.foldl_ext _ _ _ fun n c hc => by rw [digitValue_of_isDigit (hdigits c hc)]
  have hclamp : max (-2 ^ 63) (min (2 ^ 63 - 1) (decimal digits : ℤ)) = decimal digits := by
    rw [min_eq_right (by omega), max_eq_right (by omega)]
  by_cases h48 : digits.head? = some 48
  · -- the number zero is one in base 8
    obtain rfl := hzero h48
    have hhex : ¬ ((([48] ++ rest).take 2 = [48, 120] ∨ ([48] ++ rest).take 2 = [48, 88]) ∧
        isHexDigit ((([48] ++ rest).drop 2).headD 0) = true) := by
      rintro ⟨h, -⟩
      cases rest with
      | nil => exact h.elim (fun h => absurd h (by decide)) fun h => absurd h (by decide)
      | cons c rest =>
        obtain ⟨-, h120, h88⟩ := hrest c rfl
        rcases h with h | h
        · exact h120 (List.cons.inj (List.cons.inj h).2).1
        · exact h88 (List.cons.inj (List.cons.inj h).2).1
    have hoctal : ∀ c ∈ rest.head?, isDigitOf 8 c = false := fun c hc => by
      rw [isDigitOf, (hrest c hc).1, Bool.false_and]
    have htake8 : ([48] ++ rest).takeWhile (isDigitOf 8) = [48] := by
      rw [List.singleton_append, List.takeWhile_cons_of_pos (by decide)]
      cases rest with
      | nil => rfl
      | cons c rest =>
        rw [List.takeWhile_cons_of_neg ((Bool.not_eq_true _).mpr (hoctal c rfl))]
    have hdrop8 : ([48] ++ rest).dropWhile (isDigitOf 8) = rest := by
      rw [List.singleton_append, List.dropWhile_cons_of_pos (by decide)]
      cases rest with
      | nil => rfl
      | cons c rest =>
        exact List.dropWhile_cons_of_neg ((Bool.not_eq_true _).mpr (hoctal c rfl))
    have hhead : ([48] ++ rest).head? = some 48 := rfl
    rw [strtol, hsign]
    dsimp only
    rw [if_neg hhex, if_neg hhex, if_pos hhead, htake8, hdrop8]
    rfl
  · obtain ⟨d, ds, rfl⟩ := List.exists_cons_of_ne_nil hne
    have hd : d ≠ 48 := fun h => h48 (congrArg some h)
    have hhex : ¬ (((d :: ds ++ rest).take 2 = [48, 120] ∨ (d :: ds ++ rest).take 2 = [48, 88]) ∧
        isHexDigit (((d :: ds ++ rest).drop 2).headD 0) = true) := by
      rintro ⟨h | h, -⟩
      · exact hd (List.cons.inj h).1
      · exact hd (List.cons.inj h).1
    have hten : isDigitOf 10 = isDigit := funext isDigitOf_ten
    have hhead : ¬ (d :: ds ++ rest).head? = some 48 := fun h => hd (Option.some.inj h)
    rw [strtol, hsign]
    dsimp only
    rw [if_neg hhex, if_neg hhex, if_neg hhead, hten, htake, hdrop, if_neg hne, hfold,
      if_neg Bool.false_ne_true, hclamp]

/-! ## Formats -/

/-- The values a format assigns if no directive fails. -/
def conversions : List Directive → ℕ
  | [] => 0
  | .int :: format => conversions format + 1
  | .unsigned :: format => conversions format + 1
  | .skipInt :: format => conversions format
  | .word :: format => conversions format + 1
  | .oneOf _ :: format => conversions format + 1
  | .noneOf _ :: format => conversions format + 1
  | .literal _ :: format => conversions format
  | .blank :: format => conversions format

theorem suffix_of_scanInt {s : List UInt8} {p : ℤ × List UInt8} (h : scanInt s = some p) :
    p.2 <:+ s := by
  unfold scanInt at h
  dsimp only at h
  split at h
  · exact absurd h.symm (Option.some_ne_none p)
  · rw [← Option.some.inj h]
    exact ((List.dropWhile_suffix _).trans (suffix_scanSign _)).trans (List.dropWhile_suffix _)

theorem suffix_of_scanUnsigned {s : List UInt8} {p : ℤ × List UInt8}
    (h : scanUnsigned s = some p) : p.2 <:+ s := by
  unfold scanUnsigned at h
  dsimp only at h
  split at h
  · exact absurd h.symm (Option.some_ne_none p)
  · rw [← Option.some.inj h]
    exact ((List.dropWhile_suffix _).trans (suffix_scanSign _)).trans (List.dropWhile_suffix _)

/-- **A format in two parts**: the second one goes on where the first one ends, or it is not
reached. -/
theorem scan_append (format format' : List Directive) (s : List UInt8) :
    (∃ values rest, values.length = conversions format ∧ rest <:+ s ∧
        scan (format ++ format') s = values ++ scan format' rest) ∨
      (scan (format ++ format') s).length ≤ conversions format := by
  induction format generalizing s with
  | nil => exact .inl ⟨[], s, rfl, List.suffix_refl s, rfl⟩
  | cons directive format ih =>
    have hcons : ∀ (value : Value) (s' : List UInt8), s' <:+ s →
        (∃ values rest, values.length = conversions format + 1 ∧ rest <:+ s ∧
            value :: scan (format ++ format') s' = values ++ scan format' rest) ∨
          (value :: scan (format ++ format') s').length ≤ conversions format + 1 := by
      intro value s' hs'
      rcases ih s' with ⟨values, rest, hlen, hrest, heq⟩ | hle
      · exact .inl ⟨value :: values, rest, congrArg (· + 1) hlen, hrest.trans hs', by rw [heq]; rfl⟩
      · exact .inr (Nat.succ_le_succ hle)
    have hskip : ∀ s' : List UInt8, s' <:+ s →
        (∃ values rest, values.length = conversions format ∧ rest <:+ s ∧
            scan (format ++ format') s' = values ++ scan format' rest) ∨
          (scan (format ++ format') s').length ≤ conversions format := by
      intro s' hs'
      rcases ih s' with ⟨values, rest, hlen, hrest, heq⟩ | hle
      · exact .inl ⟨values, rest, hlen, hrest.trans hs', heq⟩
      · exact .inr hle
    cases directive with
    | int =>
      rw [List.cons_append, scan]
      cases hint : scanInt s with
      | none => exact .inr (Nat.zero_le _)
      | some p =>
        exact hcons _ p.2 (suffix_of_scanInt hint)
    | unsigned =>
      rw [List.cons_append, scan]
      cases hint : scanUnsigned s with
      | none => exact .inr (Nat.zero_le _)
      | some p => exact hcons _ p.2 (suffix_of_scanUnsigned hint)
    | skipInt =>
      rw [List.cons_append, scan]
      cases hint : scanInt s with
      | none => exact .inr (Nat.zero_le _)
      | some p => exact hskip p.2 (suffix_of_scanInt hint)
    | word =>
      rw [List.cons_append, scan]
      split_ifs
      · exact .inr (Nat.zero_le _)
      · exact hcons _ _ ((List.dropWhile_suffix _).trans (List.dropWhile_suffix _))
    | oneOf set =>
      rw [List.cons_append, scan]
      split_ifs
      · exact .inr (Nat.zero_le _)
      · exact hcons _ _ (List.dropWhile_suffix _)
    | noneOf set =>
      rw [List.cons_append, scan]
      split_ifs
      · exact .inr (Nat.zero_le _)
      · exact hcons _ _ (List.dropWhile_suffix _)
    | literal c =>
      cases s with
      | nil => exact .inr (Nat.zero_le _)
      | cons d s =>
        rw [List.cons_append, scan]
        split_ifs
        · exact hskip s (List.suffix_cons d s)
        · exact .inr (Nat.zero_le _)
    | blank => exact hskip _ (List.dropWhile_suffix _)

/-- Letters that a format has stand in the text, if more values are assigned than in front of
them. -/
theorem infix_of_scan {format format' : List Directive} {letters s : List UInt8}
    (h : conversions format <
      (scan (format ++ (letters.map Directive.literal ++ format')) s).length) :
    letters <:+: s := by
  have hletters : ∀ (letters s : List UInt8),
      scan (letters.map Directive.literal ++ format') s ≠ [] → letters <+: s := by
    intro letters
    induction letters with
    | nil => exact fun s _ => List.nil_prefix
    | cons c letters ih =>
      intro s hne
      cases s with
      | nil => exact absurd rfl hne
      | cons d s =>
        rw [List.map_cons, List.cons_append, scan] at hne
        split_ifs at hne with heq
        · exact List.cons_prefix_cons.mpr ⟨heq.symm, ih s hne⟩
        · exact absurd rfl hne
  rcases scan_append format (letters.map Directive.literal ++ format') s with
    ⟨values, rest, hlen, hrest, heq⟩ | hle
  · rw [heq, List.length_append, hlen] at h
    have hne : scan (letters.map Directive.literal ++ format') rest ≠ [] := by
      intro hnil
      rw [hnil, List.length_nil] at h
      omega
    exact (hletters letters rest hne).isInfix.trans hrest.isInfix
  · omega

end Scanf
end AmlSubtitle
