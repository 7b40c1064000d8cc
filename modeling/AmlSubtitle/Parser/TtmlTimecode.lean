import AmlSubtitle.Lib.Delimited
import AmlSubtitle.Parser.SmpteTtmlParser

/-!
# The clock values of a TTML document

The parsers read `hours:minutes:seconds[.fraction]` with one format, in which the fraction is a
number like the others.

* `TimeExpression`: a value of that format, and the time it stands for in milliseconds.
* `asRead`: what the format makes of a fraction, and `misreading` by how much it is off.
* `misreading_eq_zero_iff`: the fractions that are read right.
* `parse_timecode_iff`: the times and the differences of times that the parsers get right.
-/

namespace AmlSubtitle
namespace Ttml

open Delimited (span_unique)
open Words Scanf SmpteTtml

/-! ## The two parsers -/

/-- A number that the format scans, in the lower half of a zero. -/
def timecodeField (timeString : Text) (i : ℕ) : ℤ :=
  match (scan timecodeFormat timeString)[i]? with
  | some (.int z) => z % 2 ^ 32
  | _ => 0

/-- `ttml_parse_timecode`. -/
def ttml_parse_timecode (beginTimeString endTimeString : Text) : ℤ :=
  let beginField := timecodeField beginTimeString
  let endField := timecodeField endTimeString
  ((endField 0 - beginField 0) * 3600 + (endField 1 - beginField 1) * 60 +
    (endField 2 - beginField 2)) * 1000 + (endField 3 - beginField 3)

theorem smpte_ttml_parse_timecode_eq (timeString : Text) :
    smpte_ttml_parse_timecode timeString =
      asSigned 32 ((timecodeField timeString 0 * 3600 + timecodeField timeString 1 * 60 +
        timecodeField timeString 2) * 1000 + timecodeField timeString 3) := rfl

/-! ## The values of the format -/

/-- `hours:minutes:seconds[.fraction]`, the numbers in digits and in range. -/
structure TimeExpression where
  hours : Text
  minutes : Text
  seconds : Text
  fraction : Option Text
  ne_nil : hours ≠ [] ∧ minutes ≠ [] ∧ seconds ≠ []
  hours_digits : ∀ c ∈ hours, isDigit c = true
  minutes_digits : ∀ c ∈ minutes, isDigit c = true
  seconds_digits : ∀ c ∈ seconds, isDigit c = true
  fraction_digits : ∀ c ∈ fraction.getD [], isDigit c = true
  hours_le : decimal hours ≤ 23
  minutes_le : decimal minutes ≤ 59
  seconds_le : decimal seconds ≤ 59

namespace TimeExpression

/-- The fraction with its point. -/
def fractionText (t : TimeExpression) : Text :=
  match t.fraction with
  | none => []
  | some digits => 46 :: digits

/-- The bytes of the value. -/
def text (t : TimeExpression) : Text :=
  t.hours ++ 58 :: (t.minutes ++ 58 :: (t.seconds ++ t.fractionText))

/-- The whole seconds. -/
def wholeSeconds (t : TimeExpression) : ℕ :=
  decimal t.hours * 3600 + decimal t.minutes * 60 + decimal t.seconds

/-- The digits behind the point. -/
def fractionDigits (t : TimeExpression) : Text := t.fraction.getD []

/-- The fraction in milliseconds, the rest cut off. -/
def fractionMilliseconds (t : TimeExpression) : ℕ :=
  decimal t.fractionDigits * 1000 / 10 ^ t.fractionDigits.length

/-- The time in milliseconds. -/
def milliseconds (t : TimeExpression) : ℕ := t.wholeSeconds * 1000 + t.fractionMilliseconds

/-- A value stands for one time. -/
theorem text_injective : Function.Injective text := by
  intro t t' h
  -- each number ends where its digits do
  have hcolon : ∀ s : Text, ∀ c ∈ (58 :: s).head?, ¬ isDigit c = true := by
    rintro s c hc
    obtain rfl := Option.some.inj hc
    decide
  have hfraction : ∀ t : TimeExpression, ∀ c ∈ t.fractionText.head?, ¬ isDigit c = true := by
    intro t c hc
    rw [fractionText] at hc
    cases hf : t.fraction with
    | none =>
      rw [hf] at hc
      cases hc
    | some digits =>
      rw [hf] at hc
      obtain rfl := Option.some.inj hc
      decide
  obtain ⟨hhours, h⟩ := span_unique t.hours_digits t'.hours_digits (hcolon _) (hcolon _) h
  obtain ⟨hminutes, h⟩ := span_unique t.minutes_digits t'.minutes_digits (hcolon _) (hcolon _)
    (List.cons.inj h).2
  obtain ⟨hseconds, h⟩ := span_unique t.seconds_digits t'.seconds_digits (hfraction t)
    (hfraction t') (List.cons.inj h).2
  rw [fractionText, fractionText] at h
  cases t with
  | mk hours minutes seconds fraction =>
    cases t' with
    | mk hours' minutes' seconds' fraction' =>
      cases fraction with
      | none =>
        cases fraction' with
        | none => simp_all
        | some digits => cases h
      | some digits =>
        cases fraction' with
        | none => cases h
        | some digits' => simp_all

end TimeExpression

/-- What the format makes of the digits behind the point. -/
def asRead (digits : Text) : ℤ := toInt (decimal digits) % 2 ^ 32

/-- By how many milliseconds the fraction is misread. -/
def misreading (t : TimeExpression) : ℤ := asRead t.fractionDigits - t.fractionMilliseconds

/-! ## What is scanned -/

section Scan

variable (t : TimeExpression)

theorem toInt_of_le {n : ℕ} (h : n ≤ 59) : toInt n % 2 ^ 32 = n := by
  rw [toInt_natCast (by omega)]
  omega

/-- The number in front of a literal. -/
theorem scan_int_literal {digits : Text} (hne : digits ≠ [])
    (hdigits : ∀ c ∈ digits, isDigit c = true) (c : UInt8) (hc : isDigit c = false)
    (format : List Directive) (rest : Text) :
    scan (.int :: .literal c :: format) (digits ++ c :: rest) =
      .int (toInt (decimal digits)) :: scan format rest := by
  have hint : scanInt (digits ++ c :: rest) = some (toInt (decimal digits), c :: rest) :=
    scanInt_digits hne hdigits fun c' hc' => Option.some.inj hc' ▸ hc
  rw [scan, hint]
  dsimp only
  rw [scan, if_pos rfl]

/-- The digits at the end of the value, if there are any. -/
theorem scan_last {digits : Text} (hdigits : ∀ c ∈ digits, isDigit c = true) :
    scan [.int] digits = if digits = [] then [] else [.int (toInt (decimal digits))] := by
  split_ifs with hnil
  · rw [hnil]
    rfl
  · have hint : scanInt digits = some (toInt (decimal digits), []) := by
      have happend := @scanInt_digits digits [] hnil hdigits fun c hc => nomatch hc
      rwa [List.append_nil] at happend
    rw [scan, hint]
    rfl

/-- The seconds and what follows them. -/
theorem scan_seconds : scan [.int, .literal 46, .int] (t.seconds ++ t.fractionText) =
    .int (toInt (decimal t.seconds)) ::
      if t.fractionDigits = [] then [] else [.int (toInt (decimal t.fractionDigits))] := by
  have hfraction := t.fraction_digits
  rw [TimeExpression.fractionText, TimeExpression.fractionDigits]
  cases hf : t.fraction with
  | none =>
    have hint : scanInt (t.seconds ++ []) = some (toInt (decimal t.seconds), []) :=
      scanInt_digits t.ne_nil.2.2 t.seconds_digits fun c hc => nomatch hc
    rw [scan, hint]
    rfl
  | some digits =>
    rw [hf, Option.getD_some] at hfraction
    rw [Option.getD_some]
    dsimp only
    rw [scan_int_literal t.ne_nil.2.2 t.seconds_digits 46 (by decide), scan_last hfraction]

/-- **The value is scanned as it is written.** -/
theorem scan_text : scan timecodeFormat t.text =
    .int (toInt (decimal t.hours)) :: .int (toInt (decimal t.minutes)) ::
      .int (toInt (decimal t.seconds)) ::
        if t.fractionDigits = [] then [] else [.int (toInt (decimal t.fractionDigits))] := by
  rw [timecodeFormat, TimeExpression.text,
    scan_int_literal t.ne_nil.1 t.hours_digits 58 (by decide),
    scan_int_literal t.ne_nil.2.1 t.minutes_digits 58 (by decide), scan_seconds]

theorem timecodeField_hours : timecodeField t.text 0 = decimal t.hours := by
  rw [timecodeField, scan_text]
  exact toInt_of_le (t.hours_le.trans (by decide))

theorem timecodeField_minutes : timecodeField t.text 1 = decimal t.minutes := by
  rw [timecodeField, scan_text]
  exact toInt_of_le t.minutes_le

theorem timecodeField_seconds : timecodeField t.text 2 = decimal t.seconds := by
  rw [timecodeField, scan_text]
  exact toInt_of_le t.seconds_le

theorem timecodeField_fraction : timecodeField t.text 3 = asRead t.fractionDigits := by
  rw [timecodeField, scan_text, asRead]
  split_ifs with hnil
  · rw [hnil]
    rfl
  · rfl

end Scan

/-! ## The times -/

section Times

variable (t : TimeExpression)

theorem asRead_bounds (digits : Text) : 0 ≤ asRead digits ∧ asRead digits < 2 ^ 32 := by
  rw [asRead]
  omega

/-- Fewer than a thousand milliseconds. -/
theorem decimal_lt {digits : Text} (h : ∀ c ∈ digits, isDigit c = true) :
    decimal digits < 10 ^ digits.length := by
  induction digits using List.reverseRecOn with
  | nil => exact Nat.one_pos
  | append_singleton digits c ih =>
    have hlt := ih fun c' hc' => h c' (List.mem_append_left _ hc')
    have hdigit := toNat_of_isDigit (h c (List.mem_append_right _ List.mem_cons_self))
    rw [decimal_append, List.length_append, List.length_singleton, pow_succ]
    omega

theorem fractionMilliseconds_lt : t.fractionMilliseconds < 1000 := by
  have hlt := decimal_lt t.fraction_digits
  rw [TimeExpression.fractionMilliseconds, Nat.div_lt_iff_lt_mul (by positivity), Nat.mul_comm]
  exact Nat.mul_lt_mul_of_pos_left hlt (by decide)

theorem wholeSeconds_lt : t.wholeSeconds < 86400 := by
  have hhours := t.hours_le
  have hminutes := t.minutes_le
  have hseconds := t.seconds_le
  rw [TimeExpression.wholeSeconds]
  omega

/-- A time is right when its fraction is. -/
theorem smpte_ttml_parse_timecode_text :
    smpte_ttml_parse_timecode t.text = t.milliseconds ↔ misreading t = 0 := by
  have hbounds := asRead_bounds t.fractionDigits
  have hms := fractionMilliseconds_lt t
  have hwhole := wholeSeconds_lt t
  rw [smpte_ttml_parse_timecode_eq, timecodeField_hours, timecodeField_minutes,
    timecodeField_seconds, timecodeField_fraction, TimeExpression.milliseconds, misreading]
  have hsum : ((decimal t.hours : ℤ) * 3600 + decimal t.minutes * 60 + decimal t.seconds) * 1000 =
      ((t.wholeSeconds * 1000 : ℕ) : ℤ) := by
    rw [TimeExpression.wholeSeconds]
    push_cast
    ring
  rw [hsum]
  constructor
  · intro h
    obtain ⟨m, hm⟩ := exists_eq_asSigned_add 32
      (((t.wholeSeconds * 1000 : ℕ) : ℤ) + asRead t.fractionDigits)
    rw [h] at hm
    omega
  · intro h
    have hread : asRead t.fractionDigits = t.fractionMilliseconds := by omega
    rw [hread, ← Nat.cast_add, asSigned_of_lt (by omega)]

/-- A difference is off by the difference of the misreadings. -/
theorem ttml_parse_timecode_text (t' : TimeExpression) :
    ttml_parse_timecode t.text t'.text =
      (t'.milliseconds - t.milliseconds : ℤ) + (misreading t' - misreading t) := by
  rw [ttml_parse_timecode, timecodeField_hours, timecodeField_minutes, timecodeField_seconds,
    timecodeField_fraction, timecodeField_hours, timecodeField_minutes, timecodeField_seconds,
    timecodeField_fraction, misreading, misreading, TimeExpression.milliseconds,
    TimeExpression.milliseconds, TimeExpression.wholeSeconds, TimeExpression.wholeSeconds]
  push_cast
  ring

end Times

/-! ## The fractions that are read right -/

/-- The digits are read as milliseconds: there are three of them, or they are zeros (or missing),
or they make a number that does not fit the field and of which the field happens to keep the
milliseconds. -/
def ReadRight (t : TimeExpression) : Prop :=
  t.fractionDigits.length = 3 ∨ decimal t.fractionDigits = 0 ∨
    2 ^ 32 ≤ decimal t.fractionDigits ∧ asRead t.fractionDigits = t.fractionMilliseconds

/-- What fits the field is kept. -/
theorem asRead_of_lt {digits : Text} (h : decimal digits < 2 ^ 32) :
    asRead digits = decimal digits := by
  have hclamp : max (-2 ^ 63) (min (2 ^ 63 - 1) (decimal digits : ℤ)) = decimal digits := by omega
  obtain ⟨m, hm⟩ := exists_eq_asSigned_add 32 (decimal digits)
  rw [asRead, toInt, hclamp]
  omega

/-- Where the number of milliseconds is the number that the digits make. -/
theorem mul_thousand_div {d n : ℕ} : d * 1000 / 10 ^ n = d ↔ n = 3 ∨ d = 0 := by
  constructor
  · intro h
    by_contra hne
    rw [not_or] at hne
    rcases Nat.lt_or_gt_of_ne hne.1 with hlt | hgt
    · interval_cases n
      all_goals omega
    · have hpow : 10 ^ 4 ≤ 10 ^ n := Nat.pow_le_pow_right (by decide) hgt
      have hle : d * 1000 / 10 ^ n ≤ d * 1000 / 10 ^ 4 := Nat.div_le_div_left hpow (by decide)
      omega
  · rintro (rfl | rfl)
    · exact Nat.mul_div_cancel d (by decide)
    · simp

theorem misreading_eq_zero_iff (t : TimeExpression) : misreading t = 0 ↔ ReadRight t := by
  have hiff := @mul_thousand_div (decimal t.fractionDigits) t.fractionDigits.length
  rw [← TimeExpression.fractionMilliseconds] at hiff
  rw [misreading, ReadRight]
  by_cases hlt : decimal t.fractionDigits < 2 ^ 32
  · rw [asRead_of_lt hlt]
    omega
  · constructor
    · exact fun h => .inr (.inr ⟨by omega, by omega⟩)
    · rintro (hthree | hzero | ⟨-, hread⟩)
      · have hten := decimal_lt t.fraction_digits
        rw [← TimeExpression.fractionDigits, hthree] at hten
        omega
      · omega
      · omega

/-- **The times and the differences of times that the parsers get right.** -/
theorem parse_timecode_iff (t t' : TimeExpression) :
    (smpte_ttml_parse_timecode t.text = t.milliseconds ↔ ReadRight t) ∧
      (ttml_parse_timecode t.text t'.text = (t'.milliseconds - t.milliseconds : ℤ) ↔
        misreading t = misreading t') := by
  constructor
  · rw [smpte_ttml_parse_timecode_text, misreading_eq_zero_iff]
  · rw [ttml_parse_timecode_text]
    omega

/-- `00:00:01.5`. -/
def oneAndAHalf : TimeExpression where
  hours := [48, 48]
  minutes := [48, 48]
  seconds := [48, 49]
  fraction := some [53]
  ne_nil := by decide
  hours_digits := by decide +kernel
  minutes_digits := by decide +kernel
  seconds_digits := by decide +kernel
  fraction_digits := by decide +kernel
  hours_le := by decide
  minutes_le := by decide
  seconds_le := by decide

/-- A second and a half is read as a second and five milliseconds. -/
theorem not_parse_timecode_oneAndAHalf : ¬ ((∀ t : TimeExpression,
      smpte_ttml_parse_timecode t.text = t.milliseconds) ∧
    ∀ t t' : TimeExpression,
      ttml_parse_timecode t.text t'.text = (t'.milliseconds - t.milliseconds : ℤ)) := by
  intro h
  exact absurd (h.1 oneAndAHalf) (by decide)

end Ttml
end AmlSubtitle
