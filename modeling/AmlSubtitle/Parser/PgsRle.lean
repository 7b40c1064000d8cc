import AmlSubtitle.Parser.PgsRender

/-!
# Run-length data of PGS objects

`decodeRle` counts pixels in an `int` and compares with an area that is an `int` too.  Here is
its loop with this arithmetic, for all widths and heights an `int` can have.

* `RleCode` are the codes of the format, `Encodes` the data of an image.
* `DecodesImages` is what the decoder is for: data of an image gives the image, and no data
  makes it write outside the image or call it complete too early.
* `decodesImages_iff`: it does that for the sizes at which no sum overflows.
* `decodeRleInt_eq`: for these sizes the loop is that of the rendering.
-/

namespace AmlSubtitle
namespace Pgs

open Words

/-! ## The loop with `int`s -/

/-- How the decoder ends: it returns, an assertion fails, a division by zero traps, or `memset`
writes outside the `w * h` entries. -/
inductive Ending where
  | returned (ok : Bool)
  | assertion
  | division
  | outside
  deriving DecidableEq, Repr

/-- The entries that were written, from the first one on, how the decoder ends, and the end of
the bytes that were read. -/
structure RleRun where
  pixels : List UInt8
  ending : Ending
  reach : ℕ
  deriving DecidableEq, Repr

/-- The test before a run is written after `count` pixels. -/
def Fits (w h count run : ℕ) : Prop :=
  asSigned 32 (asSigned 32 count + run) ≤ asSigned 32 (w * h)

/-- The run is written inside the entries. -/
def Inside (w h count run : ℕ) : Prop :=
  0 ≤ asSigned 32 count ∧ asSigned 32 count + run ≤ w * h

instance (w h count run : ℕ) : Decidable (Fits w h count run) :=
  inferInstanceAs (Decidable (_ ≤ _))

instance (w h count run : ℕ) : Decidable (Inside w h count run) :=
  inferInstanceAs (Decidable (_ ∧ _))

/-- The loop of `decodeRle`, at `pos` in data of the given size, after `lines` ends of lines. -/
def rleLoop (buf : Source) (size w h pos lines : ℕ) (pixels : List UInt8) : RleRun :=
  let code := readCode buf pos
  if pos < size ∧ lines < h then
    if code.run > 0 ∧ Fits w h pixels.length code.run then
      if Inside w h pixels.length code.run then
        rleLoop buf size w h code.next lines (pixels ++ List.replicate code.run code.color)
      else
        ⟨pixels, .outside, code.next⟩
    else if code.run = 0 then
      if w = 0 then
        ⟨pixels, .division, code.next⟩
      else if Int.tmod (asSigned 32 pixels.length) w > 0 then
        ⟨pixels, .returned false, code.next⟩
      else
        rleLoop buf size w h code.next (lines + 1) pixels
    else
      rleLoop buf size w h code.next lines pixels
  else
    ⟨pixels, .returned (decide ¬ asSigned 32 pixels.length < asSigned 32 (w * h)), pos⟩
termination_by size - pos
decreasing_by
  all_goals
    have hnext := lt_next_readCode buf pos
    omega

/-- `decodeRle`, with its assertion that there are data. -/
def decodeRleInt (rle : List UInt8) (behind : Source) (w h : ℕ) : RleRun :=
  if rle = [] then ⟨[], .assertion, 0⟩
  else rleLoop (rleSource rle behind) rle.length w h 0 0 []

/-! ## The format -/

/-- **A code** of the format, with its colour and the length of its run.  A run of length zero
is the end of a line. -/
inductive RleCode : List UInt8 → UInt8 → ℕ → Prop
  | pixel {color : UInt8} : color ≠ 0 → RleCode [color] color 1
  | zeros {run : ℕ} : run < 64 → RleCode [0, UInt8.ofNat run] 0 run
  | zerosLong {run : ℕ} : run < 2 ^ 14 →
      RleCode [0, UInt8.ofNat (0x40 + run / 256), UInt8.ofNat run] 0 run
  | color {color : UInt8} {run : ℕ} : run < 64 →
      RleCode [0, UInt8.ofNat (0x80 + run), color] color run
  | colorLong {color : UInt8} {run : ℕ} : run < 2 ^ 14 →
      RleCode [0, UInt8.ofNat (0xc0 + run / 256), UInt8.ofNat run, color] color run

/-- The runs of some pixels. -/
inductive Runs : List UInt8 → List UInt8 → Prop
  | nil : Runs [] []
  | cons {code pixels bytes : List UInt8} {color : UInt8} {run : ℕ} : RleCode code color run →
      0 < run → Runs pixels bytes → Runs (List.replicate run color ++ pixels) (code ++ bytes)

/-- **The data of an image** with lines of `w` pixels: the runs of each line, and its end.  The
end may be left out, since the pixels are counted. -/
inductive Encodes (w : ℕ) : ℕ → List UInt8 → List UInt8 → Prop
  | nil : Encodes w 0 [] []
  | line {n : ℕ} {line bytes eol image rest : List UInt8} : line.length = w → Runs line bytes →
      eol = [0, 0] ∨ eol = [] → Encodes w n image rest →
      Encodes w (n + 1) (line ++ image) (bytes ++ eol ++ rest)

/-- **What the decoder is for**, at a width and a height. -/
structure DecodesImages (w h : ℕ) : Prop where
  image : ∀ image rle behind, Encodes w h image rle →
    (decodeRleInt rle behind w h).pixels = image ∧
      (decodeRleInt rle behind w h).ending = .returned true
  returns : ∀ rle behind, rle ≠ [] → ∃ ok, (decodeRleInt rle behind w h).ending = .returned ok
  inside : ∀ rle behind, (decodeRleInt rle behind w h).ending ≠ .outside
  complete : ∀ rle behind, (decodeRleInt rle behind w h).ending = .returned true →
    (decodeRleInt rle behind w h).pixels.length = w * h

/-! ## Reading a code -/

section Codes

variable {rle code rest : List UInt8} {behind : Source} {color : UInt8} {pos run : ℕ}

/-- The bits of the second byte of a code. -/
theorem flags_bits : ∀ m < 64,
    ((UInt8.ofNat m &&& 0x3f).toNat = m ∧ UInt8.ofNat m &&& 0x40 = 0 ∧
      UInt8.ofNat m &&& 0x80 = 0) ∧
    ((UInt8.ofNat (0x40 + m) &&& 0x3f).toNat = m ∧ UInt8.ofNat (0x40 + m) &&& 0x40 ≠ 0 ∧
      UInt8.ofNat (0x40 + m) &&& 0x80 = 0) ∧
    ((UInt8.ofNat (0x80 + m) &&& 0x3f).toNat = m ∧ UInt8.ofNat (0x80 + m) &&& 0x40 = 0 ∧
      UInt8.ofNat (0x80 + m) &&& 0x80 ≠ 0) ∧
    ((UInt8.ofNat (0xc0 + m) &&& 0x3f).toNat = m ∧ UInt8.ofNat (0xc0 + m) &&& 0x40 ≠ 0 ∧
      UInt8.ofNat (0xc0 + m) &&& 0x80 ≠ 0) := by
  decide

theorem length_pos_rleCode (h : RleCode code color run) : 0 < code.length := by
  cases h <;> exact Nat.succ_pos _

/-- A byte of the data. -/
theorem rleSource_of_drop (hdrop : rle.drop pos = code ++ rest) {i : ℕ} (hi : i < code.length) :
    rleSource rle behind (pos + i) = code.getD i 0 := by
  have hlength := congrArg List.length hdrop
  rw [List.length_drop, List.length_append] at hlength
  have hget : rle.getD (pos + i) 0 = (rle.drop pos).getD i 0 := by
    rw [List.getD_eq_getElem?_getD, List.getD_eq_getElem?_getD, List.getElem?_drop]
  rw [rleSource, if_pos (by omega), hget, hdrop, List.getD_append _ _ _ _ hi]

/-- **A code is read**: its colour, its run, and the position behind it. -/
theorem readCode_of_drop (hcode : RleCode code color run) (hdrop : rle.drop pos = code ++ rest) :
    readCode (rleSource rle behind) pos = ⟨color, run, pos + code.length⟩ := by
  have hbyte : ∀ i < code.length, rleSource rle behind (pos + i) = code.getD i 0 :=
    fun i hi => rleSource_of_drop hdrop hi
  have hfirst : rleSource rle behind pos = code.getD 0 0 := hbyte 0 (length_pos_rleCode hcode)
  have hbytes : ∀ n < 2 ^ 14, n / 256 * 256 + (UInt8.ofNat n).toNat = n := by
    intro n _
    rw [UInt8.toNat_ofNat']
    omega
  unfold readCode
  dsimp only
  cases hcode with
  | pixel hcolor =>
    rw [hfirst]
    exact if_neg hcolor
  | zeros hrun =>
    obtain ⟨⟨hlow, hlong, hcolour⟩, -⟩ := flags_bits run hrun
    rw [hfirst, hbyte 1 (by simp)]
    simp only [List.getD_cons_zero, List.getD_cons_succ, hlong, hcolour, hlow, ne_eq,
      not_true_eq_false, if_true, if_false, List.length_cons, List.length_nil]
  | zerosLong hrun =>
    obtain ⟨-, ⟨hlow, hlong, hcolour⟩, -⟩ := flags_bits (run / 256) (by omega)
    rw [hfirst, hbyte 1 (by simp), bytestreamGetByte, hbyte 2 (by simp)]
    simp only [List.getD_cons_zero, List.getD_cons_succ, hlong, hcolour, hlow, ne_eq,
      not_true_eq_false, not_false_eq_true, if_true, if_false, List.length_cons, List.length_nil,
      hbytes run hrun]
  | color hrun =>
    obtain ⟨-, -, ⟨hlow, hlong, hcolour⟩, -⟩ := flags_bits run hrun
    rw [hfirst, hbyte 1 (by simp)]
    simp only [List.getD_cons_zero, List.getD_cons_succ, hlong, hcolour, hlow, ne_eq,
      not_true_eq_false, not_false_eq_true, if_true, if_false, List.length_cons, List.length_nil]
    rw [hbyte 2 (by simp)]
    rfl
  | colorLong hrun =>
    obtain ⟨-, -, -, hlow, hlong, hcolour⟩ := flags_bits (run / 256) (by omega)
    rw [hfirst, hbyte 1 (by simp), bytestreamGetByte, hbyte 2 (by simp)]
    simp only [List.getD_cons_zero, List.getD_cons_succ, hlong, hcolour, hlow, ne_eq,
      not_false_eq_true, if_true, List.length_cons, List.length_nil, hbytes run hrun]
    rw [hbyte 3 (by simp)]
    rfl

/-- What is left behind some bytes. -/
theorem drop_append {l : List UInt8} (hdrop : rle.drop pos = l ++ rest) :
    rle.drop (pos + l.length) = rest := by
  rw [← List.drop_drop, hdrop, List.drop_left]

theorem lt_length_of_drop (hcode : RleCode code color run) (hdrop : rle.drop pos = code ++ rest) :
    pos < rle.length := by
  have hlength := congrArg List.length hdrop
  rw [List.length_drop, List.length_append] at hlength
  have hpos := length_pos_rleCode hcode
  omega

end Codes

/-! ## The steps of the loop -/

section Loop

variable {rle line bytes rest image : List UInt8} {behind : Source} {w h pos lines : ℕ}
  {pixels : List UInt8}

/-- A run that ends in the area is written, and inside the entries. -/
theorem fits_of_le {count run : ℕ} (hle : (count + run : ℕ) ≤ asSigned 32 (w * h : ℕ)) :
    Fits w h count run ∧ Inside w h count run := by
  have hlt : 2 * asSigned 32 (w * h : ℕ) < 2 ^ 32 := asSigned_lt 31 _
  have harea := asSigned_le 32 (w * h)
  have hcount : asSigned 32 count = count := asSigned_of_lt (by omega)
  have hsum : asSigned 32 (count + run : ℕ) = (count + run : ℕ) := asSigned_of_lt (by omega)
  push_cast at hle hlt harea hsum
  unfold Fits Inside
  rw [hcount, hsum]
  exact ⟨hle, Nat.cast_nonneg _, hle.trans harea⟩

/-- **The runs of some pixels** are written, as long as they end in the area. -/
theorem rleLoop_runs (hruns : Runs line bytes) (hdrop : rle.drop pos = bytes ++ rest)
    (hlines : lines < h) (harea : (pixels.length + line.length : ℕ) ≤ asSigned 32 (w * h : ℕ)) :
    rleLoop (rleSource rle behind) rle.length w h pos lines pixels =
      rleLoop (rleSource rle behind) rle.length w h (pos + bytes.length) lines
        (pixels ++ line) := by
  induction hruns generalizing pos pixels with
  | nil => rw [List.length_nil, Nat.add_zero, List.append_nil]
  | @cons code line bytes color run hcode hrun _ ih =>
    rw [List.append_assoc] at hdrop
    rw [List.length_append, List.length_replicate] at harea
    obtain ⟨hfits, hinside⟩ : Fits w h pixels.length run ∧ Inside w h pixels.length run :=
      fits_of_le (by push_cast at harea ⊢; omega)
    rw [rleLoop]
    simp only [readCode_of_drop hcode hdrop]
    rw [if_pos ⟨lt_length_of_drop hcode hdrop, hlines⟩, if_pos ⟨hrun, hfits⟩, if_pos hinside,
      ih (drop_append hdrop) (by
        rw [List.length_append, List.length_replicate]
        push_cast at harea ⊢
        omega),
      List.length_append, List.append_assoc, Nat.add_assoc]

/-- **The end of a line** is counted where the pixels are whole lines. -/
theorem rleLoop_eol (hdrop : rle.drop pos = [0, 0] ++ rest) (hlines : lines < h) (hw : 0 < w)
    (hcount : pixels.length < 2 ^ 31) (hline : pixels.length % w = 0) :
    rleLoop (rleSource rle behind) rle.length w h pos lines pixels =
      rleLoop (rleSource rle behind) rle.length w h (pos + 2) (lines + 1) pixels := by
  have hcode : RleCode [0, 0] 0 0 := RleCode.zeros (show 0 < 64 by decide)
  have hmod : ¬ Int.tmod (asSigned 32 pixels.length) w > 0 := by
    rw [asSigned_of_lt (by omega), Int.tmod_eq_emod_of_nonneg (by omega), ← Int.natCast_mod, hline]
    exact lt_irrefl _
  rw [rleLoop]
  simp only [readCode_of_drop hcode hdrop]
  rw [if_pos ⟨lt_length_of_drop hcode hdrop, hlines⟩, if_neg (by omega), if_pos trivial,
    if_neg hw.ne', if_neg hmod]
  rfl

/-- Behind the data the decoder looks whether there are enough pixels. -/
theorem rleLoop_end (hpos : rle.length ≤ pos) :
    rleLoop (rleSource rle behind) rle.length w h pos lines pixels = ⟨pixels,
      .returned (decide ¬ asSigned 32 pixels.length < asSigned 32 (w * h : ℕ)), pos⟩ := by
  rw [rleLoop, if_neg (by omega)]
  push_cast
  rfl

/-- **The lines of an image** behind `m` lines: all pixels are written. -/
theorem rleLoop_encodes {m n : ℕ} (hw : 0 < w) (hfit : w * h < 2 ^ 31)
    (hencodes : Encodes w n image bytes) (hdrop : rle.drop pos = bytes)
    (hcount : pixels.length = m * w) (hlines : lines ≤ m) (hheight : m + n = h) :
    (rleLoop (rleSource rle behind) rle.length w h pos lines pixels).pixels = pixels ++ image ∧
      (rleLoop (rleSource rle behind) rle.length w h pos lines pixels).ending =
        .returned true := by
  have harea : asSigned 32 (w * h : ℕ) = (w * h : ℕ) := asSigned_of_lt (by omega)
  induction hencodes generalizing pos lines pixels m with
  | nil =>
    have hall : pixels.length = w * h := by rw [hcount, ← hheight, Nat.add_zero, Nat.mul_comm]
    rw [rleLoop_end (List.drop_eq_nil_iff.mp hdrop), hall, harea]
    exact ⟨(List.append_nil _).symm, by simp⟩
  | @line n line bytes eol image rest hlength hruns heol _ ih =>
    rw [List.append_assoc] at hdrop
    have hsucc : (pixels ++ line).length = (m + 1) * w := by
      rw [List.length_append, hcount, hlength, Nat.succ_mul]
    have hle : (m + 1) * w ≤ w * h := by
      rw [Nat.mul_comm w]
      exact Nat.mul_le_mul_right w (by omega)
    rw [List.length_append] at hsucc
    rw [rleLoop_runs hruns hdrop (by omega) (by rw [harea, hsucc]; exact_mod_cast hle)]
    rw [← List.length_append] at hsucc
    rw [← List.append_assoc]
    rcases heol with rfl | rfl
    · rw [rleLoop_eol (drop_append hdrop) (by omega) hw (by omega)
        (by rw [hsucc, Nat.mul_mod_left])]
      exact ih (drop_append (l := [0, 0]) (drop_append hdrop)) hsucc (by omega) (by omega)
    · exact ih (drop_append hdrop) hsucc (by omega) (by omega)

end Loop

/-! ## Sizes at which no sum overflows -/

section Small

variable {buf : Source} {size w h pos lines fuel count run : ℕ} {pixels : List UInt8}

theorem run_readCode_lt (buf : Source) (pos : ℕ) : (readCode buf pos).run < 2 ^ 14 := by
  have hlow : (buf (pos + 1) &&& 0x3f).toNat < 2 ^ 6 := by
    rw [UInt8.toNat_and]
    exact Nat.and_lt_two_pow _ (by decide)
  have hbyte : bytestreamGetByte buf (pos + 2) < 256 := (buf (pos + 2)).toNat_lt
  unfold readCode
  dsimp only
  split_ifs <;> dsimp only <;> omega

theorem fits_iff (hfit : w * h + 16383 < 2 ^ 31) (hcount : count ≤ w * h) (hrun : run < 2 ^ 14) :
    Fits w h count run ↔ count + run ≤ w * h := by
  have harea : asSigned 32 (w * h : ℕ) = (w * h : ℕ) := asSigned_of_lt (by omega)
  have hcount' : asSigned 32 count = count := asSigned_of_lt (by omega)
  have hsum : asSigned 32 (count + run : ℕ) = (count + run : ℕ) := asSigned_of_lt (by omega)
  push_cast at harea hsum
  unfold Fits
  rw [hcount', hsum, harea]
  exact_mod_cast Iff.rfl

theorem inside_of_fits (hfit : w * h + 16383 < 2 ^ 31) (hsum : count + run ≤ w * h) :
    Inside w h count run := by
  have hcount : asSigned 32 count = count := asSigned_of_lt (by omega)
  unfold Inside
  rw [hcount]
  exact ⟨Nat.cast_nonneg _, by exact_mod_cast hsum⟩

/-- **The loop of the rendering** is this loop. -/
theorem rleLoop_eq (hw : 0 < w) (hfit : w * h + 16383 < 2 ^ 31) (hcount : pixels.length ≤ w * h)
    (hfuel : size ≤ pos + fuel) : rleLoop buf size w h pos lines pixels =
      ⟨(decodeCodes buf size w h fuel pos lines pixels).pixels,
        .returned (decodeCodes buf size w h fuel pos lines pixels).ok,
        (decodeCodes buf size w h fuel pos lines pixels).reach⟩ := by
  have hpixels : asSigned 32 pixels.length = pixels.length := asSigned_of_lt (by omega)
  have harea : asSigned 32 (w * h : ℕ) = (w * h : ℕ) := asSigned_of_lt (by omega)
  have hend : decide (¬ asSigned 32 pixels.length < asSigned 32 (w * h)) =
      decide (w * h ≤ pixels.length) := by
    rw [hpixels, ← Nat.cast_mul, harea, decide_eq_decide, not_lt, Nat.cast_le]
  induction fuel generalizing pos lines pixels with
  | zero =>
    rw [rleLoop, if_neg (by omega), hend]
    rfl
  | succ fuel ih =>
    have hnext := lt_next_readCode buf pos
    have hstep : ∀ {lines pixels}, pixels.length ≤ w * h →
        rleLoop buf size w h (readCode buf pos).next lines pixels =
          ⟨(decodeCodes buf size w h fuel (readCode buf pos).next lines pixels).pixels,
            .returned (decodeCodes buf size w h fuel (readCode buf pos).next lines pixels).ok,
            (decodeCodes buf size w h fuel (readCode buf pos).next lines pixels).reach⟩ := by
      intro lines pixels hcount
      have hpixels : asSigned 32 pixels.length = pixels.length := asSigned_of_lt (by omega)
      refine ih hcount (by omega) hpixels ?_
      rw [hpixels, ← Nat.cast_mul, harea, decide_eq_decide, not_lt, Nat.cast_le]
    have hmod : Int.tmod (asSigned 32 pixels.length) w > 0 ↔ pixels.length % w > 0 := by
      rw [hpixels, Int.tmod_eq_emod_of_nonneg (by omega), ← Int.natCast_mod, gt_iff_lt, gt_iff_lt,
        Int.natCast_pos]
    rw [rleLoop, decodeCodes]
    simp only [fits_iff hfit hcount (run_readCode_lt buf pos)]
    by_cases hloop : pos < size ∧ lines < h
    · rw [if_pos hloop, if_pos hloop]
      by_cases hwrite : (readCode buf pos).run > 0 ∧
          pixels.length + (readCode buf pos).run ≤ w * h
      · rw [if_pos hwrite, if_pos hwrite, if_pos (inside_of_fits hfit hwrite.2)]
        exact hstep (by rw [List.length_append, List.length_replicate]; exact hwrite.2)
      · rw [if_neg hwrite, if_neg hwrite]
        by_cases heol : (readCode buf pos).run = 0
        · rw [if_pos heol, if_pos heol, if_neg hw.ne']
          by_cases hline : pixels.length % w > 0
          · rw [if_pos hline, if_pos (hmod.mpr hline)]
          · rw [if_neg hline, if_neg (fun h => hline (hmod.mp h))]
            exact hstep hcount
        · rw [if_neg heol, if_neg heol]
          exact hstep hcount
    · rw [if_neg hloop, if_neg hloop, hend]

/-- The decoder does not write more than the image. -/
theorem length_decodeCodes_le (hcount : pixels.length ≤ w * h) :
    (decodeCodes buf size w h fuel pos lines pixels).pixels.length ≤ w * h := by
  induction fuel generalizing pos lines pixels with
  | zero => exact hcount
  | succ fuel ih =>
    rw [decodeCodes]
    dsimp only
    split_ifs with _ hwrite
    · exact ih (by rw [List.length_append, List.length_replicate]; exact hwrite.2)
    · exact hcount
    · exact ih hcount
    · exact ih hcount
    · exact hcount

/-- It calls an image complete when all of it was written. -/
theorem le_length_decodeCodes (hok : (decodeCodes buf size w h fuel pos lines pixels).ok = true) :
    w * h ≤ (decodeCodes buf size w h fuel pos lines pixels).pixels.length := by
  induction fuel generalizing pos lines pixels with
  | zero => exact of_decide_eq_true hok
  | succ fuel ih =>
    rw [decodeCodes] at hok ⊢
    dsimp only at hok ⊢
    split_ifs at hok ⊢
    · exact ih hok
    · exact ih hok
    · exact ih hok
    · exact of_decide_eq_true hok

/-- **The decoder of the rendering** is right about sizes at which no sum overflows. -/
theorem decodeRleInt_eq {rle : List UInt8} (behind : Source) (hrle : rle ≠ []) (hw : 0 < w)
    (hfit : w * h + 16383 < 2 ^ 31) : decodeRleInt rle behind w h =
      ⟨(decodeRle rle behind w h).pixels, .returned (decodeRle rle behind w h).ok,
        (decodeRle rle behind w h).reach⟩ := by
  rw [decodeRleInt, if_neg hrle]
  exact rleLoop_eq hw hfit (Nat.zero_le _) (Nat.zero_add _).ge

end Small

/-! ## Sizes at which a sum overflows -/

section Overflow

variable {code line bytes : List UInt8} {color : UInt8} {behind : Source} {w h run : ℕ}

/-- The same code again and again. -/
theorem runs_replicate (hcode : RleCode code color run) (hrun : 0 < run) (n : ℕ) :
    Runs (List.replicate (n * run) color) (List.replicate n code).flatten := by
  induction n with
  | zero =>
    rw [Nat.zero_mul]
    exact Runs.nil
  | succ n ih =>
    rw [Nat.succ_mul, Nat.add_comm, List.replicate_add, List.replicate_succ, List.flatten_cons]
    exact Runs.cons hcode hrun ih

/-- The code of the longest run of zeros. -/
theorem rleCode_longest : RleCode [0, 0x7f, 0xff] 0 16383 :=
  RleCode.zerosLong (show 16383 < 2 ^ 14 by decide)

/-- **A run is written outside** the entries when its end is beyond the largest `int`. -/
theorem ending_outside (hruns : Runs line bytes) (hh : 0 < h) (hle : line.length ≤ w * h)
    (hlt : w * h < 2 ^ 31) (hover : 2 ^ 31 ≤ line.length + 16383) :
    (decodeRleInt (bytes ++ [0, 0x7f, 0xff]) behind w h).ending = .outside := by
  have harea : asSigned 32 (w * h : ℕ) = (w * h : ℕ) := asSigned_of_lt (by omega)
  have hcount : asSigned 32 line.length = line.length := asSigned_of_lt (by omega)
  have hsum : asSigned 32 (line.length + 16383 : ℕ) = (line.length + 16383 : ℕ) - 2 ^ 32 :=
    asSigned_of_le (by omega) (by omega)
  have hfits : Fits w h line.length 16383 := by
    unfold Fits
    rw [hcount, ← Nat.cast_mul, harea]
    push_cast at hsum ⊢
    omega
  have hinside : ¬ Inside w h line.length 16383 := by
    unfold Inside
    rw [hcount]
    push_cast
    have hlt' : (w * h : ℤ) < 2 ^ 31 := by exact_mod_cast hlt
    omega
  have hdrop : (bytes ++ [0, 0x7f, 0xff]).drop (0 + bytes.length) = [0, 0x7f, 0xff] ++ [] := by
    rw [Nat.zero_add, List.drop_left, List.append_nil]
  rw [decodeRleInt, if_neg (by simp), rleLoop_runs hruns List.drop_zero hh
    (by rw [harea, List.length_nil]; omega), List.nil_append, rleLoop]
  simp only [readCode_of_drop rleCode_longest hdrop]
  rw [if_pos ⟨lt_length_of_drop rleCode_longest hdrop, hh⟩, if_pos ⟨by decide, hfits⟩,
    if_neg hinside]

/-- **An image is called complete too early** when its area is not an `int`. -/
theorem exists_incomplete (hh : 0 < h) (harea : 2 ^ 31 ≤ w * h) :
    ∃ rle, (decodeRleInt rle behind w h).ending = .returned true ∧
      (decodeRleInt rle behind w h).pixels.length < w * h := by
  have hlt : 2 * asSigned 32 (w * h : ℕ) < 2 ^ 32 := asSigned_lt 31 _
  by_cases hpos : 0 < asSigned 32 (w * h : ℕ)
  · -- pixels up to the area of the code
    obtain ⟨n, hn⟩ := Int.eq_ofNat_of_zero_le hpos.le
    have hruns := runs_replicate (RleCode.pixel (show (1 : UInt8) ≠ 0 by decide)) Nat.one_pos n
    rw [Nat.mul_one] at hruns
    have hn' : 0 < n := by omega
    have hcount : asSigned 32 n = n := asSigned_of_lt (by omega)
    have hne : (List.replicate n [(1 : UInt8)]).flatten ≠ [] := by
      rw [← Nat.succ_pred_eq_of_pos hn', List.replicate_succ]
      simp
    refine ⟨(List.replicate n [1]).flatten, ?_⟩
    have hdrop : (List.replicate n [(1 : UInt8)]).flatten.drop 0 =
        (List.replicate n [1]).flatten ++ [] := by
      rw [List.append_nil, List.drop_zero]
    rw [decodeRleInt, if_neg hne, rleLoop_runs hruns hdrop hh (by rw [hn]; simp),
      rleLoop_end (by simp), List.nil_append]
    dsimp only
    rw [List.length_replicate, hcount, hn]
    exact ⟨by simp, by omega⟩
  · -- no pixel fits into a negative area
    have hdrop : [(1 : UInt8)].drop 0 = [1] ++ [] := rfl
    have hcode : RleCode [1] 1 1 := RleCode.pixel (by decide)
    have hfits : ¬ Fits w h 0 1 := by
      unfold Fits
      rw [← Nat.cast_mul]
      have hone : asSigned 32 (asSigned 32 (0 : ℕ) + (1 : ℕ)) = 1 := by decide
      rw [hone]
      omega
    refine ⟨[1], ?_⟩
    rw [decodeRleInt, if_neg (List.cons_ne_nil _ _), rleLoop]
    simp only [readCode_of_drop hcode hdrop]
    rw [if_pos ⟨by decide, hh⟩, if_neg (fun hwrite => hfits hwrite.2), if_neg (by decide),
      rleLoop_end (by decide)]
    refine ⟨?_, by rw [List.length_nil]; omega⟩
    have hzero : asSigned 32 ([] : List UInt8).length = 0 := by decide
    rw [hzero, decide_eq_true hpos]

end Overflow

/-! ## The sizes for which the decoder works -/

theorem ne_nil_of_encodes {w h : ℕ} {image rle : List UInt8} (hw : 0 < w) (hh : 0 < h)
    (hencodes : Encodes w h image rle) : rle ≠ [] := by
  cases hencodes with
  | nil => exact absurd rfl hh.ne'
  | line hlength hruns =>
    cases hruns with
    | nil => exact absurd hlength hw.ne
    | cons hcode =>
      intro hnil
      have hlength := congrArg List.length hnil
      have hpos := length_pos_rleCode hcode
      simp only [List.length_append, List.length_nil] at hlength
      omega

/-- **The decoder works** exactly for sizes that are not zero and at which the longest run
behind the last pixel still has an `int` as its end. -/
theorem decodesImages_iff (w h : ℕ) :
    DecodesImages w h ↔ 0 < w ∧ 0 < h ∧ w * h + 16383 < 2 ^ 31 := by
  constructor
  · intro hdecodes
    have hh : 0 < h := by
      by_contra hzero
      obtain rfl : h = 0 := by omega
      obtain ⟨-, hending⟩ := hdecodes.image [] [] (fun _ => 0) Encodes.nil
      exact Ending.noConfusion hending
    have hw : 0 < w := by
      by_contra hzero
      obtain rfl : w = 0 := by omega
      obtain ⟨ok, hending⟩ := hdecodes.returns [0, 0] (fun _ => 0) (List.cons_ne_nil _ _)
      have hcode : RleCode [0, 0] 0 0 := RleCode.zeros (show 0 < 64 by decide)
      have hdrop : [(0 : UInt8), 0].drop 0 = [0, 0] ++ [] := rfl
      rw [decodeRleInt, if_neg (List.cons_ne_nil _ _), rleLoop] at hending
      simp only [readCode_of_drop hcode hdrop] at hending
      rw [if_pos ⟨by decide, hh⟩, if_neg (by omega), if_pos trivial, if_pos trivial] at hending
      exact Ending.noConfusion hending
    refine ⟨hw, hh, ?_⟩
    by_contra hover
    rcases Nat.lt_or_ge (w * h) (2 ^ 31) with hlt | hge
    · have hruns := runs_replicate (RleCode.pixel (show (1 : UInt8) ≠ 0 by decide)) Nat.one_pos
        (w * h)
      rw [Nat.mul_one] at hruns
      exact hdecodes.inside _ (fun _ => 0) (ending_outside hruns hh (by simp) hlt (by simp; omega))
    · obtain ⟨rle, hending, hlength⟩ := exists_incomplete hh hge
      exact hlength.ne (hdecodes.complete rle (fun _ => 0) hending)
  · rintro ⟨hw, hh, hfit⟩
    constructor
    · intro image rle behind hencodes
      rw [decodeRleInt, if_neg (ne_nil_of_encodes hw hh hencodes)]
      exact rleLoop_encodes (m := 0) hw (by omega) hencodes List.drop_zero (by simp) le_rfl
        (Nat.zero_add h)
    · intro rle behind hrle
      rw [decodeRleInt_eq behind hrle hw hfit]
      exact ⟨_, rfl⟩
    · intro rle behind
      by_cases hrle : rle = []
      · rw [decodeRleInt, if_pos hrle]
        exact fun h => Ending.noConfusion h
      · rw [decodeRleInt_eq behind hrle hw hfit]
        exact fun h => Ending.noConfusion h
    · intro rle behind hending
      by_cases hrle : rle = []
      · rw [decodeRleInt, if_pos hrle] at hending
        exact Ending.noConfusion hending
      · rw [decodeRleInt_eq behind hrle hw hfit] at hending ⊢
        have hok : (decodeRle rle behind w h).ok = true := Ending.returned.inj hending
        exact le_antisymm (length_decodeCodes_le (Nat.zero_le _)) (le_length_decodeCodes hok)

/-- 131081 of the longest runs are written outside an image of 65534 by 32769 pixels. -/
theorem not_decodesImages_longRuns : ¬ DecodesImages 65534 32769 := by
  intro hdecodes
  have hruns := runs_replicate rleCode_longest (by decide) 131080
  exact hdecodes.inside _ (fun _ => 0) (ending_outside hruns (by decide)
    (by rw [List.length_replicate]; decide) (by decide) (by rw [List.length_replicate]; decide))

end Pgs
end AmlSubtitle
