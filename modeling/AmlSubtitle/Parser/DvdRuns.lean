import AmlSubtitle.Parser.DvdPixel

/-!
# The runs of a DVD bitmap

A line of a field as it is coded: runs, each with the bits of its code, one after the other.
The next line is coded from the next byte on.

* `RunCode`: a code of four, eight, twelve or sixteen bits.
* `colours`: the reference decoding of the runs of a line.
* `fieldLines_coded`: the lines that the loops decode are those.
-/

namespace AmlSubtitle
namespace Dvd

open Dvb (Source)
open Bits

/-! ## Codes -/

/-- A run as it is coded: the bits of its code, its length, which is 0 for a run to the end of the
line, and its colour. -/
structure RunCode where
  bits : ℕ
  length : ℕ
  colour : ℕ
  coded : bits = 4 ∧ 1 ≤ length ∧ length < 4 ∨ bits = 8 ∧ 4 ≤ length ∧ length < 16 ∨
    bits = 12 ∧ 16 ≤ length ∧ length < 64 ∨ bits = 16 ∧ length < 256
  colour_lt : colour < 4

/-- The code. -/
def RunCode.field (run : RunCode) : Field := (run.bits, 4 * run.length + run.colour)

/-- The pixels of a run, in a line of which `done` pixels are there. -/
def RunCode.pixels (run : RunCode) (width done : ℕ) : ℕ :=
  if run.length = 0 then width - done else run.length

/-- A code is read with its bits, its length and its colour. -/
theorem RunCode.code_eq (run : RunCode) {data : Source} {i : ℕ}
    (h : bitsAt data i run.bits = 4 * run.length + run.colour) :
    codeBits data i = run.bits ∧ codeLength data i = run.length ∧
      codeColour data i = run.colour := by
  obtain ⟨bits, length, colour, hcoded, hcolour⟩ := run
  dsimp only at h ⊢
  have hbits : codeBits data i = bits := by
    unfold codeBits
    rcases hcoded with ⟨rfl, _, _⟩ | ⟨rfl, _, _⟩ | ⟨rfl, _, _⟩ | ⟨rfl, _⟩
    · rw [if_pos (by omega)]
    · have hfour : bitsAt data i 4 = bitsAt data i 8 / 2 ^ 4 := bitsAt_take data i 4 4
      rw [if_neg (by omega), if_pos (by omega)]
    · have hfour : bitsAt data i 4 = bitsAt data i 12 / 2 ^ 8 := bitsAt_take data i 4 8
      have height : bitsAt data i 8 = bitsAt data i 12 / 2 ^ 4 := bitsAt_take data i 8 4
      rw [if_neg (by omega), if_neg (by omega), if_pos (by omega)]
    · have hfour : bitsAt data i 4 = bitsAt data i 16 / 2 ^ 12 := bitsAt_take data i 4 12
      have height : bitsAt data i 8 = bitsAt data i 16 / 2 ^ 8 := bitsAt_take data i 8 8
      have htwelve : bitsAt data i 12 = bitsAt data i 16 / 2 ^ 4 := bitsAt_take data i 12 4
      rw [if_neg (by omega), if_neg (by omega), if_neg (by omega)]
  rw [codeLength, codeColour, hbits, h]
  exact ⟨rfl, by omega, by omega⟩

/-! ## Lines -/

/-- The colours of the pixels of a line, run after run, behind the first `done`. -/
def colours (width : ℕ) : ℕ → List RunCode → List ℕ
  | _, [] => []
  | done, run :: runs =>
    List.replicate (run.pixels width done) run.colour ++
      colours width (done + run.pixels width done) runs

/-- The runs end with the line, and none starts behind its end. -/
def Fills (width : ℕ) : ℕ → List RunCode → Prop
  | done, [] => done = width
  | done, run :: runs => done < width ∧ Fills width (done + run.pixels width done) runs

section Lines

variable {width done : ℕ} {run : RunCode} {runs : List RunCode}

theorem RunCode.pixels_pos (run : RunCode) (h : done < width) : 0 < run.pixels width done := by
  unfold RunCode.pixels
  split_ifs <;> omega

theorem Fills.length_colours (h : Fills width done runs) :
    done + (colours width done runs).length = width := by
  induction runs generalizing done with
  | nil =>
    have hdone : done = width := h
    simpa [colours] using hdone
  | cons run runs ih =>
    rw [colours, List.length_append, List.length_replicate, ← Nat.add_assoc]
    exact ih h.2

theorem mem_colours_lt {colour : ℕ} (h : colour ∈ colours width done runs) : colour < 4 := by
  induction runs generalizing done with
  | nil => simp [colours] at h
  | cons run runs ih =>
    rw [colours, List.mem_append] at h
    rcases h with hfirst | hrest
    · rw [List.eq_of_mem_replicate hfirst]
      exact run.colour_lt
    · exact ih hrest

/-- The pixels of a coded line are those of its runs. -/
theorem linePixels_coded {data : Source} {i fuel : ℕ} (hfills : Fills width done runs)
    (hcoded : HasFields data i (runs.map RunCode.field)) (hfuel : width ≤ done + fuel) :
    linePixels data width fuel i done =
      (colours width done runs, i + Bits.width (runs.map RunCode.field)) := by
  induction runs generalizing i done fuel with
  | nil =>
    have hdone : ¬ done < width := by
      have : done = width := hfills
      omega
    cases fuel with
    | zero => simp [linePixels, colours]
    | succ fuel => simp [linePixels, colours, hdone]
  | cons run runs ih =>
    obtain ⟨hdone, hrest⟩ := hfills
    obtain ⟨hfirst, hcodes⟩ := hcoded
    obtain ⟨hbits, hlength, hcolour⟩ := run.code_eq hfirst
    have hpos := run.pixels_pos hdone
    have hpixels : runPixels data width i done = run.pixels width done := by
      rw [runPixels, hlength, RunCode.pixels]
    cases fuel with
    | zero => omega
    | succ fuel =>
      have hline : linePixels data width fuel (i + run.bits) (done + run.pixels width done) = _ :=
        ih hrest hcodes (by omega)
      rw [linePixels, if_pos hdone]
      dsimp only
      rw [hpixels, hbits, hcolour, hline, colours, List.map_cons, Bits.width_cons,
        ← Nat.add_assoc]
      rfl

end Lines

/-! ## Fields -/

/-- The lines of a field are coded from bit `i` on, each from the start of a byte. -/
def FieldCoded (data : Source) (width : ℕ) : ℕ → List (List RunCode) → Prop
  | _, [] => True
  | i, runs :: lines => Fills width 0 runs ∧ HasFields data i (runs.map RunCode.field) ∧
      FieldCoded data width (roundUp 8 (i + Bits.width (runs.map RunCode.field))) lines

theorem FieldCoded.fills {data : Source} {width i : ℕ} {lines : List (List RunCode)}
    (h : FieldCoded data width i lines) : ∀ runs ∈ lines, Fills width 0 runs := by
  induction lines generalizing i with
  | nil => simp
  | cons runs lines ih => exact List.forall_mem_cons.mpr ⟨h.1, ih h.2.2⟩

/-- **The lines of a coded field.**  There may be more of them than the loop decodes. -/
theorem fieldLines_coded {data : Source} {width i : ℕ} {lines : List (List RunCode)}
    (h : FieldCoded data width i lines) {n : ℕ} (hn : n ≤ lines.length) :
    fieldLines data width n i 0 = (lines.take n).map (colours width 0) := by
  induction n generalizing i lines with
  | zero => rfl
  | succ n ih =>
    cases lines with
    | nil => simp at hn
    | cons runs lines =>
      obtain ⟨hfills, hcoded, hrest⟩ := h
      have hlength := hfills.length_colours
      have hdone : 0 + (colours width 0 runs).length - width = 0 := by omega
      rw [fieldLines, linePixels_coded hfills hcoded (by simp)]
      dsimp only
      rw [hdone, ih hrest (Nat.le_of_succ_le_succ hn)]
      rfl

end Dvd
end AmlSubtitle
