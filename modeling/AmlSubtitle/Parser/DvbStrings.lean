import AmlSubtitle.Lib.Bits
import AmlSubtitle.Parser.DvbPixel

/-!
# The pixels of a string

What the readers of 2-, 4- and 8-bit pixel strings make of the codes of a line.

* `PixelSyntax.Code`: the codes of the three syntaxes, as fields of bits; `StringAt`: a string of
  them in the data, with its end code.
* `read_string`: a reader stores the codes of the string one after the other.
* `described`: the pixels that the codes describe, none for one of the non-modifying colour.
* `storesLine_iff`: when they come to their columns.
-/

namespace AmlSubtitle
namespace Dvb

open Bits GetBitContext

/-! ## Codes in the data -/

/-- A code of a 2-bit string.  A value that its width has no room for is nowhere in the data. -/
inductive Code2 : PixelCode → List Field → Prop
  | pixel {b : ℕ} (hb : b ≠ 0) : Code2 (.pixel b) [(2, b)]
  | run3 (n c : ℕ) : Code2 (.run (n + 3) c) [(2, 0), (1, 1), (3, n), (2, c)]
  | one : Code2 .one [(2, 0), (1, 0), (1, 1)]
  | stop : Code2 .stop [(2, 0), (1, 0), (1, 0), (2, 0)]
  | two : Code2 .two [(2, 0), (1, 0), (1, 0), (2, 1)]
  | run12 (n c : ℕ) : Code2 (.run (n + 12) c) [(2, 0), (1, 0), (1, 0), (2, 2), (4, n), (2, c)]
  | run29 (n c : ℕ) : Code2 (.run (n + 29) c) [(2, 0), (1, 0), (1, 0), (2, 3), (8, n), (2, c)]

/-- A code of a 4-bit string. -/
inductive Code4 : PixelCode → List Field → Prop
  | pixel {b : ℕ} (hb : b ≠ 0) : Code4 (.pixel b) [(4, b)]
  | stop : Code4 .stop [(4, 0), (1, 0), (3, 0)]
  | zeros {n : ℕ} (hn : n ≠ 0) : Code4 (.zeros (n + 2)) [(4, 0), (1, 0), (3, n)]
  | run4 (n c : ℕ) : Code4 (.run (n + 4) c) [(4, 0), (1, 1), (1, 0), (2, n), (4, c)]
  | one : Code4 .one [(4, 0), (1, 1), (1, 1), (2, 0)]
  | two : Code4 .two [(4, 0), (1, 1), (1, 1), (2, 1)]
  | run9 (n c : ℕ) : Code4 (.run (n + 9) c) [(4, 0), (1, 1), (1, 1), (2, 2), (4, n), (4, c)]
  | run25 (n c : ℕ) : Code4 (.run (n + 25) c) [(4, 0), (1, 1), (1, 1), (2, 3), (8, n), (4, c)]

/-- A code of an 8-bit string. -/
inductive Code8 : PixelCode → List Field → Prop
  | pixel {b : ℕ} (hb : b ≠ 0) : Code8 (.pixel b) [(8, b)]
  | stop : Code8 .stop [(8, 0), (1, 0), (7, 0)]
  | zeros {n : ℕ} (hn : n ≠ 0) : Code8 (.zeros n) [(8, 0), (1, 0), (7, n)]
  | run (n c : ℕ) : Code8 (.byteRun n c) [(8, 0), (1, 1), (7, n), (8, c)]

/-- The three kinds of strings. -/
inductive PixelSyntax where
  | bits2
  | bits4
  | bits8
  deriving DecidableEq, Repr

namespace PixelSyntax

def Code : PixelSyntax → PixelCode → List Field → Prop
  | bits2 => Code2
  | bits4 => Code4
  | bits8 => Code8

/-- The function that reads a string. -/
def read : PixelSyntax → ℕ → Source → ℕ → ℕ → ℕ → Option (List UInt8) → Line × ℕ
  | bits2 => dvbsubRead2bitString
  | bits4 => dvbsubRead4bitString
  | bits8 => dvbsubRead8bitString

end PixelSyntax

/-- A string from a bit on: codes, and an end code, or no bit left before bit `e`. -/
inductive StringAt (Code : PixelCode → List Field → Prop) (s : Source) (e : ℕ) :
    ℕ → List PixelCode → Prop
  | stop {i : ℕ} {fields : List Field} (hcode : Code .stop fields)
      (hfields : HasFields s i fields) (hfits : i + width fields ≤ e) : StringAt Code s e i []
  | usedUp {i : ℕ} (hend : e ≤ i) : StringAt Code s e i []
  | code {i : ℕ} {code : PixelCode} {fields : List Field} {codes : List PixelCode}
      (hnot : code ≠ .stop) (hcode : Code code fields) (hfields : HasFields s i fields)
      (hfits : i + width fields ≤ e) (hrest : StringAt Code s e (i + width fields) codes) :
      StringAt Code s e i (code :: codes)

/-! ## Reading a code -/

/-- The bit of the source at which the reader stands. -/
def GetBitContext.pos (gb : GetBitContext) : ℕ := 8 * gb.start + gb.index

/-- The reader `n` bits on. -/
def GetBitContext.skip (gb : GetBitContext) (n : ℕ) : GetBitContext :=
  { gb with index := gb.index + n }

section Bits

variable (gb : GetBitContext) (n m : ℕ)

@[simp] theorem buffer_skip : (gb.skip n).buffer = gb.buffer := rfl

@[simp] theorem index_skip : (gb.skip n).index = gb.index + n := rfl

@[simp] theorem pos_skip : (gb.skip n).pos = gb.pos + n := (Nat.add_assoc _ _ _).symm

@[simp] theorem skip_skip : (gb.skip n).skip m = gb.skip (n + m) := by
  simp [GetBitContext.skip, Nat.add_assoc]

theorem start_add : gb.start + gb.index >>> 3 = gb.pos / 8 := by
  rw [GetBitContext.pos, Nat.shiftRight_eq_div_pow]
  omega

theorem index_and_seven : gb.index &&& 7 = gb.pos % 8 := by
  rw [GetBitContext.pos, show 7 = 2 ^ 3 - 1 from rfl, Nat.and_two_pow_sub_one_eq_mod]
  omega

/-- **`get_bits` gives the field at the reader's place.** -/
theorem getBits_eq (hn : n ≤ 25) : gb.getBits n = (bitsAt gb.buffer gb.pos n, gb.skip n) := by
  rw [getBits, start_add, index_and_seven, AV_RB32, bitsAt_word gb.buffer gb.pos hn]
  rfl

theorem getBits1_eq : gb.getBits1 = (bitsAt gb.buffer gb.pos 1, gb.skip 1) := by
  rw [getBits1, start_add, index_and_seven, bitsAt_one]
  rfl

end Bits

/-- A code of a 2-bit string is read. -/
theorem readCode2_eq {gb : GetBitContext} {code : PixelCode} {fields : List Field}
    (hcode : Code2 code fields) (hfields : HasFields gb.buffer gb.pos fields) :
    readCode2 gb = (code, gb.skip (width fields)) := by
  unfold readCode2
  simp only [getBits_eq _ _ (show 2 ≤ 25 by decide), getBits_eq _ _ (show 3 ≤ 25 by decide),
    getBits_eq _ _ (show 4 ≤ 25 by decide), getBits_eq _ _ (show 8 ≤ 25 by decide), getBits1_eq,
    buffer_skip, pos_skip, skip_skip]
  cases hcode with
  | pixel hb =>
    simp at hfields
    simp [hfields, hb]
  | _ =>
    simp [Nat.add_assoc] at hfields
    simp [hfields]

/-- A code of a 4-bit string is read. -/
theorem readCode4_eq {gb : GetBitContext} {code : PixelCode} {fields : List Field}
    (hcode : Code4 code fields) (hfields : HasFields gb.buffer gb.pos fields) :
    readCode4 gb = (code, gb.skip (width fields)) := by
  unfold readCode4
  simp only [getBits_eq _ _ (show 2 ≤ 25 by decide), getBits_eq _ _ (show 3 ≤ 25 by decide),
    getBits_eq _ _ (show 4 ≤ 25 by decide), getBits_eq _ _ (show 8 ≤ 25 by decide), getBits1_eq,
    buffer_skip, pos_skip, skip_skip]
  cases hcode with
  | pixel hb =>
    simp at hfields
    simp [hfields, hb]
  | zeros hn =>
    simp [Nat.add_assoc] at hfields
    simp [hfields, hn]
  | _ =>
    simp [Nat.add_assoc] at hfields
    simp [hfields]

/-- The second byte of an 8-bit code: a switch and a length. -/
theorem byte_fields {s : Source} {k v n : ℕ} (hswitch : bitsAt s (8 * k) 1 = v)
    (hlength : bitsAt s (8 * k + 1) 7 = n) :
    (s k).toNat &&& 0x7f = n ∧ ((s k).toNat &&& 0x80 = 0 ↔ v = 0) := by
  have hbyte : (s k).toNat = v * 128 + n := by
    have hadd := bitsAt_add s (8 * k) 1 7
    rw [hswitch, hlength] at hadd
    rw [← bitsAt_byte]
    exact hadd
  have hn : n < 2 ^ 7 := hlength ▸ bitsAt_lt s _ 7
  have hv : v < 2 ^ 1 := hswitch ▸ bitsAt_lt s _ 1
  have hhigh : ∀ b < 256, b &&& 0x80 = 0 ↔ b < 128 := by decide +kernel
  rw [show 0x7f = 2 ^ 7 - 1 from rfl, Nat.and_two_pow_sub_one_eq_mod, hhigh _ (s k).toNat_lt, hbyte]
  omega

/-- A code of an 8-bit string is read. -/
theorem readCode8_eq {s : Source} {src : ℕ} {code : PixelCode} {fields : List Field}
    (hcode : Code8 code fields) (hfields : HasFields s (8 * src) fields) :
    (readCode8 s src).1 = code ∧ 8 * (readCode8 s src).2 = 8 * src + width fields := by
  unfold readCode8
  cases hcode with
  | pixel hne =>
    simp only [hasFields_cons, bitsAt_byte] at hfields
    simp [hfields, hne]
    omega
  | run n c =>
    simp only [hasFields_cons, bitsAt_byte] at hfields
    obtain ⟨hfirst, hswitch, hlength, hcolour, -⟩ := hfields
    obtain ⟨hmask, hhigh⟩ := byte_fields (k := src + 1) hswitch hlength
    have hc : (s (src + 2)).toNat = c := (bitsAt_byte s (src + 2)).symm.trans hcolour
    simp [hfirst, hmask, hhigh, hc]
    omega
  | stop =>
    simp only [hasFields_cons, bitsAt_byte] at hfields
    obtain ⟨hfirst, hswitch, hlength, -⟩ := hfields
    obtain ⟨hmask, hhigh⟩ := byte_fields (k := src + 1) hswitch hlength
    simp [hfirst, hmask, hhigh]
    omega
  | zeros hne =>
    simp only [hasFields_cons, bitsAt_byte] at hfields
    obtain ⟨hfirst, hswitch, hlength, -⟩ := hfields
    obtain ⟨hmask, hhigh⟩ := byte_fields (k := src + 1) hswitch hlength
    simp [hfirst, hmask, hhigh, hne]
    omega

/-! ## Reading a string -/

/-- The codes of a line are stored one after the other, as long as there is room. -/
def paintAll (dbufLen nonMod : ℕ) (mapTable : Option (List UInt8)) : Line → List PixelCode → Line
  | line, [] => line
  | line, code :: codes =>
    if line.pixelsReads < dbufLen then
      paintAll dbufLen nonMod mapTable (paint dbufLen nonMod mapTable line code) codes
    else
      line

section Reader

variable {Code : PixelCode → List Field → Prop} {s : Source} {i e dbufLen nonMod : ℕ}
  {mapTable : Option (List UInt8)} {codes : List PixelCode}

/-- A string of codes that take `w` bits or more. -/
theorem StringAt.length_le {w : ℕ} (hwidth : ∀ code fields, Code code fields → w ≤ width fields)
    (h : StringAt Code s e i codes) (hi : i ≤ e) : i + w * codes.length ≤ e := by
  induction h with
  | stop hcode hfields hfits => simpa using hi
  | usedUp hend => simpa using hi
  | code hnot hcode hfields hfits hrest ih =>
    have hw := hwidth _ _ hcode
    have hle := ih hfits
    rw [List.length_cons, Nat.mul_succ]
    omega

/-- **A reader** that stands at the string and reads its codes stores them one after the
other. -/
theorem paintCodes_string {ρ : Type*} {readCode : ρ → PixelCode × ρ} {more : ρ → Bool}
    {At : ρ → ℕ → Prop}
    (hread : ∀ {r i code fields}, At r i → Code code fields → HasFields s i fields →
      (readCode r).1 = code ∧ At (readCode r).2 (i + width fields))
    (hmore : ∀ {r i}, At r i → (more r ↔ i < e))
    (hwidth : ∀ code fields, Code code fields → 0 < width fields)
    (h : StringAt Code s e i codes) {r : ρ} (hr : At r i) {fuel : ℕ}
    (hfuel : codes.length ≤ fuel) (line : Line) :
    (paintCodes readCode more dbufLen nonMod mapTable fuel r line).2.2 =
      paintAll dbufLen nonMod mapTable line codes := by
  induction h generalizing r fuel line with
  | stop hcode hfields hfits =>
    cases fuel with
    | zero => rfl
    | succ fuel =>
      rw [paintCodes, if_pos (hread hr hcode hfields).1]
      split_ifs <;> rfl
  | usedUp hend =>
    cases fuel with
    | zero => rfl
    | succ fuel =>
      have hused : ¬ more r := fun h => absurd ((hmore hr).mp h) (by omega)
      rw [paintCodes, if_neg fun hboth => hused hboth.1]
      rfl
  | code hnot hcode hfields hfits hrest ih =>
    obtain ⟨fuel, rfl⟩ : ∃ f, fuel = f + 1 :=
      ⟨fuel - 1, by rw [List.length_cons] at hfuel; omega⟩
    have hpos := hwidth _ _ hcode
    obtain ⟨hone, hnext⟩ := hread hr hcode hfields
    rw [paintCodes, paintAll, hone, if_neg hnot]
    by_cases hroom : line.pixelsReads < dbufLen
    · rw [if_pos ⟨(hmore hr).mpr (by omega), hroom⟩, if_pos hroom]
      rw [List.length_cons] at hfuel
      exact ih hnext (by omega) _
    · rw [if_neg fun hboth => hroom hboth.2, if_neg hroom]

end Reader

/-- Every code takes bits. -/
theorem PixelSyntax.width_pos (syn : PixelSyntax) {code : PixelCode} {fields : List Field}
    (h : syn.Code code fields) : 0 < width fields := by
  cases syn <;> cases h <;> simp

/-- **The line of a string**: the codes of the string, one after the other. -/
theorem PixelSyntax.read_string (syn : PixelSyntax) {s : Source} {src bufSize : ℕ}
    {codes : List PixelCode} (h : StringAt syn.Code s (8 * (src + bufSize)) (8 * src) codes)
    (dbufLen nonMod : ℕ) (mapTable : Option (List UInt8)) :
    (syn.read dbufLen s src bufSize nonMod mapTable).1 =
      paintAll dbufLen nonMod mapTable ⟨0, []⟩ codes := by
  have hbits : ∀ (readCode : GetBitContext → PixelCode × GetBitContext)
      (Code : PixelCode → List Field → Prop) (lineEnd : ℕ),
      (∀ {gb code fields}, Code code fields → HasFields gb.buffer gb.pos fields →
        readCode gb = (code, gb.skip (width fields))) →
      (∀ code fields, Code code fields → 0 < width fields) →
      StringAt Code s (8 * (src + bufSize)) (8 * src) codes →
      (readBitString readCode lineEnd dbufLen s src bufSize nonMod mapTable).1 =
        paintAll dbufLen nonMod mapTable ⟨0, []⟩ codes := by
    intro readCode Code lineEnd hread hwidth h
    refine @paintCodes_string Code s _ _ dbufLen nonMod mapTable codes _ readCode _
      (fun gb i => gb.buffer = s ∧ gb.start = src ∧ gb.pos = i)
      ?_ ?_ hwidth h _ ⟨rfl, rfl, rfl⟩ _ ?_ ⟨0, []⟩
    · rintro gb i code fields ⟨rfl, hstart, rfl⟩ hcode hfields
      rw [hread hcode hfields]
      exact ⟨rfl, rfl, hstart, pos_skip gb _⟩
    · rintro gb i ⟨-, hstart, hpos⟩
      rw [GetBitContext.pos, hstart] at hpos
      rw [decide_eq_true_eq, Nat.shiftLeft_eq]
      omega
    · have hlength := h.length_le hwidth (by omega)
      rw [Nat.shiftLeft_eq]
      omega
  cases syn with
  | bits2 => exact hbits readCode2 Code2 6 readCode2_eq (fun _ _ => width_pos .bits2) h
  | bits4 => exact hbits readCode4 Code4 8 readCode4_eq (fun _ _ => width_pos .bits4) h
  | bits8 =>
    refine @paintCodes_string Code8 s _ _ dbufLen nonMod mapTable codes _ _ _
      (fun pos i => 8 * pos = i) ?_ ?_ (fun _ _ => width_pos .bits8) h _ rfl _ ?_ ⟨0, []⟩
    · rintro pos i code fields rfl hcode hfields
      exact readCode8_eq hcode hfields
    · rintro pos i rfl
      rw [decide_eq_true_eq]
      omega
    · have hlength := h.length_le (w := 8) (fun code fields hcode => by
        cases hcode <;> simp) (by omega)
      omega

/-! ## The pixels of a line -/

section Pixels

variable (nonMod : ℕ) (mapTable : Option (List UInt8))

/-- A pixel: what is to be stored, or none for the non-modifying colour. -/
def pixelOf (bits : ℕ) : Option UInt8 :=
  if nonMod = 1 ∧ bits = 1 then none else some (mapped mapTable bits)

/-- The pixels that a code describes. -/
def PixelCode.pixels : PixelCode → List (Option UInt8)
  | .pixel bits => [pixelOf nonMod mapTable bits]
  | .run runLen bits => List.replicate runLen (pixelOf nonMod mapTable bits)
  | .byteRun runLen bits => List.replicate runLen (pixelOf nonMod mapTable bits)
  | .zeros runLen => List.replicate runLen (some (mapped mapTable 0))
  | .one => [some (mapped mapTable 0)]
  | .two => [some (mapped mapTable 0), some (mapped mapTable 0)]
  | .stop => []

/-- The line that codes describe. -/
def described (codes : List PixelCode) : List (Option UInt8) :=
  codes.flatMap (PixelCode.pixels nonMod mapTable)

/-- The pixels come to their columns, within the width; a pixel of the non-modifying colour
leaves its column as it is; and the pixels are counted. -/
structure StoresLine (dbufLen : ℕ) (pixels : List (Option UInt8)) (line : Line) : Prop where
  count : line.pixelsReads = pixels.length
  columns : ∀ k < dbufLen, line.stored[k]? = pixels[k]?.join

/-- A code has the non-modifying colour. -/
def PixelCode.NonModifying : PixelCode → Prop
  | .pixel bits => nonMod = 1 ∧ bits = 1
  | .run _ bits => nonMod = 1 ∧ bits = 1
  | .byteRun _ bits => nonMod = 1 ∧ bits = 1
  | _ => False

instance (code : PixelCode) : Decidable (code.NonModifying nonMod) := by
  cases code <;> (unfold PixelCode.NonModifying; infer_instance)

/-- What the line before a code, and the code, must be for the code's pixels to come to their
columns. -/
structure CodeFits (dbufLen : ℕ) (before : List (Option UInt8)) (code : PixelCode) : Prop where
  -- the line is not yet full
  room : before.length < dbufLen
  -- what goes over the end of the line is cut off and not counted, or not stored
  whole : code.NonModifying nonMod ∨
    before.length + (code.pixels nonMod mapTable).length ≤ dbufLen
  -- `destbuf` does not move over a pixel of the non-modifying colour
  order : code.NonModifying nonMod ∨ none ∉ before
  -- a run of an 8-bit string is counted and stored, and is not stored through a table
  bytes : ∀ runLen bits, code = .byteRun runLen bits →
    (mapTable.isSome → code.NonModifying nonMod) ∧
      (mapTable.isNone → code.NonModifying nonMod → dbufLen ≤ before.length + runLen)

/-- Every code with pixels is such, behind the codes before it. -/
def CodesFit (dbufLen : ℕ) (codes : List PixelCode) : Prop :=
  ∀ before code after, codes = before ++ code :: after → code.pixels nonMod mapTable ≠ [] →
    CodeFits nonMod mapTable dbufLen (described nonMod mapTable before) code

end Pixels

section Line

variable {dbufLen nonMod : ℕ} {mapTable : Option (List UInt8)} {line : Line} {code : PixelCode}
  {before : List (Option UInt8)} {codes : List PixelCode}

/-- A run stores what there is room for. -/
theorem putRun_eq (v : UInt8) (n : ℕ) (line : Line) :
    line.putRun dbufLen v n =
      { pixelsReads := line.pixelsReads + min n (dbufLen - line.pixelsReads)
        stored := line.stored ++ List.replicate (min n (dbufLen - line.pixelsReads)) v } := by
  induction n generalizing line with
  | zero => simp [Line.putRun]
  | succ n ih =>
    rw [Line.putRun]
    split_ifs with hroom
    · have hmin : min (n + 1) (dbufLen - line.pixelsReads) =
          min n (dbufLen - (line.pixelsReads + 1)) + 1 := by omega
      rw [ih, hmin, List.replicate_succ, Line.put]
      simp
      omega
    · have hmin : min (n + 1) (dbufLen - line.pixelsReads) = 0 := by omega
      simp [hmin]

/-- A code of another colour is a run of it; two pixels that do not both fit are counted. -/
theorem paint_modifying (hroom : line.pixelsReads < dbufLen) (hmod : ¬ code.NonModifying nonMod)
    (hbytes : ∀ runLen bits, code = .byteRun runLen bits → mapTable = none) :
    ∃ v n, code.pixels nonMod mapTable = List.replicate n (some v) ∧
      (paint dbufLen nonMod mapTable line code = line.putRun dbufLen v n ∨
        (n = 2 ∧ dbufLen < line.pixelsReads + 2 ∧
          paint dbufLen nonMod mapTable line code =
            { line with pixelsReads := line.pixelsReads + 2 })) := by
  have hone : ∀ v, line.put v = line.putRun dbufLen v 1 := by
    intro v
    rw [Line.putRun, if_pos hroom, Line.putRun]
  cases code with
  | pixel bits =>
    refine ⟨mapped mapTable bits, 1, ?_, .inl ?_⟩
    · rw [PixelCode.pixels, pixelOf, if_neg (by exact hmod)]
      rfl
    · rw [paint, if_pos (by exact not_and_or.mp hmod), hone]
  | run runLen bits =>
    refine ⟨mapped mapTable bits, runLen, ?_, .inl ?_⟩
    · rw [PixelCode.pixels, pixelOf, if_neg (by exact hmod)]
    · rw [paint, if_neg (by exact hmod)]
  | byteRun runLen bits =>
    obtain rfl := hbytes runLen bits rfl
    have hcolour : ¬ (nonMod = 1 ∧ bits = 1) := hmod
    refine ⟨mapped none bits, runLen, ?_, .inl ?_⟩
    · rw [PixelCode.pixels, pixelOf, if_neg hcolour]
    · rw [paint, if_neg hcolour]
      rfl
  | zeros runLen => exact ⟨mapped mapTable 0, runLen, rfl, .inl rfl⟩
  | one => exact ⟨mapped mapTable 0, 1, rfl, .inl (hone _)⟩
  | two =>
    refine ⟨mapped mapTable 0, 2, rfl, ?_⟩
    rw [paint]
    split_ifs with hfits
    · refine .inl ?_
      rw [Line.putRun, if_pos hroom, Line.putRun, if_pos (by exact hfits), Line.putRun]
    · exact .inr ⟨rfl, by omega, rfl⟩
  | stop => exact ⟨0, 0, rfl, .inl rfl⟩

/-- A code of the non-modifying colour is counted; a run of an 8-bit string is stored too. -/
theorem paint_nonModifying (hnon : code.NonModifying nonMod) :
    ∃ n, code.pixels nonMod mapTable = List.replicate n none ∧
      (paint dbufLen nonMod mapTable line code =
          { line with pixelsReads := line.pixelsReads + n } ∨
        ∃ bits, code = .byteRun n bits ∧ mapTable = none ∧
          paint dbufLen nonMod mapTable line code =
            Line.putRun dbufLen (mapped none bits) n
              { line with pixelsReads := line.pixelsReads + n }) := by
  cases code with
  | pixel bits =>
    refine ⟨1, ?_, .inl ?_⟩
    · rw [PixelCode.pixels, pixelOf, if_pos (by exact hnon)]
      rfl
    · rw [paint, if_neg fun h => h.elim (absurd hnon.1) (absurd hnon.2)]
  | run runLen bits =>
    refine ⟨runLen, ?_, .inl ?_⟩
    · rw [PixelCode.pixels, pixelOf, if_pos (by exact hnon)]
    · rw [paint, if_pos (by exact hnon)]
  | byteRun runLen bits =>
    have hcolour : nonMod = 1 ∧ bits = 1 := hnon
    refine ⟨runLen, ?_, ?_⟩
    · rw [PixelCode.pixels, pixelOf, if_pos hcolour]
    · rw [paint, if_pos hcolour]
      cases mapTable with
      | none => exact .inr ⟨bits, rfl, rfl, rfl⟩
      | some table => exact .inl rfl
  | zeros runLen => exact hnon.elim
  | one => exact hnon.elim
  | two => exact hnon.elim
  | stop => exact hnon.elim

/-- A code without pixels changes nothing. -/
theorem paint_of_pixels_nil (h : code.pixels nonMod mapTable = []) :
    paint dbufLen nonMod mapTable line code = line := by
  cases code with
  | pixel bits => simp [PixelCode.pixels] at h
  | run runLen bits =>
    obtain rfl : runLen = 0 := by simpa [PixelCode.pixels] using h
    rw [paint]
    split_ifs <;> rfl
  | byteRun runLen bits =>
    obtain rfl : runLen = 0 := by simpa [PixelCode.pixels] using h
    rw [paint]
    split_ifs <;> rfl
  | zeros runLen =>
    obtain rfl : runLen = 0 := by simpa [PixelCode.pixels] using h
    rfl
  | one => simp [PixelCode.pixels] at h
  | two => simp [PixelCode.pixels] at h
  | stop => rfl

/-- A run of an 8-bit string is not stored through a table. -/
theorem paint_byteRun_table {runLen bits : ℕ} (htable : mapTable.isSome)
    (hmod : ¬ (PixelCode.byteRun runLen bits).NonModifying nonMod) :
    paint dbufLen nonMod mapTable line (.byteRun runLen bits) = line := by
  have hcolour : ¬ (nonMod = 1 ∧ bits = 1) := hmod
  rw [paint, if_neg hcolour, if_neg (by simpa using Option.isSome_iff_ne_none.mp htable)]

/-- What is stored stays stored. -/
theorem stored_paint (line : Line) (code : PixelCode) :
    line.stored <+: (paint dbufLen nonMod mapTable line code).stored := by
  have hrun : ∀ v n (l : Line), l.stored = line.stored →
      line.stored <+: (l.putRun dbufLen v n).stored := by
    intro v n l hl
    rw [putRun_eq, hl]
    exact List.prefix_append _ _
  cases code with
  | pixel bits =>
    rw [paint]
    split_ifs
    · exact List.prefix_append _ _
    · exact List.prefix_rfl
  | run runLen bits =>
    rw [paint]
    split_ifs
    · exact List.prefix_rfl
    · exact hrun _ _ _ rfl
  | byteRun runLen bits =>
    rw [paint]
    split_ifs
    · exact hrun _ _ _ rfl
    · exact hrun _ _ _ rfl
    · exact List.prefix_rfl
    · exact List.prefix_rfl
  | zeros runLen => exact hrun _ _ _ rfl
  | one => exact List.prefix_append _ _
  | two =>
    rw [paint]
    split_ifs
    · exact (List.prefix_append _ _).trans (List.prefix_append _ _)
    · exact List.prefix_rfl
  | stop => exact List.prefix_rfl

theorem stored_paintAll (line : Line) (codes : List PixelCode) :
    line.stored <+: (paintAll dbufLen nonMod mapTable line codes).stored := by
  induction codes generalizing line with
  | nil => exact List.prefix_rfl
  | cons code codes ih =>
    rw [paintAll]
    split_ifs
    · exact (stored_paint line code).trans (ih _)
    · exact List.prefix_rfl

theorem described_cons (code : PixelCode) (codes : List PixelCode) :
    described nonMod mapTable (code :: codes) =
      code.pixels nonMod mapTable ++ described nonMod mapTable codes := List.flatMap_cons

/-- Through a table no more pixels are counted than there are. -/
theorem pixelsReads_paintAll (htable : mapTable.isSome) (line : Line) (codes : List PixelCode) :
    (paintAll dbufLen nonMod mapTable line codes).pixelsReads ≤
      line.pixelsReads + (described nonMod mapTable codes).length := by
  induction codes generalizing line with
  | nil => exact Nat.le_add_right _ _
  | cons code codes ih =>
    have hcode : line.pixelsReads < dbufLen →
        (paint dbufLen nonMod mapTable line code).pixelsReads ≤
          line.pixelsReads + (code.pixels nonMod mapTable).length := by
      intro hroom
      by_cases hnon : code.NonModifying nonMod
      · obtain ⟨n, hpixels, hpaint | ⟨bits, -, hnone, -⟩⟩ :=
          @paint_nonModifying dbufLen nonMod mapTable line _ hnon
        · simp [hpixels, hpaint]
        · simp [hnone] at htable
      · by_cases hbytes : ∀ runLen bits, code = .byteRun runLen bits → mapTable = none
        · obtain ⟨v, n, hpixels, hpaint | ⟨rfl, -, hpaint⟩⟩ :=
            paint_modifying hroom hnon hbytes
          · simp [hpixels, hpaint, putRun_eq]
          · simp [hpixels, hpaint]
        · push Not at hbytes
          obtain ⟨runLen, bits, rfl, -⟩ := hbytes
          simp [paint_byteRun_table htable hnon]
    rw [paintAll, described_cons, List.length_append]
    split_ifs with hroom
    · have hle := hcode hroom
      have hrest := ih (paint dbufLen nonMod mapTable line code)
      omega
    · omega

/-- So far the pixels are stored in their columns and counted: those of the non-modifying
colour come last. -/
structure Line.InPlace (line : Line) (before : List (Option UInt8)) : Prop where
  stored : ∃ m, before = line.stored.map some ++ List.replicate m none
  count : line.pixelsReads = before.length

theorem Line.InPlace.length_le (h : line.InPlace before) : line.stored.length ≤ before.length := by
  obtain ⟨m, rfl⟩ := h.stored
  simp

theorem Line.InPlace.eq_map (h : line.InPlace before) (hnone : none ∉ before) :
    before = line.stored.map some := by
  obtain ⟨m, hm⟩ := h.stored
  cases m with
  | zero => simpa using hm
  | succ m => exact absurd (by rw [hm]; simp) hnone

theorem getElem?_map_some (stored : List UInt8) (k : ℕ) :
    (stored.map some)[k]?.join = stored[k]? := by
  rw [List.getElem?_map]
  cases stored[k]? <;> rfl

/-- A line in place is stored as it is described. -/
theorem Line.InPlace.storesLine (h : line.InPlace before) : StoresLine dbufLen before line where
  count := h.count
  columns k _ := by
    obtain ⟨m, rfl⟩ := h.stored
    by_cases hk : k < line.stored.length
    · rw [List.getElem?_append_left (by simpa using hk), getElem?_map_some]
    · have hnone : ∀ n : ℕ,
          (List.replicate n (none : Option UInt8))[k - line.stored.length]?.join = none := by
        intro n
        rw [List.getElem?_replicate]
        split_ifs <;> rfl
      rw [List.getElem?_append_right (by simpa using Nat.le_of_not_lt hk), List.length_map, hnone,
        List.getElem?_eq_none (by omega)]

/-- The step: a code that fits leaves the line in place. -/
theorem Line.InPlace.paint (h : line.InPlace before)
    (hfits : CodeFits nonMod mapTable dbufLen before code) :
    (Dvb.paint dbufLen nonMod mapTable line code).InPlace
      (before ++ code.pixels nonMod mapTable) := by
  obtain ⟨hroom, hwhole, horder, hbytes⟩ := hfits
  have hroom' : line.pixelsReads < dbufLen := h.count ▸ hroom
  by_cases hnon : code.NonModifying nonMod
  · obtain ⟨m, hm⟩ := h.stored
    obtain ⟨n, hpixels, hpaint⟩ :=
      @paint_nonModifying dbufLen nonMod mapTable line _ hnon
    have hskip : Line.InPlace { line with pixelsReads := line.pixelsReads + n }
        (before ++ code.pixels nonMod mapTable) := by
      refine ⟨⟨m + n, ?_⟩, ?_⟩
      · rw [hpixels, hm, List.append_assoc, List.replicate_append_replicate]
      · simp [hpixels, h.count]
    rcases hpaint with hpaint | ⟨bits, rfl, hnone, hpaint⟩
    · rw [hpaint]
      exact hskip
    · have hend := (hbytes n bits rfl).2 (by simp [hnone]) hnon
      have hfull : min n (dbufLen - (line.pixelsReads + n)) = 0 := by
        rw [h.count]
        omega
      rw [hpaint, putRun_eq]
      dsimp only
      rw [hfull]
      simpa using hskip
  · have hmap := h.eq_map (horder.resolve_left hnon)
    have hwhole := hwhole.resolve_left hnon
    have htable : ∀ runLen bits, code = .byteRun runLen bits → mapTable = none := by
      intro runLen bits hcode
      by_contra hne
      exact hnon ((hbytes runLen bits hcode).1 (Option.isSome_iff_ne_none.mpr hne))
    obtain ⟨v, n, hpixels, hpaint | ⟨rfl, htwo, -⟩⟩ := paint_modifying hroom' hnon htable
    · rw [hpixels, List.length_replicate] at hwhole
      have hmin : min n (dbufLen - line.pixelsReads) = n := by
        rw [h.count]
        omega
      rw [hpaint, putRun_eq, hmin, hpixels]
      refine ⟨⟨0, ?_⟩, ?_⟩
      · simp [← hmap]
      · simp [h.count]
    · rw [hpixels, List.length_replicate, ← h.count] at hwhole
      omega

/-- A run stores a pixel where there is room for one. -/
theorem stored_putRun {n : ℕ} (hn : 0 < n) (hroom : line.pixelsReads < dbufLen) (v : UInt8) :
    line.stored ++ [v] <+: (line.putRun dbufLen v n).stored := by
  obtain ⟨k, hk⟩ : ∃ k, min n (dbufLen - line.pixelsReads) = k + 1 :=
    ⟨min n (dbufLen - line.pixelsReads) - 1, by omega⟩
  rw [putRun_eq, hk, List.replicate_succ]
  exact ⟨List.replicate k v, by simp⟩

/-- What is stored in the column of a pixel of the non-modifying colour is wrong. -/
theorem not_storesLine_column {stored : List UInt8} {w : UInt8} {final : Line}
    {total : List (Option UInt8)} (hpre : stored ++ [w] <+: final.stored)
    (hlt : stored.length < dbufLen) (hcolumn : total[stored.length]? = some none) :
    ¬ StoresLine dbufLen total final := by
  rintro ⟨-, hcolumns⟩
  have hcol := hcolumns stored.length hlt
  obtain ⟨rest, hrest⟩ := hpre
  rw [hcolumn, ← hrest] at hcol
  simp at hcol

/-- A full line takes no more codes. -/
theorem paintAll_full (hfull : dbufLen ≤ line.pixelsReads) (codes : List PixelCode) :
    paintAll dbufLen nonMod mapTable line codes = line := by
  cases codes with
  | nil => rfl
  | cons code codes => rw [paintAll, if_neg (by omega)]

/-- A column behind what is stored, before the first pixel of the non-modifying colour. -/
theorem Line.InPlace.column (h : line.InPlace before) {rest : List (Option UInt8)}
    (hnone : none ∈ before ∨ rest.head? = some none) :
    (before ++ rest)[line.stored.length]? = some none := by
  obtain ⟨m, hm⟩ := h.stored
  cases m with
  | zero =>
    have hmap : before = line.stored.map some := by simpa using hm
    have hhead := hnone.resolve_left (by rw [hmap]; simp)
    rw [hmap, List.getElem?_append_right (by simp), List.length_map, Nat.sub_self,
      ← List.head?_eq_getElem?, hhead]
  | succ m =>
    rw [hm, List.append_assoc, List.getElem?_append_right (by simp), List.length_map, Nat.sub_self]
    simp [List.replicate_succ]

/-- A code that does not fit: the line never comes to be as described. -/
theorem Line.InPlace.not_storesLine (h : line.InPlace before) (hroom : before.length < dbufLen)
    (hpixels : code.pixels nonMod mapTable ≠ [])
    (hnot : ¬ CodeFits nonMod mapTable dbufLen before code) (codes : List PixelCode) :
    ¬ StoresLine dbufLen
      (before ++ (code.pixels nonMod mapTable ++ described nonMod mapTable codes))
      (paintAll dbufLen nonMod mapTable (Dvb.paint dbufLen nonMod mapTable line code) codes) := by
  have hroom' : line.pixelsReads < dbufLen := h.count ▸ hroom
  have hle := h.length_le
  have hstored := fun l : Line => @stored_paintAll dbufLen nonMod mapTable l codes
  by_cases hnon : code.NonModifying nonMod
  · -- a run of an 8-bit string that ends before the end of the line
    obtain ⟨n, bits, rfl, rfl, hlt⟩ : ∃ n bits, code = .byteRun n bits ∧ mapTable = none ∧
        before.length + n < dbufLen := by
      by_contra hno
      push Not at hno
      exact hnot ⟨hroom, .inl hnon, .inl hnon, fun n bits hcode =>
        ⟨fun _ => hnon, fun htable _ => hno n bits hcode (by simpa using htable)⟩⟩
    have hcolour : nonMod = 1 ∧ bits = 1 := hnon
    have hn : (PixelCode.byteRun n bits).pixels nonMod none = List.replicate n none := by
      rw [PixelCode.pixels, pixelOf, if_pos hcolour]
    rw [hn] at hpixels ⊢
    obtain ⟨n, rfl⟩ : ∃ k, n = k + 1 :=
      ⟨n - 1, by have hne : n ≠ 0 := fun h0 => hpixels (by rw [h0]; rfl); omega⟩
    refine @not_storesLine_column dbufLen line.stored (mapped none bits) _ _ ?_ (by omega)
      (h.column (.inr rfl))
    refine List.IsPrefix.trans ?_ (hstored _)
    rw [Dvb.paint, if_pos hcolour]
    exact @stored_putRun dbufLen { line with pixelsReads := line.pixelsReads + (n + 1) } (n + 1)
      (by omega) (by rw [h.count]; exact hlt) _
  · by_cases htable : ∀ runLen bits, code = .byteRun runLen bits → mapTable = none
    · obtain ⟨v, n, hn, hpaint⟩ := paint_modifying hroom' hnon htable
      have hpos : 0 < n := by
        rw [hn] at hpixels
        exact Nat.pos_of_ne_zero fun h0 => hpixels (by rw [h0]; rfl)
      rcases hpaint with hpaint | ⟨rfl, htwo, hpaint⟩
      · by_cases hwhole : before.length + n ≤ dbufLen
        · -- a pixel of the non-modifying colour comes before
          have hnone : none ∈ before := by
            by_contra hno
            refine hnot ⟨hroom, .inr (by rw [hn, List.length_replicate]; exact hwhole), .inr hno,
              fun runLen bits hcode => ⟨fun hsome => ?_, fun _ hnon' => absurd hnon' hnon⟩⟩
            simp [htable runLen bits hcode] at hsome
          refine @not_storesLine_column dbufLen line.stored v _ _ ?_ (by omega)
            (h.column (.inl hnone))
          rw [hpaint]
          exact (stored_putRun hpos hroom' v).trans (hstored _)
        · -- a run that is cut off
          rintro ⟨hcount, -⟩
          have hfull : dbufLen = (line.putRun dbufLen v n).pixelsReads := by
            rw [putRun_eq]
            dsimp only
            rw [h.count]
            omega
          rw [hpaint, paintAll_full hfull.le, ← hfull, hn] at hcount
          simp at hcount
          omega
      · -- one column for two pixels
        rintro ⟨-, hcolumns⟩
        have hcount := h.count
        have hcol := hcolumns (dbufLen - 1) (by omega)
        rw [hpaint, paintAll_full (by dsimp only; omega), hn] at hcol
        dsimp only at hcol
        have hlast : dbufLen - 1 = before.length := by omega
        rw [List.getElem?_eq_none (by omega), hlast] at hcol
        simp [List.replicate_succ] at hcol
    · -- a run of an 8-bit string through a table
      push Not at htable
      obtain ⟨n, bits, rfl, hsome⟩ := htable
      have htable : mapTable.isSome := Option.isSome_iff_ne_none.mpr hsome
      have hlength := List.length_pos_of_ne_nil hpixels
      rintro ⟨hcount, -⟩
      have hle := @pixelsReads_paintAll dbufLen nonMod mapTable htable line codes
      rw [paint_byteRun_table htable hnon] at hcount
      rw [hcount, h.count, List.length_append, List.length_append] at hle
      omega

/-- Every code with pixels fits, behind the line before and the codes before it. -/
def CodesFitBehind (dbufLen nonMod : ℕ) (mapTable : Option (List UInt8))
    (before : List (Option UInt8)) (codes : List PixelCode) : Prop :=
  ∀ front code after, codes = front ++ code :: after → code.pixels nonMod mapTable ≠ [] →
    CodeFits nonMod mapTable dbufLen (before ++ described nonMod mapTable front) code

theorem codesFitBehind_cons :
    CodesFitBehind dbufLen nonMod mapTable before (code :: codes) ↔
      (code.pixels nonMod mapTable ≠ [] → CodeFits nonMod mapTable dbufLen before code) ∧
        CodesFitBehind dbufLen nonMod mapTable (before ++ code.pixels nonMod mapTable) codes := by
  constructor
  · intro h
    refine ⟨fun hpixels => ?_, fun front code' after hcodes hpixels => ?_⟩
    · simpa [described] using h [] code codes rfl hpixels
    · have hfits := h (code :: front) code' after (by rw [hcodes]; rfl) hpixels
      rwa [described_cons, ← List.append_assoc] at hfits
  · rintro ⟨hcode, hcodes⟩ front code' after heq hpixels
    cases front with
    | nil =>
      obtain ⟨rfl, rfl⟩ := List.cons.inj heq
      simpa [described] using hcode hpixels
    | cons first front =>
      obtain ⟨rfl, rfl⟩ := List.cons.inj heq
      have hfits := hcodes front code' after rfl hpixels
      rwa [List.append_assoc, ← described_cons] at hfits

/-- Behind a full line only codes without pixels fit. -/
theorem codesFitBehind_full (hfull : dbufLen ≤ before.length) :
    CodesFitBehind dbufLen nonMod mapTable before codes ↔
      described nonMod mapTable codes = [] := by
  rw [described, List.flatMap_eq_nil_iff]
  constructor
  · intro h code hcode
    by_contra hpixels
    obtain ⟨front, after, heq⟩ := List.append_of_mem hcode
    have hroom := (h front code after heq hpixels).room
    rw [List.length_append] at hroom
    omega
  · intro h front code after heq hpixels
    exact absurd (h code (by rw [heq]; simp)) hpixels

/-- **The codes of a line** that is in place so far. -/
theorem Line.InPlace.codes_iff (h : line.InPlace before) (codes : List PixelCode) :
    StoresLine dbufLen (before ++ described nonMod mapTable codes)
        (paintAll dbufLen nonMod mapTable line codes) ↔
      CodesFitBehind dbufLen nonMod mapTable before codes := by
  induction codes generalizing line before with
  | nil =>
    refine iff_of_true ?_ fun front code after heq => by simp at heq
    simpa [described, paintAll] using h.storesLine
  | cons code codes ih =>
    rw [described_cons, codesFitBehind_cons]
    by_cases hroom : before.length < dbufLen
    · have hroom' : line.pixelsReads < dbufLen := h.count ▸ hroom
      rw [paintAll, if_pos hroom']
      by_cases hpixels : code.pixels nonMod mapTable = []
      · rw [paint_of_pixels_nil hpixels, hpixels, List.append_nil, List.nil_append, ih h]
        simp
      · by_cases hfits : CodeFits nonMod mapTable dbufLen before code
        · rw [← List.append_assoc, ih (h.paint hfits)]
          simp [hfits]
        · refine iff_of_false (h.not_storesLine hroom hpixels hfits codes) ?_
          exact fun hboth => hfits (hboth.1 hpixels)
    · have hfull : dbufLen ≤ before.length := Nat.le_of_not_lt hroom
      rw [paintAll_full (h.count ▸ hfull), ← codesFitBehind_cons, ← described_cons,
        codesFitBehind_full hfull]
      constructor
      · rintro ⟨hcount, -⟩
        rw [h.count, List.length_append] at hcount
        exact List.eq_nil_of_length_eq_zero (by omega)
      · intro hnil
        rw [hnil, List.append_nil]
        exact h.storesLine

end Line

/-- **Pixel strings**: the line that a string's codes describe comes to be stored, and counted,
exactly when every code with pixels fits behind the codes before it. -/
theorem storesLine_iff (syn : PixelSyntax) (s : Source) {src bufSize : ℕ}
    {codes : List PixelCode} (h : StringAt syn.Code s (8 * (src + bufSize)) (8 * src) codes)
    (dbufLen nonMod : ℕ) (mapTable : Option (List UInt8)) :
    StoresLine dbufLen (described nonMod mapTable codes)
        (syn.read dbufLen s src bufSize nonMod mapTable).1 ↔
      CodesFit nonMod mapTable dbufLen codes := by
  have hstart : Line.InPlace ⟨0, []⟩ [] := ⟨⟨0, rfl⟩, rfl⟩
  have hiff := @Line.InPlace.codes_iff dbufLen nonMod mapTable ⟨0, []⟩ [] hstart codes
  rw [syn.read_string h]
  simpa [CodesFitBehind, CodesFit] using hiff

/-- A pixel of colour 1, one of colour 2 and the end, as a 2-bit string. -/
def twoPixels : List UInt8 := [0x60, 0x00]

theorem twoPixels_string :
    StringAt Code2 (sourceOf twoPixels) (8 * (0 + 2)) (8 * 0) [.pixel 1, .pixel 2] :=
  .code (by decide) (.pixel (by decide)) (by decide +kernel) (by decide)
    (.code (by decide) (.pixel (by decide)) (by decide +kernel) (by decide)
      (.stop .stop (by decide +kernel) (by decide)))

theorem storesLine_iff_two_pixels :
    StoresLine 8 (described 0 none [.pixel 1, .pixel 2])
        (dvbsubRead2bitString 8 (sourceOf twoPixels) 0 2 0 none).1 ↔
      CodesFit 0 none 8 [.pixel 1, .pixel 2] :=
  storesLine_iff .bits2 (sourceOf twoPixels) twoPixels_string 8 0 none

/-- With the non-modifying colour, the second pixel is stored in the column of the first. -/
theorem not_storesLine_two_pixels :
    ¬ ∀ (syn : PixelSyntax) (s : Source) (src bufSize : ℕ) (codes : List PixelCode),
      StringAt syn.Code s (8 * (src + bufSize)) (8 * src) codes →
        ∀ (dbufLen nonMod : ℕ) (mapTable : Option (List UInt8)),
          StoresLine dbufLen (described nonMod mapTable codes)
            (syn.read dbufLen s src bufSize nonMod mapTable).1 := by
  intro h
  have hline := h .bits2 (sourceOf twoPixels) 0 2 _ twoPixels_string 8 1 none
  have hcolumn := hline.columns 0 (by decide)
  exact absurd hcolumn (by decide +kernel)

end Dvb
end AmlSubtitle
