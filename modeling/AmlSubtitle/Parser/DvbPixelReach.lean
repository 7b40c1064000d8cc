import AmlSubtitle.Parser.DvbRegionBuffer
import AmlSubtitle.Parser.DvbStrings

/-!
# How far the pixel readers look

The bytes that `parsePixelDataBlock` reads for a field, and when they all lie in the field.

* `get_bits` reads four bytes, from the one with the first bit on, `get_bits1` one byte, and the
  8-bit reader byte by byte.
* `stringReads`, `fieldReads`: the bytes read for a string and for a field;
  `parsePixelDataBlock_agrees` says that the block depends on no other bytes.
* `StringEnds`: where the last group of bits of a string is read.
* `readsField_iff`: a field is read inside exactly when each of its strings is.
-/

namespace AmlSubtitle
namespace Dvb

open Bits GetBitContext

/-! ## The groups of bits of a code -/

/-- The groups of bits that `readCode2` reads. -/
def codeFields2 (gb : GetBitContext) : List Field :=
  let (bits, gb) := gb.getBits 2
  (2, bits) ::
    if bits ≠ 0 then
      []
    else
      let (bits, gb) := gb.getBits1
      (1, bits) ::
        if bits = 1 then
          let (runLen, gb) := gb.getBits 3
          [(3, runLen), (2, (gb.getBits 2).1)]
        else
          let (bits, gb) := gb.getBits1
          (1, bits) ::
            if bits = 0 then
              let (bits, gb) := gb.getBits 2
              (2, bits) ::
                if bits = 2 then
                  let (runLen, gb) := gb.getBits 4
                  [(4, runLen), (2, (gb.getBits 2).1)]
                else if bits = 3 then
                  let (runLen, gb) := gb.getBits 8
                  [(8, runLen), (2, (gb.getBits 2).1)]
                else
                  []
            else
              []

/-- The groups of bits that `readCode4` reads. -/
def codeFields4 (gb : GetBitContext) : List Field :=
  let (bits, gb) := gb.getBits 4
  (4, bits) ::
    if bits ≠ 0 then
      []
    else
      let (bits, gb) := gb.getBits1
      (1, bits) ::
        if bits = 0 then
          [(3, (gb.getBits 3).1)]
        else
          let (bits, gb) := gb.getBits1
          (1, bits) ::
            if bits = 0 then
              let (runLen, gb) := gb.getBits 2
              [(2, runLen), (4, (gb.getBits 4).1)]
            else
              let (bits, gb) := gb.getBits 2
              (2, bits) ::
                if bits = 2 then
                  let (runLen, gb) := gb.getBits 4
                  [(4, runLen), (4, (gb.getBits 4).1)]
                else if bits = 3 then
                  let (runLen, gb) := gb.getBits 8
                  [(8, runLen), (4, (gb.getBits 4).1)]
                else
                  []

/-- The parts of the bytes that `readCode8` reads. -/
def codeFields8 (buf : Source) (src : ℕ) : List Field :=
  let bits := (buf src).toNat
  (8, bits) ::
    if bits ≠ 0 then
      []
    else
      let bits := (buf (src + 1)).toNat
      (1, bits / 128) :: (7, bits % 128) ::
        if bits &&& 0x80 = 0 then [] else [(8, (buf (src + 2)).toNat)]

theorem bit_eq_zero {s : Source} {p : ℕ} (h : bitsAt s p 1 ≠ 1) : bitsAt s p 1 = 0 := by
  have hlt := bitsAt_lt s p 1
  omega

/-- A code of a 2-bit string is there. -/
theorem codeFields2_spec (gb : GetBitContext) :
    Code2 (readCode2 gb).1 (codeFields2 gb) ∧ HasFields gb.buffer gb.pos (codeFields2 gb) := by
  unfold readCode2 codeFields2
  simp only [getBits_eq _ _ (show 2 ≤ 25 by decide), getBits_eq _ _ (show 3 ≤ 25 by decide),
    getBits_eq _ _ (show 4 ≤ 25 by decide), getBits_eq _ _ (show 8 ≤ 25 by decide), getBits1_eq,
    buffer_skip, pos_skip, skip_skip]
  split_ifs with hpixel hrun hswitch h12 h29 htwo
  all_goals refine ⟨?_, by simp [Nat.add_assoc]⟩
  · exact .pixel hpixel
  · rw [not_not.mp hpixel, hrun]
    exact .run3 _ _
  · rw [not_not.mp hpixel, bit_eq_zero hrun, hswitch, h12]
    exact .run12 _ _
  · rw [not_not.mp hpixel, bit_eq_zero hrun, hswitch, h29]
    exact .run29 _ _
  · rw [not_not.mp hpixel, bit_eq_zero hrun, hswitch, htwo]
    exact .two
  · have hstop : bitsAt gb.buffer (gb.pos + (2 + 1 + 1)) 2 = 0 := by
      have hlt := bitsAt_lt gb.buffer (gb.pos + (2 + 1 + 1)) 2
      omega
    rw [not_not.mp hpixel, bit_eq_zero hrun, hswitch, hstop]
    exact .stop
  · have hone : bitsAt gb.buffer (gb.pos + (2 + 1)) 1 = 1 := by
      have hlt := bitsAt_lt gb.buffer (gb.pos + (2 + 1)) 1
      omega
    rw [not_not.mp hpixel, bit_eq_zero hrun, hone]
    exact .one

/-- A code of a 4-bit string is there. -/
theorem codeFields4_spec (gb : GetBitContext) :
    Code4 (readCode4 gb).1 (codeFields4 gb) ∧ HasFields gb.buffer gb.pos (codeFields4 gb) := by
  have hbit : ∀ {p}, bitsAt gb.buffer p 1 ≠ 0 → bitsAt gb.buffer p 1 = 1 := by
    intro p h
    have hlt := bitsAt_lt gb.buffer p 1
    omega
  unfold readCode4 codeFields4
  simp only [getBits_eq _ _ (show 2 ≤ 25 by decide), getBits_eq _ _ (show 3 ≤ 25 by decide),
    getBits_eq _ _ (show 4 ≤ 25 by decide), getBits_eq _ _ (show 8 ≤ 25 by decide), getBits1_eq,
    buffer_skip, pos_skip, skip_skip]
  split_ifs with hpixel hzeros hstop hrun h9 h25 htwo
  all_goals refine ⟨?_, by simp [Nat.add_assoc]⟩
  · exact .pixel hpixel
  · rw [not_not.mp hpixel, hzeros, hstop]
    exact .stop
  · rw [not_not.mp hpixel, hzeros]
    exact .zeros hstop
  · rw [not_not.mp hpixel, hbit hzeros, hrun]
    exact .run4 _ _
  · rw [not_not.mp hpixel, hbit hzeros, hbit hrun, h9]
    exact .run9 _ _
  · rw [not_not.mp hpixel, hbit hzeros, hbit hrun, h25]
    exact .run25 _ _
  · rw [not_not.mp hpixel, hbit hzeros, hbit hrun, htwo]
    exact .two
  · have hone : bitsAt gb.buffer (gb.pos + (4 + 1 + 1)) 2 = 0 := by
      have hlt := bitsAt_lt gb.buffer (gb.pos + (4 + 1 + 1)) 2
      omega
    rw [not_not.mp hpixel, hbit hzeros, hbit hrun, hone]
    exact .one

/-- A code of an 8-bit string is there. -/
theorem codeFields8_spec (s : Source) (src : ℕ) :
    Code8 (readCode8 s src).1 (codeFields8 s src) ∧
      HasFields s (8 * src) (codeFields8 s src) := by
  have hall : bitsAt s (8 * src + 8) 8 = (s (src + 1)).toNat := bitsAt_byte s (src + 1)
  have hcolour : bitsAt s (8 * src + 8 + 1 + 7) 8 = (s (src + 2)).toNat :=
    bitsAt_byte s (src + 2)
  have hadd := bitsAt_add s (8 * src + 8) 1 7
  have hlt := bitsAt_lt s (8 * src + 8 + 1) 7
  rw [show 1 + 7 = 8 from rfl, hall] at hadd
  have hswitch : bitsAt s (8 * src + 8) 1 = (s (src + 1)).toNat / 128 := by omega
  have hlength : bitsAt s (8 * src + 8 + 1) 7 = (s (src + 1)).toNat % 128 := by omega
  have hbits : ∀ b < 256, (b &&& 0x80 = 0 ↔ b / 128 = 0) ∧ b &&& 0x7f = b % 128 ∧ b / 128 < 2 := by
    decide +kernel
  obtain ⟨hhigh, hmask, hle⟩ := hbits _ (s (src + 1)).toNat_lt
  unfold readCode8 codeFields8
  simp only [hmask]
  split_ifs with hpixel hzeros hstop
  all_goals refine ⟨?_, by simp [bitsAt_byte, hswitch, hlength, hcolour]⟩
  · exact .pixel hpixel
  · rw [not_not.mp hpixel, hhigh.mp hzeros, hstop]
    exact .stop
  · rw [not_not.mp hpixel, hhigh.mp hzeros]
    exact .zeros hstop
  · have hone : (s (src + 1)).toNat / 128 = 1 := by
      have hne := mt hhigh.mpr hzeros
      omega
    rw [not_not.mp hpixel, hone]
    exact .run _ _

/-! ## The bytes of a string -/

namespace PixelSyntax

/-- The code at a bit of the source, and its groups of bits. -/
def codeAt (s : Source) (i : ℕ) : PixelSyntax → PixelCode × List Field
  | bits2 =>
    let gb : GetBitContext := { buffer := s, start := 0, index := i }
    ((readCode2 gb).1, codeFields2 gb)
  | bits4 =>
    let gb : GetBitContext := { buffer := s, start := 0, index := i }
    ((readCode4 gb).1, codeFields4 gb)
  | bits8 => ((readCode8 s (i / 8)).1, codeFields8 s (i / 8))

/-- The bytes that are read for a group of several bits. -/
def window : PixelSyntax → ℕ
  | bits2 => 4
  | bits4 => 4
  | bits8 => 1

/-- The bits of the group that is read at the end of a line. -/
def lineEnd : PixelSyntax → ℕ
  | bits2 => 6
  | bits4 => 8
  | bits8 => 8

/-- The bytes that are read for a group of `n` bits at `i`. -/
def groupReads (syn : PixelSyntax) (i n : ℕ) : List ℕ :=
  if n = 1 then [i / 8] else (List.range syn.window).map (i / 8 + ·)

/-- The bytes that are read for groups of bits from `i` on. -/
def fieldsReads (syn : PixelSyntax) : ℕ → List Field → List ℕ
  | _, [] => []
  | i, field :: fields => syn.groupReads i field.1 ++ fieldsReads syn (i + field.1) fields

/-- The bytes that are read for a string from bit `i` on, with at most `fuel` codes. -/
def stringReads (syn : PixelSyntax) (s : Source) (e dbufLen nonMod : ℕ)
    (mapTable : Option (List UInt8)) : ℕ → ℕ → Line → List ℕ
  | 0, i, _ => syn.groupReads i syn.lineEnd
  | fuel + 1, i, line =>
    if i < e ∧ line.pixelsReads < dbufLen then
      let (code, fields) := syn.codeAt s i
      syn.fieldsReads i fields ++
        if code = .stop then
          []
        else
          stringReads syn s e dbufLen nonMod mapTable fuel (i + width fields)
            (paint dbufLen nonMod mapTable line code)
    else
      syn.groupReads i syn.lineEnd

end PixelSyntax

/-- A string from bit `i` on, with a line so far: the last group of bits is read at `q`, for an
end code, or where the line is full or no bit is left before bit `e`. -/
inductive StringEnds (syn : PixelSyntax) (s : Source) (e dbufLen nonMod : ℕ)
    (mapTable : Option (List UInt8)) : ℕ → Line → ℕ → Prop
  | full {i : ℕ} {line : Line} (hfull : e ≤ i ∨ dbufLen ≤ line.pixelsReads) :
      StringEnds syn s e dbufLen nonMod mapTable i line i
  | stop {i : ℕ} {line : Line} {fields : List Field} (hmore : i < e)
      (hroom : line.pixelsReads < dbufLen) (hcode : syn.Code .stop fields)
      (hfields : HasFields s i fields) :
      StringEnds syn s e dbufLen nonMod mapTable i line (i + width fields.dropLast)
  | code {i q : ℕ} {line : Line} {code : PixelCode} {fields : List Field} (hmore : i < e)
      (hroom : line.pixelsReads < dbufLen) (hnot : code ≠ .stop) (hcode : syn.Code code fields)
      (hfields : HasFields s i fields)
      (hrest : StringEnds syn s e dbufLen nonMod mapTable (i + width fields)
        (paint dbufLen nonMod mapTable line code) q) :
      StringEnds syn s e dbufLen nonMod mapTable i line q

/-- The 8-bit reader stands at the start of a byte. -/
def PixelSyntax.Aligned (syn : PixelSyntax) (i : ℕ) : Prop := syn = .bits8 → 8 ∣ i

section String

variable {syn : PixelSyntax} {s : Source} {i e q bufEnd dbufLen nonMod fuel : ℕ}
  {mapTable : Option (List UInt8)} {line : Line}

theorem PixelSyntax.Aligned.add {code : PixelCode} {fields : List Field} (h : syn.Aligned i)
    (hcode : syn.Code code fields) : syn.Aligned (i + width fields) := by
  rintro rfl
  have hi := h rfl
  cases hcode <;> simp <;> omega

theorem PixelSyntax.stringReads_succ :
    syn.stringReads s e dbufLen nonMod mapTable (fuel + 1) i line =
      if i < e ∧ line.pixelsReads < dbufLen then
        syn.fieldsReads i (syn.codeAt s i).2 ++
          if (syn.codeAt s i).1 = .stop then []
          else syn.stringReads s e dbufLen nonMod mapTable fuel (i + width (syn.codeAt s i).2)
            (paint dbufLen nonMod mapTable line (syn.codeAt s i).1)
      else
        syn.groupReads i syn.lineEnd := rfl

theorem PixelSyntax.codeAt_spec (h : syn.Aligned i) :
    syn.Code (syn.codeAt s i).1 (syn.codeAt s i).2 ∧ HasFields s i (syn.codeAt s i).2 := by
  have hpos : GetBitContext.pos { buffer := s, start := 0, index := i } = i := Nat.zero_add i
  cases syn with
  | bits2 =>
    have hspec := codeFields2_spec { buffer := s, start := 0, index := i }
    rwa [hpos] at hspec
  | bits4 =>
    have hspec := codeFields4_spec { buffer := s, start := 0, index := i }
    rwa [hpos] at hspec
  | bits8 =>
    have hspec := codeFields8_spec s (i / 8)
    rwa [Nat.mul_div_cancel' (h rfl)] at hspec

/-- There is one code at a bit. -/
theorem PixelSyntax.codeAt_unique (h : syn.Aligned i) {code : PixelCode} {fields : List Field}
    (hcode : syn.Code code fields) (hfields : HasFields s i fields) :
    (syn.codeAt s i).1 = code ∧ width (syn.codeAt s i).2 = width fields := by
  have hpos : GetBitContext.pos { buffer := s, start := 0, index := i } = i := Nat.zero_add i
  obtain ⟨hcode', hfields'⟩ := PixelSyntax.codeAt_spec (s := s) h
  cases syn with
  | bits2 =>
    have hread := @readCode2_eq ⟨s, 0, i⟩ _ _ hcode (by rwa [hpos])
    have hread' := @readCode2_eq ⟨s, 0, i⟩ _ _ hcode' (by rwa [hpos])
    rw [hread] at hread'
    have hindex := congrArg (fun r => r.2.index) hread'
    simp at hindex
    exact ⟨(congrArg Prod.fst hread').symm, hindex.symm⟩
  | bits4 =>
    have hread := @readCode4_eq ⟨s, 0, i⟩ _ _ hcode (by rwa [hpos])
    have hread' := @readCode4_eq ⟨s, 0, i⟩ _ _ hcode' (by rwa [hpos])
    rw [hread] at hread'
    have hindex := congrArg (fun r => r.2.index) hread'
    simp at hindex
    exact ⟨(congrArg Prod.fst hread').symm, hindex.symm⟩
  | bits8 =>
    have hi := Nat.mul_div_cancel' (h rfl)
    obtain ⟨hone, hnext⟩ := @readCode8_eq s (i / 8) _ _ hcode (by rwa [hi])
    obtain ⟨-, hnext'⟩ := @readCode8_eq s (i / 8) _ _ hcode' (by rwa [hi])
    exact ⟨hone, by omega⟩

theorem PixelSyntax.window_pos (syn : PixelSyntax) : 0 < syn.window := by
  cases syn <;> decide

/-- A group of several bits is read inside. -/
theorem PixelSyntax.groupReads_inside {n : ℕ} (hn : n ≠ 1) :
    (∀ k ∈ syn.groupReads i n, k < bufEnd) ↔ i / 8 + syn.window ≤ bufEnd := by
  have hpos := syn.window_pos
  rw [groupReads, if_neg hn]
  simp only [List.mem_map, List.mem_range, forall_exists_index, and_imp,
    forall_apply_eq_imp_iff₂]
  constructor
  · intro h
    have hlast := h (syn.window - 1) (by omega)
    omega
  · intro h k hk
    omega

/-- Groups that begin no later than one that is read inside are read inside. -/
theorem PixelSyntax.fieldsReads_inside {fields : List Field} (hq : i + width fields ≤ q)
    (h : q / 8 + syn.window ≤ bufEnd) : ∀ k ∈ syn.fieldsReads i fields, k < bufEnd := by
  have hpos := syn.window_pos
  induction fields generalizing i with
  | nil => simp [fieldsReads]
  | cons field fields ih =>
    rw [width_cons] at hq
    rw [fieldsReads, List.forall_mem_append]
    refine ⟨?_, ih (by omega)⟩
    have hle : i / 8 ≤ q / 8 := Nat.div_le_div_right (by omega)
    by_cases hone : field.1 = 1
    · rw [groupReads, if_pos hone, List.forall_mem_singleton]
      omega
    · rw [groupReads_inside hone]
      omega

/-- There is one end code. -/
theorem PixelSyntax.stop_unique {fields fields' : List Field} (h : syn.Code .stop fields)
    (h' : syn.Code .stop fields') : fields = fields' := by
  cases syn <;> cases h <;> cases h' <;> rfl

/-- An end code is read inside when its last group is. -/
theorem PixelSyntax.stopReads_inside {fields : List Field} (hcode : syn.Code .stop fields) :
    (∀ k ∈ syn.fieldsReads i fields, k < bufEnd) ↔
      (i + width fields.dropLast) / 8 + syn.window ≤ bufEnd := by
  obtain ⟨n, v, front, hn, rfl⟩ : ∃ n v front, n ≠ 1 ∧ fields = front ++ [(n, v)] := by
    cases syn with
    | bits2 => cases hcode; exact ⟨2, 0, [(2, 0), (1, 0), (1, 0)], by decide, rfl⟩
    | bits4 => cases hcode; exact ⟨3, 0, [(4, 0), (1, 0)], by decide, rfl⟩
    | bits8 => cases hcode; exact ⟨7, 0, [(8, 0), (1, 0)], by decide, rfl⟩
  have happend : ∀ j front, syn.fieldsReads j (front ++ [(n, v)]) =
      syn.fieldsReads j front ++ syn.groupReads (j + width front) n := by
    intro j front
    induction front generalizing j with
    | nil => simp [fieldsReads]
    | cons field front ih =>
      rw [List.cons_append, fieldsReads, ih, fieldsReads, width_cons, List.append_assoc,
        Nat.add_assoc]
  rw [happend, List.forall_mem_append, groupReads_inside hn, List.dropLast_concat]
  exact ⟨And.right, fun h => ⟨fieldsReads_inside le_rfl h, h⟩⟩

theorem StringEnds.le (h : StringEnds syn s e dbufLen nonMod mapTable i line q) : i ≤ q := by
  induction h with
  | full hfull => exact le_rfl
  | stop hmore hroom hcode hfields => exact Nat.le_add_right _ _
  | code hmore hroom hnot hcode hfields hrest ih => omega

/-- **A string is read inside** exactly when its last group of bits is. -/
theorem string_inside (hi : syn.Aligned i) (hfuel : e ≤ i + fuel) :
    (∀ k ∈ syn.stringReads s e dbufLen nonMod mapTable fuel i line, k < bufEnd) ↔
      ∃ q, StringEnds syn s e dbufLen nonMod mapTable i line q ∧
        q / 8 + syn.window ≤ bufEnd := by
  have hend : ∀ {i line}, (e ≤ i ∨ dbufLen ≤ line.pixelsReads) →
      ((∀ k ∈ syn.groupReads i syn.lineEnd, k < bufEnd) ↔
        ∃ q, StringEnds syn s e dbufLen nonMod mapTable i line q ∧
          q / 8 + syn.window ≤ bufEnd) := by
    intro i line hfull
    rw [PixelSyntax.groupReads_inside (by cases syn <;> decide)]
    constructor
    · exact fun h => ⟨i, .full hfull, h⟩
    · rintro ⟨q, hends, h⟩
      cases hends with
      | full => exact h
      | stop hmore hroom => omega
      | code hmore hroom => omega
  induction fuel generalizing i line with
  | zero => exact hend (.inl (by omega))
  | succ fuel ih =>
    rw [PixelSyntax.stringReads_succ]
    by_cases hgo : i < e ∧ line.pixelsReads < dbufLen
    · obtain ⟨hcode, hfields⟩ := PixelSyntax.codeAt_spec (s := s) hi
      rw [if_pos hgo]
      by_cases hstop : (syn.codeAt s i).1 = .stop
      · rw [hstop] at hcode
        rw [if_pos hstop, List.append_nil, PixelSyntax.stopReads_inside hcode]
        constructor
        · exact fun h => ⟨_, .stop hgo.1 hgo.2 hcode hfields, h⟩
        · rintro ⟨q, hends, h⟩
          cases hends with
          | full hfull => omega
          | @stop _ _ fields _ _ hcode' _ => rwa [PixelSyntax.stop_unique hcode' hcode] at h
          | code _ _ hnot hcode' hfields' =>
            exact absurd ((PixelSyntax.codeAt_unique hi hcode' hfields').1.symm.trans hstop) hnot
      · have hwidth := syn.width_pos hcode
        have hnext := @ih _ (paint dbufLen nonMod mapTable line (syn.codeAt s i).1)
          (hi.add hcode) (by omega)
        rw [if_neg hstop, List.forall_mem_append]
        refine (and_congr_right' hnext).trans ?_
        constructor
        · rintro ⟨-, q, hends, h⟩
          exact ⟨q, .code hgo.1 hgo.2 hstop hcode hfields hends, h⟩
        · rintro ⟨q, hends, h⟩
          cases hends with
          | full hfull => omega
          | stop _ _ hcode' hfields' =>
            exact absurd (PixelSyntax.codeAt_unique hi hcode' hfields').1 hstop
          | code _ _ _ hcode' hfields' hrest =>
            obtain ⟨hsame, hnext⟩ := PixelSyntax.codeAt_unique hi hcode' hfields'
            rw [← hsame, ← hnext] at hrest
            exact ⟨PixelSyntax.fieldsReads_inside hrest.le h, q, hrest, h⟩
    · rw [if_neg hgo]
      exact hend (by omega)

end String

/-! ## The bytes of a field -/

namespace PixelSyntax

/-- The kind of string that a type byte announces. -/
def ofType (code : UInt8) : Option PixelSyntax :=
  if code = DVBSUB_DT_2BP_CODE_STRING then some bits2
  else if code = DVBSUB_DT_4BP_CODE_STRING then some bits4
  else if code = DVBSUB_DT_8BP_CODE_STRING then some bits8
  else none

/-- The depth that a region must have for a string to be read. -/
def minDepth : PixelSyntax → ℕ
  | bits2 => 0
  | bits4 => 4
  | bits8 => 8

/-- The map table of a string. -/
def table (maps : MapTables) (depth : ℕ) : PixelSyntax → Option (List UInt8)
  | bits2 => maps.for2bit depth
  | bits4 => maps.for4bit depth
  | bits8 => none

end PixelSyntax

/-- The bytes that are read behind a type byte that announces no string: those of a map table
that lies in the field. -/
def mapReads (bufEnd : ℕ) (code : UInt8) (buf : ℕ) : List ℕ :=
  if code = DVBSUB_DT_24_MAP_TABLE_DATA then
    if (bufEnd : ℤ) - buf < 2 then [] else [buf, buf, buf + 1, buf + 1]
  else if code = DVBSUB_DT_28_MAP_TABLE_DATA then
    if (bufEnd : ℤ) - buf < 4 then [] else (List.range 4).map (buf + ·)
  else if code = DVBSUB_DT_48_MAP_TABLE_DATA then
    if (bufEnd : ℤ) - buf < 16 then [] else (List.range 16).map (buf + ·)
  else
    []

section Block

variable (region : DVBSubRegion) (display : DVBSubObjectDisplay) (source : Source)
  (bufEnd nonMod : ℕ)

/-- The bytes that the `switch` of `parsePixelDataBlock` reads, with the type byte taken. -/
def switchReads (needReads : ℕ) (code : UInt8) (s : BlockState) : List ℕ :=
  match PixelSyntax.ofType code with
  | some syn =>
    if region.depth < syn.minDepth then
      []
    else
      syn.stringReads source (8 * (s.buf + needReads)) (region.width - s.xPos) nonMod
        (syn.table s.maps region.depth) (8 * needReads) (8 * s.buf) ⟨0, []⟩
  | none => mapReads bufEnd code s.buf

/-- A location that `parsePixelDataBlock` refuses. -/
def Misplaced (s : BlockState) : Prop :=
  region.width < s.xPos ∨ region.height < s.yPos ∨ s.needReads region bufEnd < 0

instance (s : BlockState) : Decidable (Misplaced region bufEnd s) := by
  unfold Misplaced
  infer_instance

/-- What the `switch` makes of the type byte at the place of the state. -/
def switchAt (s : BlockState) : BlockState × Option ℤ :=
  blockSwitch region display source bufEnd nonMod (s.needReads region bufEnd).toNat
    (source s.buf) { s with buf := s.buf + 1 }

/-- The bytes that the loop of `parsePixelDataBlock` reads, in at most `fuel` passes. -/
def blockReads : ℕ → BlockState → List ℕ
  | 0, _ => []
  | fuel + 1, s =>
    if s.buf < bufEnd then
      if Misplaced region bufEnd s then
        []
      else
        s.buf :: switchReads region source bufEnd nonMod (s.needReads region bufEnd).toNat
            (source s.buf) { s with buf := s.buf + 1 } ++
          match switchAt region display source bufEnd nonMod s with
          | (s, none) => blockReads fuel s
          | (_, some _) => []
    else
      []

/-- A field from a state on is read inside: each string that it comes to has its last group of
bits so far from the end of the field that all bytes read for it lie in the field. -/
inductive FieldInside : BlockState → Prop
  | done {s : BlockState} (hend : bufEnd ≤ s.buf) : FieldInside s
  | misplaced {s : BlockState} (h : Misplaced region bufEnd s) : FieldInside s
  /-- A string of a kind that the region has no depth for ends the block. -/
  | shallow {s : BlockState} {syn : PixelSyntax}
      (htype : PixelSyntax.ofType (source s.buf) = some syn)
      (hdepth : region.depth < syn.minDepth) : FieldInside s
  | string {s : BlockState} {syn : PixelSyntax} {q : ℕ}
      (htype : PixelSyntax.ofType (source s.buf) = some syn)
      (hdepth : ¬ region.depth < syn.minDepth)
      (hends : StringEnds syn source (8 * (s.buf + 1 + (s.needReads region bufEnd).toNat))
        (region.width - s.xPos) nonMod (syn.table s.maps region.depth) (8 * (s.buf + 1))
          ⟨0, []⟩ q)
      (hinside : q / 8 + syn.window ≤ bufEnd)
      (hrest : FieldInside (switchAt region display source bufEnd nonMod s).1) : FieldInside s
  | other {s : BlockState} (htype : PixelSyntax.ofType (source s.buf) = none)
      (hrest : FieldInside (switchAt region display source bufEnd nonMod s).1) : FieldInside s

end Block

section Field

variable {region : DVBSubRegion} {display : DVBSubObjectDisplay} {source : Source}
  {bufEnd nonMod needReads fuel : ℕ} {code : UInt8} {s : BlockState}

/-- The `switch` at a string. -/
theorem blockSwitch_string {syn : PixelSyntax} (htype : PixelSyntax.ofType code = some syn) :
    blockSwitch region display source bufEnd nonMod needReads code s =
      if region.depth < syn.minDepth then (s, some 0)
      else (s.store region (syn.read (region.width - s.xPos) source s.buf needReads nonMod
        (syn.table s.maps region.depth)), none) := by
  unfold blockSwitch
  unfold PixelSyntax.ofType at htype
  split_ifs at htype with h2 h4 h8
  all_goals obtain rfl := Option.some.inj htype
  · rw [if_pos h2, if_neg (by simp [PixelSyntax.minDepth])]
    rfl
  · rw [if_neg h2, if_pos h4]
    rfl
  · rw [if_neg h2, if_neg h4, if_pos h8]
    rfl

/-- The `switch` at another type byte goes on, and not back. -/
theorem blockSwitch_other (htype : PixelSyntax.ofType code = none) :
    (blockSwitch region display source bufEnd nonMod needReads code s).2 = none ∧
      s.buf ≤ (blockSwitch region display source bufEnd nonMod needReads code s).1.buf := by
  unfold blockSwitch
  unfold PixelSyntax.ofType at htype
  split_ifs at htype with h2 h4 h8
  rw [if_neg h2, if_neg h4, if_neg h8]
  split_ifs
  all_goals exact ⟨rfl, by simp⟩

/-- A map table is only read where it lies in the field. -/
theorem mapReads_inside : ∀ k ∈ mapReads bufEnd code s.buf, k < bufEnd := by
  unfold mapReads
  split_ifs
  all_goals simp
  all_goals omega

/-- The `switch` takes the type byte, and never moves back. -/
theorem lt_switchAt (s : BlockState) :
    s.buf < (switchAt region display source bufEnd nonMod s).1.buf := by
  rcases blockSwitch_cases region display source bufEnd nonMod (s.needReads region bufEnd).toNat
    (source s.buf) { s with buf := s.buf + 1 } with ⟨read, -, hbuf, heq⟩ | ⟨s', ret, heq, hbuf, -⟩
  · rw [switchAt, heq]
    exact hbuf
  · rw [switchAt, heq]
    exact hbuf

/-- A pass at a string of a kind that the region has the depth for. -/
theorem blockReads_string {syn : PixelSyntax} (hbuf : s.buf < bufEnd)
    (hplace : ¬ Misplaced region bufEnd s)
    (htype : PixelSyntax.ofType (source s.buf) = some syn)
    (hdepth : ¬ region.depth < syn.minDepth) :
    blockReads region display source bufEnd nonMod (fuel + 1) s =
      s.buf :: syn.stringReads source (8 * (s.buf + 1 + (s.needReads region bufEnd).toNat))
        (region.width - s.xPos) nonMod (syn.table s.maps region.depth)
          (8 * (s.needReads region bufEnd).toNat) (8 * (s.buf + 1)) ⟨0, []⟩ ++
      blockReads region display source bufEnd nonMod fuel
        (switchAt region display source bufEnd nonMod s).1 := by
  have hswitch : switchAt region display source bufEnd nonMod s =
      ((switchAt region display source bufEnd nonMod s).1, none) := by
    refine Prod.ext rfl ?_
    rw [switchAt, blockSwitch_string htype, if_neg hdepth]
  rw [blockReads, if_pos hbuf, if_neg hplace, switchReads, htype, hswitch]
  dsimp only
  rw [if_neg hdepth]

/-- A pass at another type byte. -/
theorem blockReads_other (hbuf : s.buf < bufEnd) (hplace : ¬ Misplaced region bufEnd s)
    (htype : PixelSyntax.ofType (source s.buf) = none) :
    blockReads region display source bufEnd nonMod (fuel + 1) s =
      s.buf :: mapReads bufEnd (source s.buf) (s.buf + 1) ++
        blockReads region display source bufEnd nonMod fuel
          (switchAt region display source bufEnd nonMod s).1 := by
  have hswitch : switchAt region display source bufEnd nonMod s =
      ((switchAt region display source bufEnd nonMod s).1, none) :=
    Prod.ext rfl (blockSwitch_other htype).1
  rw [blockReads, if_pos hbuf, if_neg hplace, switchReads, htype, hswitch]

/-- A pass at a string that the region has no depth for. -/
theorem blockReads_shallow {syn : PixelSyntax} (hbuf : s.buf < bufEnd)
    (hplace : ¬ Misplaced region bufEnd s)
    (htype : PixelSyntax.ofType (source s.buf) = some syn)
    (hdepth : region.depth < syn.minDepth) :
    blockReads region display source bufEnd nonMod (fuel + 1) s = [s.buf] := by
  have hswitch : switchAt region display source bufEnd nonMod s =
      ((switchAt region display source bufEnd nonMod s).1, some 0) := by
    refine Prod.ext rfl ?_
    rw [switchAt, blockSwitch_string htype, if_pos hdepth]
  rw [blockReads, if_pos hbuf, if_neg hplace, switchReads, htype, hswitch]
  dsimp only
  rw [if_pos hdepth]
  rfl

/-- **The loop** reads inside the field exactly when the strings it comes to lie so. -/
theorem block_inside (hfuel : bufEnd ≤ s.buf + fuel) :
    (∀ k ∈ blockReads region display source bufEnd nonMod fuel s, k < bufEnd) ↔
      FieldInside region display source bufEnd nonMod s := by
  induction fuel generalizing s with
  | zero => exact iff_of_true (by simp [blockReads]) (.done hfuel)
  | succ fuel ih =>
    by_cases hbuf : s.buf < bufEnd
    · by_cases hplace : Misplaced region bufEnd s
      · refine iff_of_true ?_ (.misplaced hplace)
        rw [blockReads, if_pos hbuf, if_pos hplace]
        simp
      · have hnext := @lt_switchAt region display source bufEnd nonMod s
        have hrest := @ih (switchAt region display source bufEnd nonMod s).1 (by omega)
        cases htype : PixelSyntax.ofType (source s.buf) with
        | none =>
          have hmap := @mapReads_inside bufEnd (source s.buf) { s with buf := s.buf + 1 }
          rw [blockReads_other hbuf hplace htype, List.forall_mem_append, List.forall_mem_cons,
            hrest]
          constructor
          · exact fun h => .other htype h.2
          · intro h
            refine ⟨⟨hbuf, hmap⟩, ?_⟩
            cases h with
            | done hend => omega
            | misplaced h => exact absurd h hplace
            | shallow htype' => simp [htype] at htype'
            | string htype' => simp [htype] at htype'
            | other _ hrest => exact hrest
        | some syn =>
          by_cases hdepth : region.depth < syn.minDepth
          · refine iff_of_true ?_ (.shallow htype hdepth)
            rw [blockReads_shallow hbuf hplace htype hdepth]
            simpa using hbuf
          · have hstring := @string_inside syn source (8 * (s.buf + 1))
              (8 * (s.buf + 1 + (s.needReads region bufEnd).toNat)) bufEnd
              (region.width - s.xPos) nonMod (8 * (s.needReads region bufEnd).toNat)
              (syn.table s.maps region.depth) ⟨0, []⟩ (fun _ => ⟨s.buf + 1, rfl⟩) (by omega)
            rw [blockReads_string hbuf hplace htype hdepth, List.forall_mem_append,
              List.forall_mem_cons, hrest]
            constructor
            · rintro ⟨⟨-, hreads⟩, hinside⟩
              obtain ⟨q, hends, hq⟩ := hstring.mp hreads
              exact .string htype hdepth hends hq hinside
            · intro h
              cases h with
              | done hend => omega
              | misplaced h => exact absurd h hplace
              | shallow htype' hdepth' =>
                obtain rfl := Option.some.inj (htype.symm.trans htype')
                exact absurd hdepth' hdepth
              | string htype' _ hends hq hinside =>
                obtain rfl := Option.some.inj (htype.symm.trans htype')
                exact ⟨⟨hbuf, hstring.mpr ⟨_, hends, hq⟩⟩, hinside⟩
              | other htype' => simp [htype] at htype'
    · refine iff_of_true ?_ (.done (by omega))
      rw [blockReads, if_neg hbuf]
      simp

end Field

/-! ## Nothing else is read -/

/-- Two sources agree on some bytes. -/
def Agrees (s s' : Source) (reads : List ℕ) : Prop := ∀ k ∈ reads, s k = s' k

theorem Agrees.append {s s' : Source} {reads reads' : List ℕ} :
    Agrees s s' (reads ++ reads') ↔ Agrees s s' reads ∧ Agrees s s' reads' :=
  List.forall_mem_append

section Congr

variable {syn : PixelSyntax} {s s' : Source} {i e dbufLen nonMod : ℕ}
  {mapTable : Option (List UInt8)}

/-- A group of bits is the same where its bytes are. -/
theorem bitsAt_agrees {n : ℕ} (hspan : i % 8 + n ≤ 8 * syn.window)
    (h : Agrees s s' (syn.groupReads i n)) : bitsAt s i n = bitsAt s' i n := by
  refine bitsAt_congr fun k hk hlt => h k ?_
  rw [PixelSyntax.groupReads]
  split_ifs with hone
  · rw [List.mem_singleton]
    omega
  · rw [List.mem_map]
    exact ⟨k - i / 8, List.mem_range.mpr (by omega), by omega⟩

/-- Each group of bits lies in the bytes that are read for it. -/
def PixelSyntax.Spans (syn : PixelSyntax) : ℕ → List Field → Prop
  | _, [] => True
  | i, field :: fields => i % 8 + field.1 ≤ 8 * syn.window ∧ Spans syn (i + field.1) fields

theorem PixelSyntax.spans (hi : syn.Aligned i) {code : PixelCode} {fields : List Field}
    (hcode : syn.Code code fields) : syn.Spans i fields := by
  cases syn with
  | bits2 => cases hcode <;> simp [Spans, window] <;> omega
  | bits4 => cases hcode <;> simp [Spans, window] <;> omega
  | bits8 =>
    have halign := hi rfl
    cases hcode <;> simp [Spans, window] <;> omega

/-- Groups of bits are the same where their bytes are. -/
theorem hasFields_agrees {fields : List Field} (hspans : syn.Spans i fields)
    (hfields : HasFields s i fields) (h : Agrees s s' (syn.fieldsReads i fields)) :
    HasFields s' i fields := by
  induction fields generalizing i with
  | nil => trivial
  | cons field fields ih =>
    rw [PixelSyntax.fieldsReads, Agrees.append] at h
    refine ⟨?_, ih hspans.2 hfields.2 h.2⟩
    rw [← bitsAt_agrees hspans.1 h.1]
    exact hfields.1

/-- **Two readers** at strings that agree on the bytes read do the same. -/
theorem paintCodes_agrees {ρ : Type*} {readCode readCode' : ρ → PixelCode × ρ}
    {more more' : ρ → Bool} {At At' : ρ → ℕ → Prop}
    (hread : ∀ {r i code fields}, At r i → syn.Code code fields → HasFields s i fields →
      (readCode r).1 = code ∧ At (readCode r).2 (i + width fields))
    (hread' : ∀ {r i code fields}, At' r i → syn.Code code fields → HasFields s' i fields →
      (readCode' r).1 = code ∧ At' (readCode' r).2 (i + width fields))
    (hmore : ∀ {r i}, At r i → (more r ↔ i < e)) (hmore' : ∀ {r i}, At' r i → (more' r ↔ i < e))
    {fuel budget : ℕ} {r r' : ρ} {line : Line} (hr : At r i) (hr' : At' r' i)
    (hi : syn.Aligned i) (hbudget : e ≤ i + budget)
    (h : Agrees s s' (syn.stringReads s e dbufLen nonMod mapTable budget i line)) :
    ∃ stopped final j p p', At p j ∧ At' p' j ∧
      paintCodes readCode more dbufLen nonMod mapTable fuel r line = (stopped, p, final) ∧
      paintCodes readCode' more' dbufLen nonMod mapTable fuel r' line = (stopped, p', final) := by
  induction fuel generalizing i budget r r' line with
  | zero => exact ⟨false, line, i, r, r', hr, hr', rfl, rfl⟩
  | succ fuel ih =>
    by_cases hgo : i < e ∧ line.pixelsReads < dbufLen
    · obtain ⟨budget, rfl⟩ : ∃ b, budget = b + 1 := ⟨budget - 1, by omega⟩
      rw [PixelSyntax.stringReads_succ, if_pos hgo, Agrees.append] at h
      obtain ⟨hcode, hfields⟩ := PixelSyntax.codeAt_spec (s := s) hi
      have hpos := syn.width_pos hcode
      obtain ⟨hagrees, hrest⟩ := h
      have hfields' := hasFields_agrees (PixelSyntax.spans hi hcode) hfields hagrees
      obtain ⟨hone, hnext⟩ := hread hr hcode hfields
      obtain ⟨hone', hnext'⟩ := hread' hr' hcode hfields'
      have hboth : more r ∧ line.pixelsReads < dbufLen := ⟨(hmore hr).mpr hgo.1, hgo.2⟩
      have hboth' : more' r' ∧ line.pixelsReads < dbufLen := ⟨(hmore' hr').mpr hgo.1, hgo.2⟩
      rw [paintCodes, if_pos hboth, hone, paintCodes, if_pos hboth', hone']
      by_cases hstop : (syn.codeAt s i).1 = .stop
      · rw [if_pos hstop, if_pos hstop]
        exact ⟨true, line, _, _, _, hnext, hnext', rfl, rfl⟩
      · rw [if_neg hstop] at hrest
        rw [if_neg hstop, if_neg hstop]
        exact ih hnext hnext' (hi.add hcode) (by omega) hrest
    · have hboth : ¬ (more r ∧ line.pixelsReads < dbufLen) := by rwa [hmore hr]
      have hboth' : ¬ (more' r' ∧ line.pixelsReads < dbufLen) := by rwa [hmore' hr']
      rw [paintCodes, if_neg hboth, paintCodes, if_neg hboth']
      exact ⟨false, line, i, r, r', hr, hr', rfl, rfl⟩

/-- A reader of bits gives the same on data that agree on the bytes it reads. -/
theorem readBitString_agrees {readCode : GetBitContext → PixelCode × GetBitContext}
    (hread : ∀ {gb code fields}, syn.Code code fields → HasFields gb.buffer gb.pos fields →
      readCode gb = (code, gb.skip (width fields))) (hsyn : syn ≠ .bits8) (lineEnd : ℕ)
    {src bufSize : ℕ} (h : Agrees s s' (syn.stringReads s (8 * (src + bufSize)) dbufLen nonMod
      mapTable (8 * bufSize) (8 * src) ⟨0, []⟩)) :
    readBitString readCode lineEnd dbufLen s' src bufSize nonMod mapTable =
      readBitString readCode lineEnd dbufLen s src bufSize nonMod mapTable := by
  have hat : ∀ (s : Source) {gb i code fields},
      (gb.buffer = s ∧ gb.start = src ∧ gb.pos = i) → syn.Code code fields → HasFields s i fields →
        (readCode gb).1 = code ∧ (readCode gb).2.buffer = s ∧ (readCode gb).2.start = src ∧
          (readCode gb).2.pos = i + width fields := by
    rintro s gb i code fields ⟨rfl, hstart, rfl⟩ hcode hfields
    rw [hread hcode hfields]
    exact ⟨rfl, rfl, hstart, pos_skip gb _⟩
  have hmore : ∀ (s : Source) {gb : GetBitContext} {i},
      (gb.buffer = s ∧ gb.start = src ∧ gb.pos = i) →
        (decide (gb.index < bufSize <<< 3) ↔ i < 8 * (src + bufSize)) := by
    rintro s gb i ⟨-, hstart, hpos⟩
    rw [GetBitContext.pos, hstart] at hpos
    rw [decide_eq_true_eq, Nat.shiftLeft_eq]
    omega
  obtain ⟨stopped, final, j, p, p', ⟨hbuffer, hstart, hpos⟩, ⟨hbuffer', hstart', hpos'⟩, heq,
      heq'⟩ :=
    @paintCodes_agrees syn s s' (8 * src) _ dbufLen nonMod mapTable _ readCode readCode _ _
      (fun gb i => gb.buffer = s ∧ gb.start = src ∧ gb.pos = i)
      (fun gb i => gb.buffer = s' ∧ gb.start = src ∧ gb.pos = i)
      (hat s) (hat s') (hmore s) (hmore s') (bufSize <<< 3) _ ⟨s, src, 0⟩ ⟨s', src, 0⟩ _
      ⟨rfl, rfl, rfl⟩ ⟨rfl, rfl, rfl⟩ (fun h8 => absurd h8 hsyn) (by omega) h
  have hindex : p.index = p'.index := by
    rw [GetBitContext.pos] at hpos hpos'
    omega
  unfold readBitString
  rw [heq, heq']
  cases stopped
  · simp [hindex]
  · simp [hindex]

/-- **A string reader** gives the same on data that agree on the bytes it reads. -/
theorem PixelSyntax.read_agrees {src bufSize : ℕ}
    (h : Agrees s s' (syn.stringReads s (8 * (src + bufSize)) dbufLen nonMod mapTable
      (8 * bufSize) (8 * src) ⟨0, []⟩)) :
    syn.read dbufLen s' src bufSize nonMod mapTable =
      syn.read dbufLen s src bufSize nonMod mapTable := by
  cases syn with
  | bits2 => exact @readBitString_agrees .bits2 _ _ _ _ _ _ readCode2_eq (by decide) 6 _ _ h
  | bits4 => exact @readBitString_agrees .bits4 _ _ _ _ _ _ readCode4_eq (by decide) 8 _ _ h
  | bits8 =>
    have hmore : ∀ {pos i : ℕ}, 8 * pos = i →
        (decide (pos < src + bufSize) ↔ i < 8 * (src + bufSize)) := by
      rintro pos i rfl
      rw [decide_eq_true_eq]
      omega
    have hread : ∀ (s : Source) {pos i code fields}, 8 * pos = i → Code8 code fields →
        HasFields s i fields → (readCode8 s pos).1 = code ∧
          8 * (readCode8 s pos).2 = i + width fields := by
      rintro s pos i code fields rfl hcode hfields
      exact readCode8_eq hcode hfields
    obtain ⟨stopped, final, j, p, p', hp, hp', heq, heq'⟩ :=
      @paintCodes_agrees .bits8 s s' (8 * src) _ dbufLen nonMod mapTable _ _ _ _ _
        (fun pos i => 8 * pos = i) (fun pos i => 8 * pos = i)
        (hread s) (hread s') hmore hmore bufSize _ src src _ rfl rfl (fun _ => ⟨src, rfl⟩)
        (by omega) h
    obtain rfl : p = p' := by omega
    show dvbsubRead8bitString _ s' _ _ _ _ = dvbsubRead8bitString _ s _ _ _ _
    unfold dvbsubRead8bitString
    rw [heq, heq']

end Congr

section Tie

variable {region : DVBSubRegion} {display : DVBSubObjectDisplay} {source source' : Source}
  {bufEnd nonMod fuel : ℕ} {s : BlockState}

theorem sourceBytes_agrees {i n : ℕ} (h : Agrees source source' ((List.range n).map (i + ·))) :
    sourceBytes source i n = sourceBytes source' i n :=
  List.map_congr_left fun k hk => h (i + k) (List.mem_map_of_mem hk)

/-- The `switch` does the same on data that agree on the bytes it reads. -/
theorem blockSwitch_agrees {needReads : ℕ} {code : UInt8}
    (h : Agrees source source' (switchReads region source bufEnd nonMod needReads code s)) :
    blockSwitch region display source' bufEnd nonMod needReads code s =
      blockSwitch region display source bufEnd nonMod needReads code s := by
  rw [switchReads] at h
  cases htype : PixelSyntax.ofType code with
  | some syn =>
    rw [htype] at h
    rw [blockSwitch_string htype, blockSwitch_string htype]
    dsimp only at h
    split_ifs at h ⊢ with hdepth
    · rfl
    · rw [PixelSyntax.read_agrees h]
  | none =>
    rw [htype] at h
    unfold PixelSyntax.ofType at htype
    split_ifs at htype with h2 h4 h8
    unfold blockSwitch
    dsimp only [mapReads] at h
    rw [if_neg h2, if_neg h4, if_neg h8, if_neg h2, if_neg h4, if_neg h8]
    by_cases h24 : code = DVBSUB_DT_24_MAP_TABLE_DATA
    · rw [if_pos h24] at h
      rw [if_pos h24, if_pos h24]
      by_cases hshort : (bufEnd : ℤ) - s.buf < 2
      · rw [if_pos hshort, if_pos hshort]
      · rw [if_neg hshort] at h
        rw [if_neg hshort, if_neg hshort, h s.buf (by simp), h (s.buf + 1) (by simp)]
    · rw [if_neg h24] at h
      rw [if_neg h24, if_neg h24]
      by_cases h28 : code = DVBSUB_DT_28_MAP_TABLE_DATA
      · rw [if_pos h28] at h
        rw [if_pos h28, if_pos h28]
        by_cases hshort : (bufEnd : ℤ) - s.buf < 4
        · rw [if_pos hshort, if_pos hshort]
        · rw [if_neg hshort] at h
          rw [if_neg hshort, if_neg hshort, sourceBytes_agrees h]
      · rw [if_neg h28] at h
        rw [if_neg h28, if_neg h28]
        by_cases h48 : code = DVBSUB_DT_48_MAP_TABLE_DATA
        · rw [if_pos h48] at h
          rw [if_pos h48, if_pos h48]
          by_cases hshort : (bufEnd : ℤ) - s.buf < 16
          · rw [if_pos hshort, if_pos hshort]
          · rw [if_neg hshort] at h
            rw [if_neg hshort, if_neg hshort, sourceBytes_agrees h]
        · rw [if_neg h48, if_neg h48]

/-- The loop does the same on data that agree on the bytes it reads. -/
theorem blockLoop_agrees
    (h : Agrees source source' (blockReads region display source bufEnd nonMod fuel s)) :
    blockLoop region display source' bufEnd nonMod fuel s =
      blockLoop region display source bufEnd nonMod fuel s := by
  have hstep : ∀ (source : Source) s, blockStep region display source bufEnd nonMod s =
      if Misplaced region bufEnd s then (s, some (-1))
      else switchAt region display source bufEnd nonMod s := fun _ _ => rfl
  induction fuel generalizing s with
  | zero => rfl
  | succ fuel ih =>
    rw [blockReads] at h
    rw [blockLoop, blockLoop]
    by_cases hbuf : s.buf < bufEnd
    · rw [if_pos hbuf] at h
      rw [if_pos hbuf, if_pos hbuf, hstep, hstep]
      by_cases hplace : Misplaced region bufEnd s
      · rw [if_pos hplace, if_pos hplace]
      · rw [if_neg hplace, Agrees.append] at h
        obtain ⟨hfirst, hrest⟩ := h
        have hcode : source s.buf = source' s.buf := hfirst s.buf (by simp)
        have hswitch : switchAt region display source' bufEnd nonMod s =
            switchAt region display source bufEnd nonMod s := by
          rw [switchAt, switchAt, ← hcode]
          exact blockSwitch_agrees fun k hk => hfirst k (List.mem_cons_of_mem _ hk)
        rw [if_neg hplace, if_neg hplace, hswitch]
        generalize switchAt region display source bufEnd nonMod s = result at hrest ⊢
        obtain ⟨s', ret⟩ := result
        cases ret with
        | none => exact ih hrest
        | some ret => rfl
    · rw [if_neg hbuf, if_neg hbuf]

end Tie

/-! ## The field -/

/-- The state in which `parsePixelDataBlock` begins a field. -/
def blockStart (display : DVBSubObjectDisplay) (buf top_bottom : ℕ) : BlockState where
  buf := buf
  xPos := display.xPos
  yPos := if top_bottom = 1 then display.yPos + 1 else display.yPos
  maps := MapTables.default
  stores := []

section

variable (ctx : DVBSubContext) (display : DVBSubObjectDisplay) (source : Source)
  (buf bufSize top_bottom nonMod : ℕ)

/-- The bytes that `parsePixelDataBlock` reads. -/
def fieldReads : List ℕ :=
  match ctx.getRegion display.regionId with
  | none => []
  | some region =>
    blockReads region display source (buf + bufSize) nonMod bufSize
      (blockStart display buf top_bottom)

/-- **The block depends on no other bytes** than those read. -/
theorem parsePixelDataBlock_agrees {source' : Source}
    (h : Agrees source source' (fieldReads ctx display source buf bufSize top_bottom nonMod)) :
    parsePixelDataBlock ctx display source' buf bufSize top_bottom nonMod =
      parsePixelDataBlock ctx display source buf bufSize top_bottom nonMod := by
  rw [parsePixelDataBlock, parsePixelDataBlock]
  rw [fieldReads] at h
  cases hregion : ctx.getRegion display.regionId with
  | none => rfl
  | some region =>
    rw [hregion] at h
    have hblock : ∀ source, pixelBlock region display source buf bufSize top_bottom nonMod =
        ((blockLoop region display source (buf + bufSize) nonMod bufSize
          (blockStart display buf top_bottom)).1.stores,
        (blockLoop region display source (buf + bufSize) nonMod bufSize
          (blockStart display buf top_bottom)).2) := fun _ => rfl
    dsimp only
    rw [hblock, hblock, blockLoop_agrees h]

/-- Nothing is read at or behind the end of the field. -/
def ReadsField : Prop :=
  ∀ k ∈ fieldReads ctx display source buf bufSize top_bottom nonMod, k < buf + bufSize

/-- **The reach of a field**: no byte at or behind its end is read, exactly when each string
that the block comes to has its last group of bits far enough from the end. -/
theorem readsField_iff :
    ReadsField ctx display source buf bufSize top_bottom nonMod ↔
      ∀ region, ctx.getRegion display.regionId = some region →
        FieldInside region display source (buf + bufSize) nonMod
          (blockStart display buf top_bottom) := by
  rw [ReadsField, fieldReads]
  cases hregion : ctx.getRegion display.regionId with
  | none => simp
  | some region =>
    simp only [Option.some.injEq, forall_eq']
    exact block_inside le_rfl

end

/-- Object 7, with a top field that ends with the end code of its string. -/
def tightField : List UInt8 := [0, 7, 0, 0, 3, 0, 0, 0x10, 0x60, 0x00]

/-- For the end code `get_bits` reads four bytes, two of them behind the segment. -/
theorem not_readsField_tight :
    ¬ ∀ (ctx : DVBSubContext) (display : DVBSubObjectDisplay) (source : Source)
      (buf bufSize top_bottom nonMod : ℕ),
        ReadsField ctx display source buf bufSize top_bottom nonMod := by
  intro h
  have hreads := h (oneObject.foldl exec init)
    { objectId := 7, regionId := 1, xPos := 1, yPos := 0, fgcolor := 0, bgcolor := 0,
      regionListNext := none, objectListNext := none } (sourceOf tightField) 7 3 TOP_FIELD 0
  exact absurd hreads (by unfold ReadsField; decide +kernel)

end Dvb
end AmlSubtitle
