import AmlSubtitle.Lib.Bits

/-!
# The bitmap of an SCTE-27 message

The fields of a simple bitmap in `decodeBitmap`, and its run-length stage, which takes codes of
five to nine bits with `get_beans` and writes the pixels of the rectangle row by row.

* `setUp`: the fields, or the exit that the function takes.
* `Code`, `codeAt`: the codes; every bit string spells codes.
* `rleLoop_isSome`: the stage comes to its end.
* `rleSafe_iff`: when it stays in the bitmap and in the bits.

A run is not clipped at the end of its row, and what it has over is written into the rows below.
-/

namespace AmlSubtitle
namespace Scte27

open Bits

/-! ## The fields -/

/-- `style_para`, by `outline_style`. -/
inductive StylePara where
  | none
  | outlined (outline_thickness outline_color : ℕ)
  | drop_shadow (shadow_right shadow_bottom shadow_color : ℕ)
  | reserved
  deriving DecidableEq, Repr

/-- `scte_simple_bitmap_type`, with a rectangle that is not empty. -/
structure SimpleBitmap where
  is_framed : Bool
  character_color : ℕ
  top_h : ℕ
  top_v : ℕ
  bottom_h : ℕ
  bottom_v : ℕ
  frame_top_h : ℕ
  frame_top_v : ℕ
  frame_bottom_h : ℕ
  frame_bottom_v : ℕ
  frame_color : ℕ
  style_para : StylePara
  bitmap_length : ℕ
  top_h_lt : top_h < bottom_h
  top_v_lt : top_v < bottom_v

namespace SimpleBitmap

variable (b : SimpleBitmap)

def bitmap_h : ℕ := b.bottom_h - b.top_h

def bitmap_v : ℕ := b.bottom_v - b.top_v

def bitmap_size : ℕ := b.bitmap_h * b.bitmap_v

theorem bitmap_v_pos : 0 < b.bitmap_v := Nat.sub_pos_of_lt b.top_v_lt

end SimpleBitmap

/-- Where the set-up ends: the rectangle is empty, it is not in its frame, or the bits of the bitmap
start at `beans`. -/
inductive SetUp where
  | emptyRectangle
  | outsideFrame
  | ready (bitmap : SimpleBitmap) (beans : ℕ)

section Fields

variable (buffer : ℕ → UInt8) (i : ℕ)

/-- Two bytes. -/
def twoBytes : ℕ := (buffer i).toNat <<< 8 ||| (buffer (i + 1)).toNat

/-- The first of two coordinates, which share a byte. -/
def coordinateH : ℕ := (buffer i).toNat <<< 4 ||| ((buffer (i + 1)).toNat >>> 4 &&& 0xF)

/-- The second one. -/
def coordinateV : ℕ := ((buffer (i + 1)).toNat &&& 0xF) <<< 8 ||| (buffer (i + 2)).toNat

end Fields

/-- `style_para`, and where it ends. -/
def stylePara (buffer : ℕ → UInt8) (outline_style i : ℕ) : StylePara × ℕ :=
  match outline_style with
  | 1 => (.outlined ((buffer i).toNat &&& 0xF) (twoBytes buffer (i + 1)), i + 3)
  | 2 => (.drop_shadow ((buffer i).toNat >>> 4 &&& 0xF) ((buffer i).toNat &&& 0xF)
      (twoBytes buffer (i + 1)), i + 3)
  | 3 => (.reserved, i + 4)
  | _ => (.none, i)

/-- The set-up of `decodeBitmap`. -/
def setUp (buffer : ℕ → UInt8) : SetUp :=
  let is_framed := (buffer 0).toNat &&& 1 <<< 2 ≠ 0
  let outline_style := (buffer 0).toNat &&& 0x3
  let top_h := coordinateH buffer 3
  let top_v := coordinateV buffer 3
  let bottom_h := coordinateH buffer 6
  let bottom_v := coordinateV buffer 6
  if h : top_h < bottom_h ∧ top_v < bottom_v then
    let frame_top_h := if is_framed then coordinateH buffer 9 else top_h
    let frame_top_v := if is_framed then coordinateV buffer 9 else top_v
    let frame_bottom_h := if is_framed then coordinateH buffer 12 else bottom_h
    let frame_bottom_v := if is_framed then coordinateV buffer 12 else bottom_v
    if is_framed ∧ (top_h < frame_top_h ∨ top_v < frame_top_v ∨ frame_bottom_h < bottom_h ∨
        frame_bottom_v < bottom_v) then
      .outsideFrame
    else
      let (style_para, i) := stylePara buffer outline_style (if is_framed then 17 else 9)
      .ready
        { is_framed := is_framed
          character_color := twoBytes buffer 1
          top_h := top_h
          top_v := top_v
          bottom_h := bottom_h
          bottom_v := bottom_v
          frame_top_h := frame_top_h
          frame_top_v := frame_top_v
          frame_bottom_h := frame_bottom_h
          frame_bottom_v := frame_bottom_v
          frame_color := if is_framed then twoBytes buffer 15 else 0
          style_para := style_para
          bitmap_length := twoBytes buffer i
          top_h_lt := h.1
          top_v_lt := h.2 } (i + 2)
  else
    .emptyRectangle

/-! ## The bits -/

/-- Background. -/
def PIXEL_BG : ℕ := 0

/-- Character. -/
def PIXEL_CH : ℕ := 1

/-- Outline. -/
def PIXEL_OL : ℕ := 2

/-- Drop shadow. -/
def PIXEL_DS : ℕ := 3

/-- The variables of the run-length stage, the bytes that it reads, and the pixels that it
writes. -/
structure Rle where
  bean_bytes : ℕ
  bean_bits : ℕ
  row_start : ℕ
  row_cursor : ℕ
  row_length : ℕ
  row_count : ℕ
  reads : List ℕ
  stores : List (ℕ × ℕ)

namespace Rle

/-- `get_beans`. -/
def getBeans (bean_buffer : ℕ → UInt8) (bean_total : ℕ) (s : Rle) (bits : ℕ) : Option ℕ × Rle :=
  if 8 < bits then (none, s)
  else if bits + s.bean_bits < 8 then
    let beans := (bean_buffer s.bean_bytes).toNat >>> (8 - bits - s.bean_bits) &&& (1 <<< bits - 1)
    (some beans, { s with
      bean_bits := s.bean_bits + bits
      reads := s.reads ++ [s.bean_bytes] })
  else
    let a := bits + s.bean_bits - 8
    let b := bits - a
    let beans := ((bean_buffer s.bean_bytes).toNat &&& (1 <<< b - 1)) <<< a |||
      ((bean_buffer (s.bean_bytes + 1)).toNat >>> (8 - a) &&& (1 <<< a - 1))
    let s := { s with
      bean_bytes := s.bean_bytes + 1
      bean_bits := a
      reads := s.reads ++ [s.bean_bytes, s.bean_bytes + 1] }
    if bean_total < s.bean_bytes ∨ s.bean_bytes = bean_total ∧ 0 < s.bean_bits then (none, s)
    else (some beans, s)

/-- `assert_bits`, which leaves the loop if there are no bits; the flag says that the loop goes
on. -/
def assertBits (bean_buffer : ℕ → UInt8) (bean_total : ℕ) (s : Rle) (bits : ℕ)
    (next : ℕ → Rle → Rle × Bool) : Rle × Bool :=
  match s.getBeans bean_buffer bean_total bits with
  | (some value, s) => next value s
  | (none, s) => (s, false)

/-- A run of pixels. -/
def fill (s : Rle) (n pixel : ℕ) : Rle :=
  { s with
    row_cursor := s.row_cursor + n
    stores := s.stores ++ (List.range' s.row_cursor n).map fun k => (k, pixel) }

/-- `EOL`. -/
def endOfLine (bitmap_h : ℕ) (s : Rle) : Rle :=
  let s := s.fill (bitmap_h - s.row_length) PIXEL_BG
  { s with
    row_start := s.row_start + bitmap_h
    row_cursor := s.row_start + bitmap_h
    row_length := 0
    row_count := s.row_count + 1 }

end Rle

/-- The length of a run; 0 stands for the longest. -/
def runLength (n longest : ℕ) : ℕ := if n = 0 then longest else n

section Round

variable (b : SimpleBitmap) (beans : ℕ → UInt8)

/-- `1xxxYYYYY`, behind its first bit. -/
def onOffCode (s : Rle) : Rle × Bool :=
  s.assertBits beans b.bitmap_length 3 fun on_bits s =>
    let s := s.fill (runLength on_bits 8) PIXEL_CH
    s.assertBits beans b.bitmap_length 5 fun off_bits s =>
      let s := s.fill (runLength off_bits 32) PIXEL_BG
      ({ s with row_length := s.row_length + (runLength off_bits 32 + runLength on_bits 8) }, true)

/-- `01XXXXXX`, behind its first two bits. -/
def offCode (s : Rle) : Rle × Bool :=
  s.assertBits beans b.bitmap_length 6 fun off_bits s =>
    let s := s.fill (runLength off_bits 64) PIXEL_BG
    ({ s with row_length := s.row_length + runLength off_bits 64 }, true)

/-- `001XXXX`, behind its first three bits. -/
def onCode (s : Rle) : Rle × Bool :=
  s.assertBits beans b.bitmap_length 4 fun on_bits s =>
    let s := s.fill (runLength on_bits 16) PIXEL_CH
    ({ s with row_length := s.row_length + runLength on_bits 16 }, true)

/-- `000XX`, behind its first three bits: 1 is `EOL`, and nothing is done for the stuffing and the
reserved codes. -/
def specialCode (s : Rle) : Rle × Bool :=
  s.assertBits beans b.bitmap_length 2 fun value s =>
    let s := if value = 1 then s.endOfLine b.bitmap_h else s
    (s, s.row_count < b.bitmap_v)

/-- A round of the loop. -/
def rleCode (s : Rle) : Rle × Bool :=
  s.assertBits beans b.bitmap_length 1 fun value s =>
    if value ≠ 0 then onOffCode b beans s
    else
      s.assertBits beans b.bitmap_length 1 fun value s =>
        if value ≠ 0 then offCode b beans s
        else
          s.assertBits beans b.bitmap_length 1 fun value s =>
            if value ≠ 0 then onCode b beans s else specialCode b beans s

end Round

/-- The loop, in at most `fuel` rounds. -/
def rleLoop (b : SimpleBitmap) (beans : ℕ → UInt8) : ℕ → Rle → Option Rle
  | 0, _ => none
  | fuel + 1, s =>
    match rleCode b beans s with
    | (s, true) => rleLoop b beans fuel s
    | (s, false) => some s

/-- The variables at the start. -/
def startRle : Rle := ⟨0, 0, 0, 0, 0, 0, [], []⟩

/-! ## One field of a code -/

namespace Rle

/-- The bit that is read next. -/
def bit (s : Rle) : ℕ := 8 * s.bean_bytes + s.bean_bits

/-- The variables after `bits` bits. -/
def took (s : Rle) (bits : ℕ) : Rle :=
  { s with
    bean_bytes := (s.bit + bits) / 8
    bean_bits := (s.bit + bits) % 8
    reads := s.reads ++
      if bits + s.bean_bits < 8 then [s.bean_bytes] else [s.bean_bytes, s.bean_bytes + 1] }

section

variable {bean_buffer : ℕ → UInt8} {bean_total : ℕ} {s : Rle} {bits : ℕ}

@[simp] theorem bit_took : (s.took bits).bit = s.bit + bits := Nat.div_add_mod _ 8

theorem bean_bits_took : (s.took bits).bean_bits < 8 := Nat.mod_lt _ (by decide)

/-- The bits of a byte without its last `k`, and of these the last `n`. -/
theorem shift_and_eq (p : ℕ → UInt8) (byte : ℕ) {m n k : ℕ} (h : m + n + k = 8) :
    (p byte).toNat >>> k &&& (1 <<< n - 1) = bitsAt p (8 * byte + m) n := by
  have htake : bitsAt p (8 * byte) (m + n) = bitsAt p (8 * byte) (m + n + k) / 2 ^ k :=
    bitsAt_take p (8 * byte) (m + n) k
  rw [h, bitsAt_byte] at htake
  rw [Nat.one_shiftLeft, Nat.and_two_pow_sub_one_eq_mod, Nat.shiftRight_eq_div_pow, ← htake,
    bitsAt_drop]

/-- **`get_beans`** takes the bits in their order, and fails where they end behind the last
byte. -/
theorem getBeans_eq (hbits : bits ≤ 8) (hs : s.bean_bits < 8) :
    s.getBeans bean_buffer bean_total bits =
      (if 8 ≤ bits + s.bean_bits ∧ 8 * bean_total < s.bit + bits then none
        else some (bitsAt bean_buffer s.bit bits), s.took bits) := by
  have hbit : s.bit = 8 * s.bean_bytes + s.bean_bits := rfl
  rw [getBeans, if_neg (by omega)]
  by_cases hone : bits + s.bean_bits < 8
  · have hplace : s.bean_bits + bits + (8 - bits - s.bean_bits) = 8 := by omega
    have hnone : ¬ (8 ≤ bits + s.bean_bits ∧ 8 * bean_total < s.bit + bits) := by omega
    have hbytes : (s.bit + bits) / 8 = s.bean_bytes := by omega
    have hmod : (s.bit + bits) % 8 = s.bean_bits + bits := by omega
    rw [if_pos hone, if_neg hnone, shift_and_eq _ _ hplace, took, if_pos hone, hbytes, hmod, hbit]
  · obtain ⟨a, ha⟩ : ∃ a, bits + s.bean_bits - 8 = a := ⟨_, rfl⟩
    have hfirst : s.bean_bits + (bits - a) + 0 = 8 := by omega
    have hsecond : 0 + a + (8 - a) = 8 := by omega
    have hbytes : (s.bit + bits) / 8 = s.bean_bytes + 1 := by omega
    have hmod : (s.bit + bits) % 8 = a := by omega
    have hnext : s.bit + (bits - a) = 8 * (s.bean_bytes + 1) + 0 := by omega
    have hboth : ((bean_buffer s.bean_bytes).toNat &&& (1 <<< (bits - a) - 1)) <<< a |||
        ((bean_buffer (s.bean_bytes + 1)).toNat >>> (8 - a) &&& (1 <<< a - 1))
          = bitsAt bean_buffer s.bit bits := by
      have hleft := shift_and_eq bean_buffer s.bean_bytes hfirst
      have hright := shift_and_eq bean_buffer (s.bean_bytes + 1) hsecond
      have hsum : bits - a + a = bits := by omega
      rw [Nat.shiftRight_zero] at hleft
      rw [hleft, hright, ← Nat.shiftLeft_add_eq_or_of_lt (bitsAt_lt _ _ _), Nat.shiftLeft_eq,
        ← hnext, ← hbit, ← bitsAt_add, hsum]
    rw [if_neg hone, ha]
    dsimp only
    rw [hboth, took, if_neg hone, hbytes, hmod]
    by_cases hover : 8 * bean_total < s.bit + bits
    · rw [if_pos (by omega), if_pos (by omega)]
    · rw [if_neg (by omega), if_neg (by omega)]

/-- The bytes that are read are those of the bitmap if a bit is left behind the field. -/
theorem reads_took (h : s.bit + bits < 8 * bean_total) :
    (∀ r ∈ (s.took bits).reads, r < bean_total) ↔ ∀ r ∈ s.reads, r < bean_total := by
  have hbit : s.bit = 8 * s.bean_bytes + s.bean_bits := rfl
  have hnew : ∀ r ∈ (if bits + s.bean_bits < 8 then [s.bean_bytes]
      else [s.bean_bytes, s.bean_bytes + 1]), r < bean_total := by
    split_ifs with hone
    · simp only [List.mem_singleton, forall_eq]
      omega
    · simp only [List.mem_cons, List.not_mem_nil, or_false, forall_eq_or_imp, forall_eq]
      omega
  rw [took]
  simp only [List.mem_append, or_imp, forall_and]
  exact and_iff_left hnew

/-- Otherwise a byte behind the bitmap is read. -/
theorem exists_read_took (hbits : bits ≤ 8) (hs : s.bean_bits < 8)
    (h : 8 * bean_total ≤ s.bit + bits) :
    ∃ r ∈ (s.took bits).reads, bean_total ≤ r := by
  have hbit : s.bit = 8 * s.bean_bytes + s.bean_bits := rfl
  rw [took]
  by_cases hone : bits + s.bean_bits < 8
  · exact ⟨s.bean_bytes, by simp [hone], by omega⟩
  · exact ⟨s.bean_bytes + 1, by simp [hone], by omega⟩

variable {next : ℕ → Rle → Rle × Bool}

/-- `assert_bits` goes on, or leaves the loop behind the last byte. -/
theorem assertBits_cases (hbits : bits ≤ 8) (hs : s.bean_bits < 8) :
    s.assertBits bean_buffer bean_total bits next
        = next (bitsAt bean_buffer s.bit bits) (s.took bits) ∨
      8 * bean_total < s.bit + bits ∧
        s.assertBits bean_buffer bean_total bits next = (s.took bits, false) := by
  rw [assertBits, getBeans_eq hbits hs]
  by_cases hover : 8 ≤ bits + s.bean_bits ∧ 8 * bean_total < s.bit + bits
  · rw [if_pos hover]
    exact .inr ⟨hover.2, rfl⟩
  · rw [if_neg hover]
    exact .inl rfl

theorem assertBits_of_lt (hbits : bits ≤ 8) (hs : s.bean_bits < 8)
    (h : s.bit + bits < 8 * bean_total) :
    s.assertBits bean_buffer bean_total bits next
      = next (bitsAt bean_buffer s.bit bits) (s.took bits) :=
  (assertBits_cases hbits hs).resolve_right fun hover => by omega

theorem reads_subset_getBeans (s : Rle) (bits : ℕ) :
    s.reads ⊆ (s.getBeans bean_buffer bean_total bits).2.reads := by
  unfold getBeans
  dsimp only
  split_ifs
  · exact fun _ h => h
  · exact List.subset_append_left _ _
  · exact List.subset_append_left _ _
  · exact List.subset_append_left _ _

/-- What is read stays read. -/
theorem reads_subset_assertBits (hnext : ∀ v t, t.reads ⊆ (next v t).1.reads) (s : Rle)
    (bits : ℕ) : s.reads ⊆ (s.assertBits bean_buffer bean_total bits next).1.reads := by
  have hget := @reads_subset_getBeans bean_buffer bean_total s bits
  rw [assertBits]
  split
  case h_1 value t heq =>
    rw [heq] at hget
    exact fun r hr => hnext _ _ (hget hr)
  case h_2 t heq =>
    rw [heq] at hget
    exact hget

/-- A field that comes to the end of the bits. -/
theorem exists_read_assertBits (hnext : ∀ v t, t.reads ⊆ (next v t).1.reads) (hbits : bits ≤ 8)
    (hs : s.bean_bits < 8) (h : 8 * bean_total ≤ s.bit + bits) :
    ∃ r ∈ (s.assertBits bean_buffer bean_total bits next).1.reads, bean_total ≤ r := by
  obtain ⟨r, hr, hover⟩ := exists_read_took hbits hs h
  refine ⟨r, ?_, hover⟩
  rcases assertBits_cases hbits hs with heq | ⟨-, heq⟩
  · rw [heq]
    exact hnext _ _ hr
  · rw [heq]
    exact hr

/-- The loop goes on with the bits of a field that ends at most a byte behind the last. -/
theorem assertBits_true {t : Rle} (hbits : bits ≤ 8) (hs : s.bean_bits < 8)
    (hbit : s.bit < 8 * bean_total + 8)
    (h : s.assertBits bean_buffer bean_total bits next = (t, true)) :
    next (bitsAt bean_buffer s.bit bits) (s.took bits) = (t, true) ∧
      (s.took bits).bit < 8 * bean_total + 8 := by
  have hdef : s.bit = 8 * s.bean_bytes + s.bean_bits := rfl
  rw [assertBits, getBeans_eq hbits hs] at h
  rw [bit_took]
  by_cases hover : 8 ≤ bits + s.bean_bits ∧ 8 * bean_total < s.bit + bits
  · rw [if_pos hover] at h
    cases h
  · rw [if_neg hover] at h
    refine ⟨h, ?_⟩
    omega

end

section

variable (s : Rle) (n pixel : ℕ)

@[simp] theorem bit_fill : (s.fill n pixel).bit = s.bit := rfl

end

end Rle

/-! ## Codes -/

/-- A code: pixels of the character and of the background, the end of a row, or nothing. -/
inductive Code where
  | onOff (on_bits off_bits : ℕ)
  | off (off_bits : ℕ)
  | on (on_bits : ℕ)
  | eol
  | ignored
  deriving DecidableEq, Repr

namespace Code

/-- The bits of the code. -/
def bits : Code → ℕ
  | onOff _ _ => 9
  | off _ => 8
  | on _ => 7
  | eol => 5
  | ignored => 5

/-- Its pixels. -/
def length : Code → ℕ
  | onOff on_bits off_bits => on_bits + off_bits
  | off off_bits => off_bits
  | on on_bits => on_bits
  | eol => 0
  | ignored => 0

end Code

/-- The code at a bit. -/
def codeAt (beans : ℕ → UInt8) (i : ℕ) : Code :=
  if bitsAt beans i 1 ≠ 0 then
    .onOff (runLength (bitsAt beans (i + 1) 3) 8) (runLength (bitsAt beans (i + 4) 5) 32)
  else if bitsAt beans (i + 1) 1 ≠ 0 then .off (runLength (bitsAt beans (i + 2) 6) 64)
  else if bitsAt beans (i + 2) 1 ≠ 0 then .on (runLength (bitsAt beans (i + 3) 4) 16)
  else if bitsAt beans (i + 3) 2 = 1 then .eol
  else .ignored

section Reads

variable (b : SimpleBitmap) (beans : ℕ → UInt8) (s : Rle)

theorem reads_onOffCode : s.reads ⊆ (onOffCode b beans s).1.reads :=
  Rle.reads_subset_assertBits (fun value t =>
    Rle.reads_subset_assertBits (fun _ _ _ h => h) (t.fill (runLength value 8) PIXEL_CH) 5) _ _

theorem reads_offCode : s.reads ⊆ (offCode b beans s).1.reads :=
  Rle.reads_subset_assertBits (fun _ _ _ h => h) _ _

theorem reads_onCode : s.reads ⊆ (onCode b beans s).1.reads :=
  Rle.reads_subset_assertBits (fun _ _ _ h => h) _ _

theorem reads_specialCode : s.reads ⊆ (specialCode b beans s).1.reads := by
  refine Rle.reads_subset_assertBits (fun value t => ?_) _ _
  dsimp only
  split_ifs <;> exact fun _ h => h

theorem reads_thirdBit (value : ℕ) : s.reads ⊆
    (if value ≠ 0 then onCode b beans s else specialCode b beans s).1.reads := by
  split_ifs
  · exact reads_onCode b beans s
  · exact reads_specialCode b beans s

theorem reads_secondBit (value : ℕ) : s.reads ⊆
    (if value ≠ 0 then offCode b beans s
      else s.assertBits beans b.bitmap_length 1 fun value s =>
        if value ≠ 0 then onCode b beans s else specialCode b beans s).1.reads := by
  split_ifs
  · exact reads_offCode b beans s
  · exact Rle.reads_subset_assertBits (fun value t => reads_thirdBit b beans t value) _ _

theorem reads_firstBit (value : ℕ) : s.reads ⊆
    (if value ≠ 0 then onOffCode b beans s
      else s.assertBits beans b.bitmap_length 1 fun value s =>
        if value ≠ 0 then offCode b beans s
        else s.assertBits beans b.bitmap_length 1 fun value s =>
          if value ≠ 0 then onCode b beans s else specialCode b beans s).1.reads := by
  split_ifs
  · exact reads_onOffCode b beans s
  · exact Rle.reads_subset_assertBits (fun value t => reads_secondBit b beans t value) _ _

theorem reads_rleCode : s.reads ⊆ (rleCode b beans s).1.reads :=
  Rle.reads_subset_assertBits (fun value t => reads_firstBit b beans t value) _ _

end Reads

/-- What a code with `n` bits left makes of the variables. -/
structure Coded (b : SimpleBitmap) (s : Rle) (n : ℕ) (c : Code) (s' : Rle) : Prop where
  bit : s'.bit = s.bit + n
  bean_bits : s'.bean_bits < 8
  reads : (∀ r ∈ s'.reads, r < b.bitmap_length) ↔ ∀ r ∈ s.reads, r < b.bitmap_length
  row : c ≠ .eol → s'.row_start = s.row_start ∧ s'.row_count = s.row_count ∧
    s'.row_length = s.row_length + c.length ∧ s'.row_cursor = s.row_cursor + c.length ∧
      s'.stores.map Prod.fst = s.stores.map Prod.fst ++ List.range' s.row_cursor c.length
  eol : c = .eol → s'.row_start = s.row_start + b.bitmap_h ∧ s'.row_count = s.row_count + 1 ∧
    s'.row_length = 0 ∧ s'.row_cursor = s'.row_start ∧ s'.stores.map Prod.fst
      = s.stores.map Prod.fst ++ List.range' s.row_cursor (b.bitmap_h - s.row_length)

/-- A code with `n` bits left is in the bits, or they are read behind their end. -/
def Round (b : SimpleBitmap) (s : Rle) (n : ℕ) (c : Code) (out : Rle × Bool) : Prop :=
  (s.bit + n < 8 * b.bitmap_length ∧
      ∃ s', Coded b s n c s' ∧ out = (s', decide (s'.row_count < b.bitmap_v))) ∨
    8 * b.bitmap_length ≤ s.bit + n ∧ ∃ r ∈ out.1.reads, b.bitmap_length ≤ r

section Rounds

variable {b : SimpleBitmap} {beans : ℕ → UInt8} {s : Rle} {k n : ℕ} {c : Code}
  {next : ℕ → Rle → Rle × Bool}

theorem Coded.of_took {s' : Rle} (hlt : s.bit + k < 8 * b.bitmap_length)
    (h : Coded b (s.took k) n c s') : Coded b s (k + n) c s' where
  bit := by rw [h.bit, Rle.bit_took, Nat.add_assoc]
  bean_bits := h.bean_bits
  reads := h.reads.trans (Rle.reads_took hlt)
  row := h.row
  eol := h.eol

/-- A field and what follows. -/
theorem round_assertBits (hnext : ∀ v t, t.reads ⊆ (next v t).1.reads) (hk : k ≤ 8)
    (hs : s.bean_bits < 8) (h : s.bit + k < 8 * b.bitmap_length →
      Round b (s.took k) n c (next (bitsAt beans s.bit k) (s.took k))) :
    Round b s (k + n) c (s.assertBits beans b.bitmap_length k next) := by
  rcases lt_or_ge (s.bit + k) (8 * b.bitmap_length) with hlt | hge
  · rw [Rle.assertBits_of_lt hk hs hlt, Round, ← Nat.add_assoc]
    have hround := h hlt
    rw [Round, Rle.bit_took] at hround
    rcases hround with ⟨hin, s', hcoded, hout⟩ | hover
    · exact .inl ⟨hin, s', hcoded.of_took hlt, hout⟩
    · exact .inr hover
  · exact .inr ⟨by omega, Rle.exists_read_assertBits hnext hk hs hge⟩

/-- The end of a code. -/
theorem round_zero {s' : Rle} (hlt : s.bit < 8 * b.bitmap_length) (hcoded : Coded b s 0 c s') :
    Round b s 0 c (s', decide (s'.row_count < b.bitmap_v)) :=
  .inl ⟨hlt, s', hcoded, rfl⟩

/-- A run of pixels and nothing else. -/
theorem coded_fill (hs : s.bean_bits < 8) (hc : c ≠ .eol) (pixel : ℕ) :
    Coded b s 0 c { s.fill c.length pixel with row_length := s.row_length + c.length } where
  bit := rfl
  bean_bits := hs
  reads := Iff.rfl
  row := fun _ => ⟨rfl, rfl, rfl, rfl, by simp [Rle.fill, Function.comp_def]⟩
  eol := fun heol => absurd heol hc

theorem round_offCode (hs : s.bean_bits < 8) (hrow : s.row_count < b.bitmap_v) :
    Round b s 6 (.off (runLength (bitsAt beans s.bit 6) 64)) (offCode b beans s) := by
  unfold offCode
  refine round_assertBits (k := 6) (n := 0) (fun _ _ _ h => h) (by decide) hs fun hlt => ?_
  have hflag : decide ((s.took 6).row_count < b.bitmap_v) = true := decide_eq_true hrow
  have hround := round_zero (b := b) (by rw [Rle.bit_took]; exact hlt)
    (coded_fill (c := .off (runLength (bitsAt beans s.bit 6) 64)) Rle.bean_bits_took (by simp)
      PIXEL_BG)
  rw [← hflag]
  exact hround

theorem round_onCode (hs : s.bean_bits < 8) (hrow : s.row_count < b.bitmap_v) :
    Round b s 4 (.on (runLength (bitsAt beans s.bit 4) 16)) (onCode b beans s) := by
  unfold onCode
  refine round_assertBits (k := 4) (n := 0) (fun _ _ _ h => h) (by decide) hs fun hlt => ?_
  have hflag : decide ((s.took 4).row_count < b.bitmap_v) = true := decide_eq_true hrow
  have hround := round_zero (b := b) (by rw [Rle.bit_took]; exact hlt)
    (coded_fill (c := .on (runLength (bitsAt beans s.bit 4) 16)) Rle.bean_bits_took (by simp)
      PIXEL_CH)
  rw [← hflag]
  exact hround

theorem round_onOffCode (hs : s.bean_bits < 8) (hrow : s.row_count < b.bitmap_v) :
    Round b s 8 (.onOff (runLength (bitsAt beans s.bit 3) 8)
      (runLength (bitsAt beans (s.bit + 3) 5) 32)) (onOffCode b beans s) := by
  unfold onOffCode
  refine round_assertBits (k := 3) (n := 5) (fun v t => ?_) (by decide) hs fun hlt => ?_
  · exact Rle.reads_subset_assertBits (fun _ _ _ h => h) (t.fill (runLength v 8) PIXEL_CH) 5
  obtain ⟨on, hon⟩ : ∃ on, runLength (bitsAt beans s.bit 3) 8 = on := ⟨_, rfl⟩
  obtain ⟨t, ht⟩ : ∃ t, (s.took 3).fill on PIXEL_CH = t := ⟨_, rfl⟩
  have hbit : t.bit = s.bit + 3 := by rw [← ht, Rle.bit_fill, Rle.bit_took]
  have hbits : t.bean_bits < 8 := by
    rw [← ht]
    exact Rle.bean_bits_took
  dsimp only
  rw [hon, ht, Round, Rle.bit_took]
  rcases lt_or_ge (t.bit + 5) (8 * b.bitmap_length) with hin | hover
  · rw [Rle.assertBits_of_lt (by decide) hbits hin, hbit]
    have hflag : true = decide (t.row_count < b.bitmap_v) := by
      rw [← ht]
      exact (decide_eq_true hrow).symm
    obtain ⟨off, hoff⟩ : ∃ off, runLength (bitsAt beans (s.bit + 3) 5) 32 = off := ⟨_, rfl⟩
    rw [hoff]
    let u : Rle := { (t.took 5).fill off PIXEL_BG with row_length := t.row_length + (off + on) }
    have hread : (∀ r ∈ u.reads, r < b.bitmap_length) ↔
        ∀ r ∈ (s.took 3).reads, r < b.bitmap_length := by
      refine (Rle.reads_took hin).trans ?_
      rw [← ht]
      exact Iff.rfl
    refine .inl ⟨by omega, u, ⟨?_, Rle.bean_bits_took, ?_, fun _ => ?_, fun h => by cases h⟩,
      Prod.ext rfl hflag⟩
    · have hu : u.bit = t.bit + 5 := Rle.bit_took
      rw [hu, hbit, Rle.bit_took]
    · exact hread
    · have hplaces : u.stores.map Prod.fst = s.stores.map Prod.fst
          ++ List.range' s.row_cursor on ++ List.range' (s.row_cursor + on) off := by
        simp [u, ← ht, Rle.fill, Rle.took, Function.comp_def]
      subst ht
      refine ⟨rfl, rfl, ?_, ?_, ?_⟩
      · exact congrArg (s.row_length + ·) (Nat.add_comm off on)
      · exact Nat.add_assoc s.row_cursor on off
      · rw [hplaces, List.append_assoc, List.range'_append_1]
        rfl
  · exact .inr ⟨by omega, Rle.exists_read_assertBits (fun _ _ _ h => h) (by decide) hbits hover⟩

theorem round_specialCode (hs : s.bean_bits < 8) :
    Round b s 2 (if bitsAt beans s.bit 2 = 1 then .eol else .ignored) (specialCode b beans s) := by
  unfold specialCode
  refine round_assertBits (k := 2) (n := 0) (fun v t => ?_) (by decide) hs fun hlt => ?_
  · dsimp only
    split_ifs <;> exact fun _ h => h
  dsimp only
  have hbit : (s.took 2).bit < 8 * b.bitmap_length := by
    rw [Rle.bit_took]
    exact hlt
  split_ifs with heol
  · refine round_zero hbit ⟨rfl, Rle.bean_bits_took, Iff.rfl, fun h => absurd rfl h, fun _ => ?_⟩
    exact ⟨rfl, rfl, rfl, rfl, by simp [Rle.endOfLine, Rle.fill, Function.comp_def]⟩
  · refine round_zero hbit ⟨rfl, Rle.bean_bits_took, Iff.rfl, fun _ => ?_, fun h => by cases h⟩
    exact ⟨rfl, rfl, rfl, rfl, by simp [Code.length]⟩

/-- **A round of the loop.** -/
theorem round_rleCode (hs : s.bean_bits < 8) (hrow : s.row_count < b.bitmap_v) :
    Round b s (codeAt beans s.bit).bits (codeAt beans s.bit) (rleCode b beans s) := by
  have hsecond : (s.took 1).bit = s.bit + 1 := Rle.bit_took
  have hthird : ((s.took 1).took 1).bit = s.bit + 2 := by rw [Rle.bit_took, Rle.bit_took]
  have hfourth : (((s.took 1).took 1).took 1).bit = s.bit + 3 := by
    rw [Rle.bit_took, Rle.bit_took, Rle.bit_took]
  have hfirst := fun (v : ℕ) (t : Rle) => reads_firstBit b beans t v
  have hnext := fun (v : ℕ) (t : Rle) => reads_secondBit b beans t v
  have hlast := fun (v : ℕ) (t : Rle) => reads_thirdBit b beans t v
  rw [rleCode, codeAt]
  by_cases hone : bitsAt beans s.bit 1 ≠ 0
  · rw [if_pos hone]
    refine round_assertBits (k := 1) (n := 8) hfirst (by decide) hs fun _ => ?_
    rw [if_pos hone]
    have hround := @round_onOffCode b beans (s.took 1) Rle.bean_bits_took hrow
    rw [hsecond] at hround
    exact hround
  rw [if_neg hone]
  by_cases htwo : bitsAt beans (s.bit + 1) 1 ≠ 0
  · rw [if_pos htwo]
    refine round_assertBits (k := 1) (n := 7) hfirst (by decide) hs fun _ => ?_
    rw [if_neg hone]
    refine round_assertBits (k := 1) (n := 6) hnext (by decide) Rle.bean_bits_took fun _ => ?_
    rw [hsecond, if_pos htwo]
    have hround := @round_offCode b beans ((s.took 1).took 1) Rle.bean_bits_took hrow
    rw [hthird] at hround
    exact hround
  rw [if_neg htwo]
  have hbits : ∀ {c : Code} {n : ℕ}, c.bits = 1 + (1 + (1 + n)) →
      Round b (((s.took 1).took 1).took 1) n c
        (if bitsAt beans (s.bit + 2) 1 ≠ 0 then onCode b beans (((s.took 1).took 1).took 1)
          else specialCode b beans (((s.took 1).took 1).took 1)) →
      Round b s c.bits c (s.assertBits beans b.bitmap_length 1 fun value s =>
        if value ≠ 0 then onOffCode b beans s
        else s.assertBits beans b.bitmap_length 1 fun value s =>
          if value ≠ 0 then offCode b beans s
          else s.assertBits beans b.bitmap_length 1 fun value s =>
            if value ≠ 0 then onCode b beans s else specialCode b beans s) := by
    intro c n hc hround
    rw [hc]
    refine round_assertBits hfirst (by decide) hs fun _ => ?_
    rw [if_neg hone]
    refine round_assertBits hnext (by decide) Rle.bean_bits_took fun _ => ?_
    rw [hsecond, if_neg htwo]
    refine round_assertBits hlast (by decide) Rle.bean_bits_took fun _ => ?_
    rw [hthird]
    exact hround
  by_cases hthree : bitsAt beans (s.bit + 2) 1 ≠ 0
  · rw [if_pos hthree]
    refine hbits (n := 4) rfl ?_
    rw [if_pos hthree]
    have hround := @round_onCode b beans (((s.took 1).took 1).took 1) Rle.bean_bits_took hrow
    rw [hfourth] at hround
    exact hround
  · rw [if_neg hthree]
    refine hbits (n := 2) (by split_ifs <;> rfl) ?_
    rw [if_neg hthree]
    have hround := @round_specialCode b beans (((s.took 1).took 1).took 1) Rle.bean_bits_took
    rw [hfourth] at hround
    exact hround

end Rounds

/-! ## The loop comes to its end -/

section Loop

variable {b : SimpleBitmap} {beans : ℕ → UInt8} {s t : Rle}

/-- A round after which the loop goes on takes bits, and no more than a byte behind the last. -/
theorem bit_lt_of_rleCode (hs : s.bean_bits < 8) (hbit : s.bit < 8 * b.bitmap_length + 8)
    (h : rleCode b beans s = (t, true)) :
    s.bit < t.bit ∧ t.bit < 8 * b.bitmap_length + 8 ∧ t.bean_bits < 8 := by
  have hone : s.bit < (s.took 1).bit := by
    rw [Rle.bit_took]
    omega
  obtain ⟨h, hbit₁⟩ := Rle.assertBits_true (by decide) hs hbit h
  have htook : ∀ (u : Rle) (n : ℕ), u.bit ≤ (u.took n).bit := fun u n => by
    rw [Rle.bit_took]
    omega
  split_ifs at h
  · obtain ⟨h, hbit₂⟩ := Rle.assertBits_true (by decide) Rle.bean_bits_took hbit₁ h
    obtain ⟨h, hbit₃⟩ := Rle.assertBits_true (by decide) (by exact Rle.bean_bits_took)
      (by exact hbit₂) h
    obtain rfl := (Prod.mk.inj h).1
    exact ⟨hone.trans_le ((htook _ 3).trans (htook (((s.took 1).took 3).fill _ _) 5)), hbit₃,
      Rle.bean_bits_took⟩
  · obtain ⟨h, hbit₂⟩ := Rle.assertBits_true (by decide) Rle.bean_bits_took hbit₁ h
    split_ifs at h
    · obtain ⟨h, hbit₃⟩ := Rle.assertBits_true (by decide) Rle.bean_bits_took hbit₂ h
      obtain rfl := (Prod.mk.inj h).1
      exact ⟨hone.trans_le ((htook _ 1).trans (htook _ 6)), hbit₃, Rle.bean_bits_took⟩
    · obtain ⟨h, hbit₃⟩ := Rle.assertBits_true (by decide) Rle.bean_bits_took hbit₂ h
      have hthree : s.bit < (((s.took 1).took 1).took 1).bit :=
        hone.trans_le ((htook _ 1).trans (htook _ 1))
      split_ifs at h
      · obtain ⟨h, hbit₄⟩ := Rle.assertBits_true (by decide) Rle.bean_bits_took hbit₃ h
        obtain rfl := (Prod.mk.inj h).1
        exact ⟨hthree.trans_le (htook _ 4), hbit₄, Rle.bean_bits_took⟩
      · obtain ⟨h, hbit₄⟩ := Rle.assertBits_true (by decide) Rle.bean_bits_took hbit₃ h
        have ht := (Prod.mk.inj h).1
        split_ifs at ht <;> subst ht <;>
          exact ⟨hthree.trans_le (htook _ 2), hbit₄, Rle.bean_bits_took⟩

/-- **The stage comes to its end**: no round goes on without a bit. -/
theorem rleLoop_isSome (b : SimpleBitmap) (beans : ℕ → UInt8) {fuel : ℕ} (s : Rle)
    (hs : s.bean_bits < 8) (hbit : s.bit < 8 * b.bitmap_length + 8)
    (hfuel : 8 * b.bitmap_length + 8 ≤ s.bit + fuel) : ∃ t, rleLoop b beans fuel s = some t := by
  induction fuel generalizing s with
  | zero => omega
  | succ fuel ih =>
    rw [rleLoop]
    split
    case h_1 t heq =>
      obtain ⟨hlt, hbit', hs'⟩ := bit_lt_of_rleCode hs hbit heq
      exact ih t hs' hbit' (by omega)
    case h_2 t heq => exact ⟨t, rfl⟩

/-! ## The loop in bounds -/

/-- The bytes that are read are those of the bitmap, and the pixels that are written are those of
the rectangle. -/
structure InBitmap (b : SimpleBitmap) (s : Rle) : Prop where
  reads : ∀ r ∈ s.reads, r < b.bitmap_length
  stores : ∀ k ∈ s.stores.map Prod.fst, k < b.bitmap_size

/-- The cursor stands in a row of the rectangle. -/
structure InRow (b : SimpleBitmap) (s : Rle) : Prop where
  bean_bits : s.bean_bits < 8
  row_start : s.row_start = s.row_count * b.bitmap_h
  row_cursor : s.row_cursor = s.row_start + s.row_length
  row_count : s.row_count < b.bitmap_v

/-- From a place in a row on, the codes end with the last row, before the last bit, and their pixels
are those of the rectangle. -/
def CodesFit (b : SimpleBitmap) (beans : ℕ → UInt8) : ℕ → ℕ → ℕ → List Code → Prop
  | _, _, _, [] => False
  | row_count, row_length, i, c :: codes =>
    codeAt beans i = c ∧ i + c.bits < 8 * b.bitmap_length ∧
      if c = .eol then
        if row_count + 1 < b.bitmap_v then CodesFit b beans (row_count + 1) 0 (i + c.bits) codes
        else codes = []
      else
        (c.length = 0 ∨ row_count * b.bitmap_h + (row_length + c.length) ≤ b.bitmap_size) ∧
          CodesFit b beans row_count (row_length + c.length) (i + c.bits) codes

/-- What a round reads stays read. -/
theorem reads_rleLoop {fuel : ℕ} (h : rleLoop b beans (fuel + 1) s = some t) :
    (rleCode b beans s).1.reads ⊆ t.reads := by
  induction fuel generalizing s with
  | zero =>
    rw [rleLoop] at h
    split at h
    case h_1 u heq => cases h
    case h_2 u heq =>
      rw [heq]
      obtain rfl := Option.some.inj h
      exact fun _ hr => hr
  | succ fuel ih =>
    rw [rleLoop] at h
    split at h
    case h_1 u heq =>
      rw [heq]
      exact fun r hr => ih h (reads_rleCode b beans u hr)
    case h_2 u heq =>
      rw [heq]
      obtain rfl := Option.some.inj h
      exact fun _ hr => hr

/-- A run of pixels is in the rectangle. -/
theorem forall_mem_range'_lt {k n size : ℕ} :
    (∀ i ∈ List.range' k n, i < size) ↔ n = 0 ∨ k + n ≤ size := by
  simp only [List.mem_range'_1]
  constructor
  · intro h
    by_contra hnot
    have hlast := h (k + n - 1) (by omega)
    omega
  · rintro h i ⟨hle, hlt⟩
    omega

/-- A code in the bits. -/
theorem Coded.inBitmap_iff {c : Code} {s' : Rle} (hrow : InRow b s) (h : Coded b s c.bits c s') :
    InBitmap b s' ↔ InBitmap b s ∧ (c = .eol ∨ c.length = 0 ∨
      s.row_count * b.bitmap_h + (s.row_length + c.length) ≤ b.bitmap_size) := by
  have hstores : (∀ k ∈ s'.stores.map Prod.fst, k < b.bitmap_size) ↔
      (∀ k ∈ s.stores.map Prod.fst, k < b.bitmap_size) ∧ (c = .eol ∨ c.length = 0 ∨
        s.row_count * b.bitmap_h + (s.row_length + c.length) ≤ b.bitmap_size) := by
    have happend : ∀ {k n : ℕ}, (∀ i ∈ s.stores.map Prod.fst ++ List.range' k n,
        i < b.bitmap_size) ↔ (∀ i ∈ s.stores.map Prod.fst, i < b.bitmap_size) ∧
          (n = 0 ∨ k + n ≤ b.bitmap_size) := by
      intro k n
      rw [← forall_mem_range'_lt]
      simp only [List.mem_append, or_imp, forall_and]
    by_cases hc : c = .eol
    · obtain ⟨-, -, -, -, hplaces⟩ := h.eol hc
      have hlt := Nat.mul_le_mul_right b.bitmap_h hrow.row_count
      have hsize : b.bitmap_size = b.bitmap_v * b.bitmap_h := Nat.mul_comm _ _
      rw [Nat.succ_mul] at hlt
      rw [hplaces, happend, hrow.row_cursor, hrow.row_start]
      refine and_congr_right fun _ => iff_of_true ?_ (.inl hc)
      omega
    · obtain ⟨-, -, -, -, hplaces⟩ := h.row hc
      rw [hplaces, happend, hrow.row_cursor, hrow.row_start, Nat.add_assoc]
      simp [hc]
  constructor
  · intro hin
    obtain ⟨hs, hc⟩ := hstores.mp hin.stores
    exact ⟨⟨h.reads.mp hin.reads, hs⟩, hc⟩
  · rintro ⟨hin, hc⟩
    exact ⟨h.reads.mpr hin.reads, hstores.mpr ⟨hin.stores, hc⟩⟩

/-- The first of the codes. -/
theorem exists_fits_iff {c : Code} {row_count row_length i : ℕ} (hc : codeAt beans i = c)
    (hlt : i + c.bits < 8 * b.bitmap_length) :
    (∃ codes, CodesFit b beans row_count row_length i codes) ↔
      if c = .eol then
        row_count + 1 < b.bitmap_v →
          ∃ codes, CodesFit b beans (row_count + 1) 0 (i + c.bits) codes
      else
        (c.length = 0 ∨ row_count * b.bitmap_h + (row_length + c.length) ≤ b.bitmap_size) ∧
          ∃ codes, CodesFit b beans row_count (row_length + c.length) (i + c.bits) codes := by
  constructor
  · rintro ⟨codes, hfits⟩
    cases codes with
    | nil => exact hfits.elim
    | cons c' codes =>
      obtain ⟨hc', -, hrest⟩ := hfits
      obtain rfl : c = c' := hc.symm.trans hc'
      by_cases heol : c = .eol
      · rw [if_pos heol] at hrest ⊢
        intro hmore
        rw [if_pos hmore] at hrest
        exact ⟨codes, hrest⟩
      · rw [if_neg heol] at hrest ⊢
        exact ⟨hrest.1, codes, hrest.2⟩
  · intro h
    by_cases heol : c = .eol
    · rw [if_pos heol] at h
      by_cases hmore : row_count + 1 < b.bitmap_v
      · obtain ⟨codes, hcodes⟩ := h hmore
        exact ⟨c :: codes, hc, hlt, by rw [if_pos heol, if_pos hmore]; exact hcodes⟩
      · exact ⟨[c], hc, hlt, by rw [if_pos heol, if_neg hmore]⟩
    · rw [if_neg heol] at h
      obtain ⟨hlength, codes, hcodes⟩ := h
      exact ⟨c :: codes, hc, hlt, by rw [if_neg heol]; exact ⟨hlength, hcodes⟩⟩

/-- **The loop** stays in bounds exactly if the codes fit. -/
theorem inBitmap_rleLoop_iff {fuel : ℕ} (hrow : InRow b s) (h : rleLoop b beans fuel s = some t) :
    InBitmap b t ↔
      InBitmap b s ∧ ∃ codes, CodesFit b beans s.row_count s.row_length s.bit codes := by
  induction fuel generalizing s with
  | zero => cases h
  | succ fuel ih =>
    have hround : Round b s (codeAt beans s.bit).bits (codeAt beans s.bit) (rleCode b beans s) :=
      round_rleCode hrow.bean_bits hrow.row_count
    rcases hround with
      ⟨hlt, s', hcoded, hout⟩ | ⟨hover, r, hr, hbad⟩
    · obtain ⟨c, hc⟩ : ∃ c, codeAt beans s.bit = c := ⟨_, rfl⟩
      rw [hc] at hlt hcoded
      have hround := hcoded.inBitmap_iff hrow
      rw [exists_fits_iff hc hlt]
      rw [rleLoop, hout] at h
      by_cases heol : c = .eol
      · obtain ⟨hstart, hcount, hlength, hcursor, -⟩ := hcoded.eol heol
        rw [if_pos heol]
        by_cases hmore : s'.row_count < b.bitmap_v
        · have hrow' : InRow b s' := by
            refine ⟨hcoded.bean_bits, ?_, by rw [hcursor, hlength, Nat.add_zero], hmore⟩
            rw [hstart, hcount, hrow.row_start, Nat.succ_mul]
          rw [decide_eq_true hmore] at h
          rw [ih hrow' h, hround, hlength, hcoded.bit, hcount]
          rw [hcount] at hmore
          simp [heol, hmore]
        · rw [decide_eq_false hmore] at h
          obtain rfl := Option.some.inj h
          rw [hcount] at hmore
          rw [hround]
          simp [heol, hmore]
      · obtain ⟨hstart, hcount, hlength, hcursor, -⟩ := hcoded.row heol
        have hmore : s'.row_count < b.bitmap_v := by
          rw [hcount]
          exact hrow.row_count
        have hrow' : InRow b s' := by
          refine ⟨hcoded.bean_bits, ?_, ?_, hmore⟩
          · rw [hstart, hcount, hrow.row_start]
          · rw [hcursor, hstart, hlength, hrow.row_cursor, Nat.add_assoc]
        rw [decide_eq_true hmore] at h
        rw [if_neg heol, ih hrow' h, hround, hlength, hcoded.bit, hcount, and_assoc]
        simp [heol]
    · refine iff_of_false (fun hin => ?_) fun hin => ?_
      · have hlt := hin.reads r (reads_rleLoop h hr)
        omega
      · obtain ⟨-, codes, hfits⟩ := hin
        cases codes with
        | nil => exact hfits
        | cons c codes =>
          obtain ⟨hc, hlt, -⟩ := hfits
          rw [hc] at hover
          omega

end Loop

/-! ## The rows of a bitmap -/

/-- The codes stand one behind the other from a bit on. -/
def Spells (beans : ℕ → UInt8) : ℕ → List Code → Prop
  | _, [] => True
  | i, c :: codes => codeAt beans i = c ∧ Spells beans (i + c.bits) codes

/-- The bits of codes. -/
def codesBits (codes : List Code) : ℕ := (codes.map Code.bits).sum

/-- The pixels of codes. -/
def codesLength (codes : List Code) : ℕ := (codes.map Code.length).sum

/-- No row is longer than the part of the rectangle from its start on. -/
def RowsFit (bitmap_h : ℕ) : List (List Code) → Prop
  | [] => True
  | row :: rows => codesLength row ≤ (rows.length + 1) * bitmap_h ∧ RowsFit bitmap_h rows

/-- The codes of rows, each with its end. -/
def rowsCodes (rows : List (List Code)) : List Code := rows.flatMap (· ++ [.eol])

section Rows

variable {b : SimpleBitmap} {beans : ℕ → UInt8}

@[simp] theorem codesBits_cons (c : Code) (codes : List Code) :
    codesBits (c :: codes) = c.bits + codesBits codes := rfl

@[simp] theorem codesLength_cons (c : Code) (codes : List Code) :
    codesLength (c :: codes) = c.length + codesLength codes := rfl

theorem codesBits_append (codes codes' : List Code) :
    codesBits (codes ++ codes') = codesBits codes + codesBits codes' := by
  simp [codesBits]

theorem spells_append (i : ℕ) (codes codes' : List Code) :
    Spells beans i (codes ++ codes') ↔
      Spells beans i codes ∧ Spells beans (i + codesBits codes) codes' := by
  induction codes generalizing i with
  | nil => simp [Spells, codesBits]
  | cons c codes ih =>
    rw [List.cons_append, Spells, Spells, ih, codesBits_cons, and_assoc, Nat.add_assoc]

/-- The codes of a row in front of others that fit. -/
theorem exists_fits_of_row {row_count row_length i : ℕ} {row : List Code} (heol : .eol ∉ row)
    (hspells : Spells beans i row) (hbits : i + codesBits row < 8 * b.bitmap_length)
    (hlength : codesLength row = 0 ∨
      row_count * b.bitmap_h + (row_length + codesLength row) ≤ b.bitmap_size)
    (hrest : ∃ codes, CodesFit b beans row_count (row_length + codesLength row)
      (i + codesBits row) codes) :
    ∃ codes, CodesFit b beans row_count row_length i codes := by
  induction row generalizing row_length i with
  | nil => exact hrest
  | cons c row ih =>
    obtain ⟨hc, hspells⟩ := hspells
    rw [codesBits_cons, ← Nat.add_assoc] at hbits hrest
    rw [codesLength_cons] at hlength hrest
    rw [← Nat.add_assoc] at hrest
    rw [exists_fits_iff hc (by omega), if_neg (List.ne_of_not_mem_cons heol).symm]
    refine ⟨by omega, ih (List.not_mem_of_not_mem_cons heol) hspells hbits ?_ hrest⟩
    omega

/-- What is left of a row, and the rows behind it. -/
theorem exists_fits_iff_rows {row_count row_length i : ℕ} (hcount : row_count < b.bitmap_v) :
    (∃ codes, CodesFit b beans row_count row_length i codes) ↔
      ∃ row rows, row_count + (rows.length + 1) = b.bitmap_v ∧
        (.eol ∉ row ∧ ∀ row' ∈ rows, .eol ∉ row') ∧
        Spells beans i (row ++ .eol :: rowsCodes rows) ∧
        i + codesBits (row ++ .eol :: rowsCodes rows) < 8 * b.bitmap_length ∧
        (codesLength row = 0 ∨ row_length + codesLength row ≤ (rows.length + 1) * b.bitmap_h) ∧
        RowsFit b.bitmap_h rows := by
  have hsize : ∀ {n : ℕ}, row_count + n = b.bitmap_v →
      b.bitmap_size = row_count * b.bitmap_h + n * b.bitmap_h := fun h => by
    rw [SimpleBitmap.bitmap_size, ← h, Nat.mul_comm, Nat.add_mul]
  constructor
  · rintro ⟨codes, hfits⟩
    induction codes generalizing row_count row_length i with
    | nil => exact hfits.elim
    | cons c codes ih =>
      obtain ⟨hc, hlt, hrest⟩ := hfits
      by_cases heol : c = .eol
      · rw [if_pos heol] at hrest
        subst heol
        by_cases hmore : row_count + 1 < b.bitmap_v
        · -- the end of a row
          rw [if_pos hmore] at hrest
          obtain ⟨row, rows, hrows, ⟨hrow, hnone⟩, hspells, hbits, hlength, hfit⟩ :=
            ih hmore (fun h => by rw [SimpleBitmap.bitmap_size, ← h, Nat.mul_comm, Nat.add_mul])
              hrest
          have hcodes : rowsCodes (row :: rows) = row ++ .eol :: rowsCodes rows := by
            simp [rowsCodes]
          refine ⟨[], row :: rows, by rw [List.length_cons]; omega, ⟨by simp, ?_⟩, ?_, ?_,
            .inl rfl, ?_, hfit⟩
          · exact List.forall_mem_cons.mpr ⟨hrow, hnone⟩
          · rw [hcodes]
            exact ⟨hc, hspells⟩
          · rw [hcodes, List.nil_append, codesBits_cons]
            omega
          · rcases hlength with hzero | hle
            · rw [hzero]
              exact Nat.zero_le _
            · rwa [Nat.zero_add] at hle
        · -- the end of the last row
          rw [if_neg hmore] at hrest
          refine ⟨[], [], by simp; omega, ⟨by simp, by simp⟩, ⟨hc, trivial⟩, hlt, .inl rfl, trivial⟩
      · rw [if_neg heol] at hrest
        obtain ⟨hpixels, hrest⟩ := hrest
        obtain ⟨row, rows, hrows, ⟨hrow, hnone⟩, hspells, hbits, hlength, hfit⟩ :=
          ih hcount hsize hrest
        have hall := hsize hrows
        refine ⟨c :: row, rows, hrows, ⟨?_, hnone⟩, ⟨hc, hspells⟩, ?_, ?_, hfit⟩
        · exact List.not_mem_cons_of_ne_of_not_mem (Ne.symm heol) hrow
        · rw [List.cons_append, codesBits_cons]
          omega
        · rw [codesLength_cons]
          omega
  · rintro ⟨row, rows, hrows, ⟨hrow, hnone⟩, hspells, hbits, hlength, hfit⟩
    induction rows generalizing row_count row_length i row with
    | nil =>
      rw [spells_append] at hspells
      rw [codesBits_append, codesBits_cons] at hbits
      have hall := hsize hrows
      refine exists_fits_of_row hrow hspells.1 (by omega) (by omega) ?_
      rw [exists_fits_iff hspells.2.1 (by omega), if_pos rfl]
      intro hmore
      rw [List.length_nil] at hrows
      omega
    | cons row' rows ih =>
      have hcodes : rowsCodes (row' :: rows) = row' ++ .eol :: rowsCodes rows := by
        simp [rowsCodes]
      have hall := hsize hrows
      rw [spells_append, hcodes] at hspells
      rw [codesBits_append, codesBits_cons, hcodes] at hbits
      rw [List.length_cons] at hrows
      refine exists_fits_of_row hrow hspells.1 (by omega) (by omega) ?_
      rw [exists_fits_iff hspells.2.1 (by omega), if_pos rfl]
      intro hmore
      obtain ⟨hrow', hnone'⟩ := List.forall_mem_cons.mp hnone
      refine ih hmore (fun h => ?_) row' (by omega) hrow' hnone' hspells.2.2 (by omega) ?_ hfit.2
      · rw [SimpleBitmap.bitmap_size, ← h, Nat.mul_comm, Nat.add_mul]
      · rw [Nat.zero_add]
        exact .inr hfit.1

end Rows

/-- The stage comes to its end, writes the pixels of the rectangle and reads the bytes of the
bitmap. -/
def RleSafe (b : SimpleBitmap) (beans : ℕ → UInt8) : Prop :=
  (∃ fuel t, rleLoop b beans fuel startRle = some t) ∧
    ∀ fuel t, rleLoop b beans fuel startRle = some t → InBitmap b t

/-- **The run-length stage** is safe exactly if the bits spell as many rows as the rectangle has,
with at least a bit behind them, and no row is longer than what is left of the rectangle. -/
theorem rleSafe_iff (b : SimpleBitmap) (beans : ℕ → UInt8) :
    RleSafe b beans ↔ ∃ rows : List (List Code), rows.length = b.bitmap_v ∧
      (∀ row ∈ rows, .eol ∉ row) ∧ Spells beans 0 (rowsCodes rows) ∧
        codesBits (rowsCodes rows) < 8 * b.bitmap_length ∧ RowsFit b.bitmap_h rows := by
  have hrow : InRow b startRle := ⟨by decide, (Nat.zero_mul _).symm, rfl, b.bitmap_v_pos⟩
  have hin : InBitmap b startRle := ⟨by simp [startRle], by simp [startRle]⟩
  have hsome : ∃ fuel t, rleLoop b beans fuel startRle = some t :=
    ⟨_, rleLoop_isSome b beans startRle (by decide) (Nat.zero_lt_succ _) (Nat.le_add_left _ _)⟩
  have hsafe : RleSafe b beans ↔ ∃ codes, CodesFit b beans 0 0 0 codes := by
    constructor
    · rintro ⟨-, hall⟩
      obtain ⟨fuel, t, ht⟩ := hsome
      exact ((inBitmap_rleLoop_iff hrow ht).mp (hall fuel t ht)).2
    · exact fun hfits => ⟨hsome, fun fuel t ht => (inBitmap_rleLoop_iff hrow ht).mpr ⟨hin, hfits⟩⟩
  rw [hsafe, exists_fits_iff_rows b.bitmap_v_pos]
  constructor
  · rintro ⟨row, rows, hrows, ⟨hrow, hnone⟩, hspells, hbits, hlength, hfit⟩
    have hcodes : rowsCodes (row :: rows) = row ++ .eol :: rowsCodes rows := by simp [rowsCodes]
    refine ⟨row :: rows, by rw [List.length_cons]; omega, ?_, by rw [hcodes]; exact hspells, ?_, ?_,
      hfit⟩
    · exact List.forall_mem_cons.mpr ⟨hrow, hnone⟩
    · rw [hcodes]
      omega
    · omega
  · rintro ⟨rows, hrows, hnone, hspells, hbits, hfit⟩
    cases rows with
    | nil =>
      have hpos := b.bitmap_v_pos
      rw [← hrows] at hpos
      exact absurd hpos (by decide)
    | cons row rows =>
      have hcodes : rowsCodes (row :: rows) = row ++ .eol :: rowsCodes rows := by simp [rowsCodes]
      rw [hcodes] at hspells hbits
      rw [List.length_cons] at hrows
      refine ⟨row, rows, by omega, List.forall_mem_cons.mp hnone, hspells, by omega, .inr ?_,
        hfit.2⟩
      rw [Nat.zero_add]
      exact hfit.1

/-- A rectangle of one pixel, a run of 40 pixels and the end of the row. -/
theorem not_rleSafe_longRun : ¬ ∀ (buffer : ℕ → UInt8) b beans, setUp buffer = .ready b beans →
    RleSafe b fun i => buffer (beans + i) := by
  intro h
  have hsafe := h ([0, 0, 0, 0, 0, 0, 0, 0x10, 0x01, 0, 4, 0x80, 0x04, 0, 0].getD · 0) _ _ rfl
  have hin := hsafe.2 3 _ rfl
  exact absurd (hin.stores 39 (by decide)) (by decide)

end Scte27
end AmlSubtitle
