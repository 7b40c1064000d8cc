import AmlSubtitle.Lib.Bits

/-!
# `io/Userdata.c`: the captions of SCTE-20

`aml_process_scte_userdata`, which takes caption constructs of 26 bits out of a section and writes
those of line 21 and line 284 into an array of 64 bytes.

* `getBits_eq`: the macro `GET` takes the bits of the section in their order.
* `scteLoop_of_fits`, `scteLoop_of_not_fits`: the loop takes all constructs, or all bits that it
  thinks are left.
* `processScte_inBounds_iff`: when the writes, the size that is passed on and the bits that are
  read are in bounds.
-/

namespace AmlSubtitle
namespace Scte20

open Bits

/-! ## Bits -/

/-- `NST_BITS`. -/
def nstBits (v : UInt8) (b l : ℕ) : ℕ := v.toNat >>> b &&& 0xff >>> (8 - l)

/-- The value that `GET` takes, of `b` bits from `bits` on. -/
def getBits (p : ℕ → UInt8) (bits b : ℕ) : ℕ :=
  let off := bits >>> 3
  let bs := bits &&& 7
  if b ≤ 8 - bs then
    nstBits (p off) (8 - bs - b) b
  else
    let b1 := 8 - bs
    let b2 := b - b1
    nstBits (p off) 0 b1 <<< b2 ||| nstBits (p (off + 1)) (8 - b + b1) (b - b1)

theorem nstBits_eq (p : ℕ → UInt8) (off : ℕ) {b l : ℕ} (h : b + l ≤ 8) :
    nstBits (p off) b l = bitsAt p (8 * off + (8 - b - l)) l := by
  obtain ⟨m, hm⟩ : ∃ m, m + l + b = 8 := ⟨8 - b - l, by omega⟩
  have hfirst : 8 - b - l = m := by omega
  have hmask : 0xff >>> (8 - l) = 2 ^ l - 1 := by
    have hl : l ≤ 8 := by omega
    interval_cases l <;> rfl
  have htake := bitsAt_take p (8 * off) (m + l) b
  rw [hm, bitsAt_byte] at htake
  rw [nstBits, hmask, Nat.and_two_pow_sub_one_eq_mod, Nat.shiftRight_eq_div_pow, ← htake, hfirst,
    bitsAt_drop]

/-- **`GET`** takes the bits in their order. -/
theorem getBits_eq (p : ℕ → UInt8) (bits : ℕ) {b : ℕ} (hb : b ≤ 8) :
    getBits p bits b = bitsAt p bits b := by
  have hoff : bits >>> 3 = bits / 8 := Nat.shiftRight_eq_div_pow bits 3
  have hbs : bits &&& 7 = bits % 8 := Nat.and_two_pow_sub_one_eq_mod bits 3
  have hsum : 8 * (bits / 8) + bits % 8 = bits := Nat.div_add_mod bits 8
  have hlt : bits % 8 < 8 := Nat.mod_lt _ (by decide)
  rw [getBits, hoff, hbs]
  dsimp only
  split_ifs with hone
  · have hplace : 8 - (8 - bits % 8 - b) - b = bits % 8 := by omega
    rw [nstBits_eq p _ (by omega), hplace, hsum]
  · obtain ⟨b1, hb1⟩ : ∃ b1, 8 - bits % 8 = b1 := ⟨_, rfl⟩
    obtain ⟨b2, rfl⟩ : ∃ b2, b = b1 + b2 := ⟨b - b1, by omega⟩
    have hplace : 8 - 0 - b1 = bits % 8 := by omega
    have hnext : 8 * (bits / 8 + 1) + (8 - (8 - (b1 + b2) + b1) - b2) = bits + b1 := by omega
    rw [hb1, Nat.add_sub_cancel_left, nstBits_eq p _ (by omega), nstBits_eq p _ (by omega), hplace,
      hnext, hsum, ← Nat.shiftLeft_add_eq_or_of_lt (bitsAt_lt p (bits + b1) b2), Nat.shiftLeft_eq,
      bitsAt_add]

/-! ## Constructs -/

/-- The fields of a construct. -/
structure Construct where
  prio : ℕ
  field : ℕ
  line : ℕ
  cc1 : ℕ
  cc2 : ℕ
  mark : ℕ
  deriving DecidableEq, Repr

/-- The `GET`s of fields with these widths, up to the first that fails: the values if none does, and
the bits that are taken. -/
def getFields (p : ℕ → UInt8) (left_bits : ℤ) : List ℕ → ℕ → Option (List ℕ) × ℕ
  | [], bits => (some [], bits)
  | b :: widths, bits =>
    if left_bits < (bits + b : ℕ) then (none, bits)
    else
      let rest := getFields p left_bits widths (bits + b)
      (rest.1.map (getBits p bits b :: ·), rest.2)

/-- The widths of the fields of a construct. -/
def constructWidths : List ℕ := [2, 2, 5, 8, 8, 1]

/-- The fields of a construct from their values. -/
def Construct.ofValues : List ℕ → Construct
  | [prio, field, line, cc1, cc2, mark] => ⟨prio, field, line, cc1, cc2, mark⟩
  | _ => ⟨0, 0, 0, 0, 0, 0⟩

/-- The line of the picture a construct is for, if its field has one. -/
def Construct.pictureLine (c : Construct) (top_bit_value : Bool) : Option ℕ :=
  let field := if c.field = 3 then 1 else c.field
  if field = 1 then some (if top_bit_value then c.line + 10 else c.line + 273)
  else if field = 2 then some (if top_bit_value then c.line + 273 else c.line + 10)
  else none

/-- The construct is for one of the lines of captions. -/
def Construct.isCaption (c : Construct) (top_bit_value : Bool) : Bool :=
  c.pictureLine top_bit_value = some 21 ∨ c.pictureLine top_bit_value = some 284

/-- `scte20_get_char`: the bits in the other order. -/
def scte20GetChar (c : ℕ) : UInt8 := ⟨(UInt8.ofNat c).toBitVec.reverse⟩

/-- The variables of the loop; `writes` are the places of `cc_data` that are written. -/
structure ScteState where
  bits : ℕ
  array_position : ℕ
  cc_count : ℕ
  cc_data : ℕ → UInt8
  writes : List ℕ

/-- Three bytes behind those in `cc_data`. -/
def ScteState.put (s : ScteState) (head : UInt8) (c : Construct) : ScteState :=
  { s with
    cc_data := Function.update (Function.update (Function.update s.cc_data s.array_position head)
      (s.array_position + 1) (scte20GetChar c.cc1)) (s.array_position + 2) (scte20GetChar c.cc2)
    writes := s.writes ++ [s.array_position, s.array_position + 1, s.array_position + 2]
    array_position := s.array_position + 3
    cc_count := s.cc_count + 1 }

/-- A construct. -/
def ScteState.add (s : ScteState) (c : Construct) (top_bit_value : Bool) : ScteState :=
  match c.pictureLine top_bit_value with
  | some 21 => s.put 4 c
  | some 284 => s.put (4 ||| 1) c
  | _ => s

/-- The loop over `n` constructs, and whether it comes to its end. -/
def scteLoop (p : ℕ → UInt8) (left_bits : ℤ) (top_bit_value : Bool) :
    ℕ → ScteState → ScteState × Bool
  | 0, s => (s, true)
  | n + 1, s =>
    match getFields p left_bits constructWidths s.bits with
    | (none, bits) => ({ s with bits := bits }, false)
    | (some values, bits) =>
      scteLoop p left_bits top_bit_value n
        (ScteState.add { s with bits := bits } (Construct.ofValues values) top_bit_value)

/-- What is passed on. -/
structure SctePassed where
  poc : ℕ
  type : ℕ
  size : ℕ
  cc_data : ℕ → UInt8

/-- What the function writes and passes on, and the bit of the section up to which it reads. -/
structure ScteResult where
  writes : List ℕ
  passed : Option SctePassed
  consumed : Option ℕ

/-- `IS_SCTE`. -/
def isScte (p : ℕ → UInt8) : Bool := p 0 = 0x3 ∧ (p 1).toNat &&& 0x7f = 1

/-- The search for the header, eight bytes at a time, in at most `fuel` steps. -/
def findHead (data : ℕ → UInt8) (len : ℤ) : ℕ → ℕ → ℕ
  | 0, head_posi => head_posi
  | fuel + 1, head_posi =>
    if (head_posi : ℤ) < len then
      if isScte (fun k => data (head_posi + k)) then head_posi
      else findHead data len fuel (head_posi + 8)
    else head_posi

/-- Where the search ends. -/
def headPosi (data : ℕ → UInt8) (len : ℤ) : ℕ := findHead data len len.toNat 0

/-- The array behind its header. -/
def startState : ScteState where
  bits := 5
  array_position := 7
  cc_count := 0
  cc_data := fun k => [0x47, 0x41, 0x39, 0x34, 0x3].getD k 0
  writes := [0, 1, 2, 3, 4]

/-- `top_bit_value`, of the flags of a picture. -/
def topBitValue (flags : ℕ) : Bool := if flags.testBit 10 then flags.testBit 11 else true

/-- `aml_process_scte_userdata`. -/
def amlProcessScteUserdata (scte_enable : Bool) (flags : ℕ) (data : ℕ → UInt8) (len : ℤ) :
    ScteResult :=
  let head_posi := headPosi data len
  let p := fun k => data (head_posi + 2 + k)
  if scte_enable = false ∨ len - head_posi < 8 then
    { writes := [], passed := none, consumed := none }
  else
    let v := bitsAt data (8 * 4) 32
    let left_bits := (len - head_posi) * 8
    -- there are eight bytes, so that the first `GET` does not fail
    let cnt := getBits p 0 5
    let (s, complete) := scteLoop p left_bits (topBitValue flags) cnt startState
    let consumed := some (8 * (head_posi + 2) + s.bits)
    if complete then
      { writes := s.writes ++ [5]
        passed := if 0 < s.cc_count then
            some { poc := v >>> 16 &&& 0x3ff, type := v >>> 26 &&& 7, size := 7 + s.cc_count * 3
                   cc_data := Function.update s.cc_data 5 (UInt8.ofNat (0x40 ||| s.cc_count)) }
          else none
        consumed := consumed }
    else
      { writes := s.writes, passed := none, consumed := consumed }

/-! ## The loop -/

/-- The values of fields with these widths. -/
def fieldsAt (p : ℕ → UInt8) : List ℕ → ℕ → List ℕ
  | [], _ => []
  | b :: widths, bits => bitsAt p bits b :: fieldsAt p widths (bits + b)

/-- The construct that starts at a bit. -/
def constructAt (p : ℕ → UInt8) (bits : ℕ) : Construct :=
  Construct.ofValues (fieldsAt p constructWidths bits)

/-- How many of the `n` constructs from a bit on are captions. -/
def captions (p : ℕ → UInt8) (top_bit_value : Bool) (bits n : ℕ) : ℕ :=
  (List.range n).countP fun i => (constructAt p (bits + 26 * i)).isCaption top_bit_value

section Loop

variable {p : ℕ → UInt8} {left_bits : ℤ} {top_bit_value : Bool}

theorem getFields_of_fits {widths : List ℕ} (hw : ∀ b ∈ widths, b ≤ 8) {bits : ℕ}
    (hfit : ((bits + widths.sum : ℕ) : ℤ) ≤ left_bits) :
    getFields p left_bits widths bits = (some (fieldsAt p widths bits), bits + widths.sum) := by
  induction widths generalizing bits with
  | nil => rfl
  | cons b widths ih =>
    rw [List.sum_cons, ← Nat.add_assoc] at hfit
    have hone : ¬ left_bits < (bits + b : ℕ) := by omega
    rw [getFields, if_neg hone, ih (fun b hb => hw b (List.mem_cons_of_mem _ hb)) hfit, fieldsAt,
      getBits_eq p bits (hw b List.mem_cons_self), List.sum_cons, Nat.add_assoc]
    rfl

/-- A `GET` fails with less than a byte left. -/
theorem getFields_of_not_fits {widths : List ℕ} (hw : ∀ b ∈ widths, b ≤ 8) {bits : ℕ}
    (hle : (bits : ℤ) ≤ left_bits) (hfit : left_bits < ((bits + widths.sum : ℕ) : ℤ)) :
    ∃ bits' : ℕ, getFields p left_bits widths bits = (none, bits') ∧ left_bits < bits' + 8 := by
  induction widths generalizing bits with
  | nil =>
    rw [List.sum_nil, Nat.add_zero] at hfit
    omega
  | cons b widths ih =>
    rw [List.sum_cons, ← Nat.add_assoc] at hfit
    have hb : b ≤ 8 := hw b List.mem_cons_self
    rw [getFields]
    split_ifs with hone
    · exact ⟨bits, rfl, by push_cast at hone; omega⟩
    · obtain ⟨bits', hrest, hlast⟩ :=
        ih (fun b hb => hw b (List.mem_cons_of_mem _ hb)) (not_lt.mp hone) hfit
      exact ⟨bits', by rw [hrest]; rfl, hlast⟩

theorem constructWidths_le : ∀ b ∈ constructWidths, b ≤ 8 := by decide

theorem captions_succ (bits n : ℕ) :
    captions p top_bit_value bits (n + 1)
      = (if (constructAt p bits).isCaption top_bit_value then 1 else 0)
        + captions p top_bit_value (bits + 26) n := by
  have hplace : ∀ i, bits + 26 * (i + 1) = bits + 26 + 26 * i := fun i => by omega
  simp only [captions, List.range_succ_eq_map, List.countP_cons, List.countP_map, Function.comp_def,
    Nat.succ_eq_add_one, Nat.mul_zero, Nat.add_zero, hplace, Nat.add_comm]

/-- A caption is put behind the others, and any other construct changes nothing. -/
theorem add_cases (s : ScteState) (c : Construct) (top_bit_value : Bool) :
    c.isCaption top_bit_value = true ∧ (∃ head, s.add c top_bit_value = s.put head c) ∨
      c.isCaption top_bit_value = false ∧ s.add c top_bit_value = s := by
  rw [ScteState.add]
  split
  case h_1 hline => exact .inl ⟨by simp [Construct.isCaption, hline], 4, rfl⟩
  case h_2 hline => exact .inl ⟨by simp [Construct.isCaption, hline], 4 ||| 1, rfl⟩
  case h_3 hfirst hsecond =>
    refine .inr ⟨?_, rfl⟩
    rw [Construct.isCaption, decide_eq_false_iff_not]
    rintro (h | h)
    · exact hfirst h
    · exact hsecond h

theorem add_bits (s : ScteState) (c : Construct) (top_bit_value : Bool) :
    (s.add c top_bit_value).bits = s.bits := by
  rcases add_cases s c top_bit_value with ⟨-, head, hadd⟩ | ⟨-, hadd⟩
  · rw [hadd]
    rfl
  · rw [hadd]

/-- With bits enough the loop takes all constructs, and writes three bytes for each caption. -/
theorem scteLoop_of_fits (n : ℕ) (s : ScteState)
    (hfit : ((s.bits + 26 * n : ℕ) : ℤ) ≤ left_bits) :
    ∃ s', scteLoop p left_bits top_bit_value n s = (s', true) ∧ s'.bits = s.bits + 26 * n ∧
      s'.cc_count = s.cc_count + captions p top_bit_value s.bits n ∧
      s'.writes = s.writes
        ++ List.range' s.array_position (3 * captions p top_bit_value s.bits n) := by
  induction n generalizing s with
  | zero => exact ⟨s, rfl, rfl, rfl, by simp [captions]⟩
  | succ n ih =>
    have hfields : getFields p left_bits constructWidths s.bits
        = (some (fieldsAt p constructWidths s.bits), s.bits + 26) :=
      getFields_of_fits constructWidths_le (by
        have hsum : constructWidths.sum = 26 := rfl
        rw [hsum]
        omega)
    have hbits : s.bits + 26 + 26 * n = s.bits + 26 * (n + 1) := by omega
    rw [scteLoop, hfields]
    dsimp only
    rw [captions_succ]
    change ∃ s', scteLoop p left_bits top_bit_value n
      (ScteState.add { s with bits := s.bits + 26 } (constructAt p s.bits) top_bit_value)
        = (s', true) ∧ _
    rcases add_cases { s with bits := s.bits + 26 } (constructAt p s.bits) top_bit_value with
      ⟨hcap, head, hadd⟩ | ⟨hcap, hadd⟩
    · obtain ⟨s', hloop, hb, hcount, hwrites⟩ :=
        ih (ScteState.put { s with bits := s.bits + 26 } head (constructAt p s.bits))
          (by simpa [ScteState.put, hbits] using hfit)
      refine ⟨s', by rw [hadd, hloop], by rw [hb, ← hbits]; rfl, ?_, ?_⟩
      · rw [hcount, hcap, if_pos rfl, ← Nat.add_assoc]
        rfl
      · have hthree : [s.array_position, s.array_position + 1, s.array_position + 2]
            = List.range' s.array_position 3 := rfl
        rw [hwrites, hcap, if_pos rfl, Nat.mul_add, ← List.range'_append_1, ← List.append_assoc,
          ← hthree]
        rfl
    · obtain ⟨s', hloop, hb, hcount, hwrites⟩ :=
        ih { s with bits := s.bits + 26 } (by simpa [hbits] using hfit)
      refine ⟨s', by rw [hadd, hloop], by rw [hb, ← hbits], ?_, ?_⟩
      · rw [hcount, hcap]
        simp
      · rw [hwrites, hcap]
        simp

/-- Otherwise it takes all bits that it thinks are left, but for less than a byte. -/
theorem scteLoop_of_not_fits (n : ℕ) (s : ScteState) (hle : (s.bits : ℤ) ≤ left_bits)
    (hfit : left_bits < ((s.bits + 26 * n : ℕ) : ℤ)) :
    left_bits < (scteLoop p left_bits top_bit_value n s).1.bits + 8 := by
  induction n generalizing s with
  | zero =>
    rw [Nat.mul_zero, Nat.add_zero] at hfit
    omega
  | succ n ih =>
    have hsum : constructWidths.sum = 26 := rfl
    rcases lt_or_ge left_bits ((s.bits + 26 : ℕ) : ℤ) with hlast | hone
    · obtain ⟨bits', hfields, hlt⟩ :=
        getFields_of_not_fits (p := p) constructWidths_le hle (by rw [hsum]; exact hlast)
      rw [scteLoop, hfields]
      exact hlt
    · have hfields : getFields p left_bits constructWidths s.bits
          = (some (fieldsAt p constructWidths s.bits), s.bits + constructWidths.sum) :=
        getFields_of_fits constructWidths_le (by rw [hsum]; exact hone)
      have hbits : (ScteState.add { s with bits := s.bits + constructWidths.sum }
          (constructAt p s.bits) top_bit_value).bits = s.bits + 26 := by
        rw [add_bits, hsum]
      rw [scteLoop, hfields]
      refine ih _ ?_ ?_ <;> rw [← constructAt, hbits] <;> omega

end Loop

/-! ## The section -/

/-- The writes and the size that is passed on are in the array, and the bits are those of the
section. -/
def ScteResult.InBounds (len : ℤ) (r : ScteResult) : Prop :=
  (∀ i ∈ r.writes, i < 64) ∧ (∀ passed ∈ r.passed, passed.size ≤ 64) ∧
    ∀ bits ∈ r.consumed, (bits : ℤ) ≤ 8 * len

/-- The number of constructs of a section. -/
def constructs (data : ℕ → UInt8) (len : ℤ) : ℕ := bitsAt data (8 * (headPosi data len + 2)) 5

/-- The number of captions of a section. -/
def sectionCaptions (flags : ℕ) (data : ℕ → UInt8) (len : ℤ) : ℕ :=
  captions data (topBitValue flags) (8 * (headPosi data len + 2) + 5) (constructs data len)


theorem captions_offset (data : ℕ → UInt8) (k : ℕ) (top_bit_value : Bool) (bits n : ℕ) :
    captions (fun j => data (k + j)) top_bit_value bits n
      = captions data top_bit_value (8 * k + bits) n := by
  have hfields : ∀ (widths : List ℕ) (bits : ℕ),
      fieldsAt (fun j => data (k + j)) widths bits = fieldsAt data widths (8 * k + bits) := by
    intro widths
    induction widths with
    | nil => exact fun _ => rfl
    | cons b widths ih =>
      intro bits
      rw [fieldsAt, fieldsAt, ih, bitsAt_offset, Nat.add_assoc]
  simp only [captions, constructAt, hfields, Nat.add_assoc]

/-- The writes of `c` captions are in the array exactly when there are no more than nineteen. -/
theorem writes_inBounds_iff (c : ℕ) :
    (∀ i ∈ startState.writes ++ List.range' startState.array_position (3 * c) ++ [5], i < 64)
      ↔ c ≤ 19 := by
  have hstart : ∀ i ∈ startState.writes, i < 64 := by decide
  have hposition : startState.array_position = 7 := rfl
  simp only [List.mem_append, List.mem_range'_1, List.mem_singleton, hposition]
  constructor
  · intro h
    by_contra hc
    have hlast := h 64 (.inl (.inr ⟨by decide, by omega⟩))
    omega
  · rintro hc i ((hi | hi) | rfl)
    · exact hstart i hi
    · omega
    · decide

/-- **SCTE-20.**  The function stays in its array and in the section exactly when it has nothing to
do, or when the constructs end two bytes before the end that it reckons with, which is the
end of the section, and no more than nineteen of them are captions. -/
theorem processScte_inBounds_iff (scte_enable : Bool) (flags : ℕ) (data : ℕ → UInt8) (len : ℤ) :
    (amlProcessScteUserdata scte_enable flags data len).InBounds len ↔
      (scte_enable = true → 8 ≤ len - headPosi data len →
        ((5 + 26 * constructs data len : ℕ) : ℤ) ≤ 8 * (len - headPosi data len - 2) ∧
          sectionCaptions flags data len ≤ 19) := by
  obtain ⟨head_posi, hhead⟩ : ∃ head_posi, headPosi data len = head_posi := ⟨_, rfl⟩
  obtain ⟨cnt, hcnt⟩ : ∃ cnt, constructs data len = cnt := ⟨_, rfl⟩
  have hcntBits : getBits (fun k => data (head_posi + 2 + k)) 0 5 = cnt := by
    rw [getBits_eq _ _ (by decide), bitsAt_offset, ← hhead, Nat.add_zero]
    exact hcnt
  have hcap : captions (fun k => data (head_posi + 2 + k)) (topBitValue flags) startState.bits cnt
      = sectionCaptions flags data len := by
    rw [captions_offset, ← hhead, ← hcnt]
    rfl
  have hbits : startState.bits = 5 := rfl
  rw [amlProcessScteUserdata, hhead, hcnt]
  dsimp only
  rw [hcntBits]
  by_cases hnone : scte_enable = false ∨ len - head_posi < 8
  · rw [if_pos hnone]
    refine ⟨fun _ henable hlen => ?_, fun _ => ⟨by simp, by simp, by simp⟩⟩
    rcases hnone with hdisabled | hshort
    · rw [hdisabled] at henable
      exact absurd henable (by decide)
    · omega
  rw [if_neg hnone]
  obtain ⟨henable, hlen⟩ : scte_enable = true ∧ 8 ≤ len - head_posi := by
    simpa using hnone
  rcases le_or_gt ((startState.bits + 26 * cnt : ℕ) : ℤ) ((len - head_posi) * 8) with hfit | hfit
  · obtain ⟨s', hloop, hend, hcount, hwrites⟩ :=
      @scteLoop_of_fits (fun k => data (head_posi + 2 + k)) _ (topBitValue flags) cnt startState
        hfit
    rw [hcap] at hcount hwrites
    rw [hloop]
    dsimp only
    rw [if_pos rfl, ScteResult.InBounds, hwrites, writes_inBounds_iff, hend, hbits]
    have hsize : 7 + s'.cc_count * 3 = 7 + sectionCaptions flags data len * 3 := by
      rw [hcount]
      exact congrArg (7 + · * 3) (Nat.zero_add _)
    constructor
    · rintro ⟨hcaptions, -, hconsumed⟩ - -
      have hin := hconsumed _ rfl
      exact ⟨by push_cast at hin ⊢; omega, hcaptions⟩
    · intro h
      obtain ⟨hin, hcaptions⟩ := h henable hlen
      refine ⟨hcaptions, ?_, ?_⟩
      · intro passed hpassed
        split_ifs at hpassed
        · obtain rfl := Option.some.inj hpassed
          dsimp only
          omega
        · exact absurd hpassed (by simp)
      · intro bits heq
        obtain rfl := Option.some.inj heq
        push_cast at hin ⊢
        omega
  · have hlast := @scteLoop_of_not_fits (fun k => data (head_posi + 2 + k)) _ (topBitValue flags)
      cnt startState (by rw [hbits]; omega) hfit
    obtain ⟨bits, hend⟩ : ∃ bits, (scteLoop (fun k => data (head_posi + 2 + k))
        ((len - head_posi) * 8) (topBitValue flags) cnt startState).1.bits = bits := ⟨_, rfl⟩
    rw [hend] at hlast
    rw [hbits] at hfit
    refine iff_of_false ?_ fun h => ?_
    · rintro ⟨-, -, hconsumed⟩
      have hin := hconsumed (8 * (head_posi + 2) + bits) (by rw [hend]; split_ifs <;> rfl)
      push_cast at hin
      omega
    · have hin := (h henable hlen).1
      push_cast at hin hfit
      omega

/-- A section of nine bytes with two constructs: with their 57 bits it would take ten. -/
theorem not_inBounds_twoConstructs :
    ¬ ∀ (scte_enable : Bool) (flags : ℕ) (data : ℕ → UInt8) (len : ℤ),
      (amlProcessScteUserdata scte_enable flags data len).InBounds len := by
  intro h
  have hbounds := (processScte_inBounds_iff true 0 (fun k => [3, 1, 0x10].getD k 0) 9).mp
    (h true 0 _ 9) rfl (by decide)
  revert hbounds
  decide

end Scte20
end AmlSubtitle
