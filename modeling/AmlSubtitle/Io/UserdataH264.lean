import AmlSubtitle.Io.Userdata
import AmlSubtitle.Lib.Words
import Mathlib.Logic.Relation

/-!
# `io/Userdata.c`: the user data of H.264 pictures

`aml_process_h264_userdata` looks for the identifier of a caption packet at every eighth byte.  The
length of a packet is in the byte behind its identifier, which has three bytes in front of it if the
format of the record is that of H.264.

* `h264Loop_le`: no more is consumed than there is.
* `h264_inBounds_iff`: the reads are in the record unless an identifier stands in its last eight
  bytes.
-/

namespace AmlSubtitle
namespace Userdata

open Words

/-! ## Formats -/

/-- `userdata_type`. -/
inductive UserdataType where
  | INVALID_TYPE
  | MPEG_CC_TYPE
  | H264_CC_TYPE
  | DIRECTV_CC_TYPE
  | AVS_CC_TYPE
  | SCTE_CC_TYPE
  | MPEG_AFD_TYPE
  | H264_AFD_TYPE
  deriving DecidableEq, Repr

/-- `IS_H264` and `IS_H265`. -/
def isH264 (p : ℕ → UInt8) : Bool :=
  p 0 = 0xb5 ∧ p 3 = 0x47 ∧ p 4 = 0x41 ∧ p 5 = 0x39 ∧ p 6 = 0x34

/-- `IS_DIRECTV`. -/
def isDirectv (p : ℕ → UInt8) : Bool := p 0 = 0xb5 ∧ p 1 = 0x00 ∧ p 2 = 0x2f

/-- `IS_AVS` and `IS_ATSC`. -/
def isAvs (p : ℕ → UInt8) : Bool := p 0 = 0x47 ∧ p 1 = 0x41 ∧ p 2 = 0x39 ∧ p 3 = 0x34

/-- `IS_AFD`. -/
def isAfd (p : ℕ → UInt8) : Bool := p 0 = 0x44 ∧ p 1 = 0x54 ∧ p 2 = 0x47 ∧ p 3 = 0x31

/-- `IS_H264_AFD`. -/
def isH264Afd (p : ℕ → UInt8) : Bool :=
  p 0 = 0xb5 ∧ p 3 = 0x44 ∧ p 4 = 0x54 ∧ p 5 = 0x47 ∧ p 6 = 0x31

/-- An identifier of a caption packet. -/
def isPacket (p : ℕ → UInt8) : Bool := isH264 p || isDirectv p || isAvs p

/-- The bits of the mode: `USERDATA_MODE_CC` and `USERDATA_MODE_AFD`. -/
structure Mode where
  cc : Bool
  afd : Bool

/-! ## The loop -/

/-- What the loop has done: the bytes consumed, those read (where they begin, and how many), and the
packets passed on. -/
structure H264Walk where
  r : ℕ
  reads : List (ℕ × ℕ)
  packets : List (List UInt8)

section Loop

variable (mode : Mode) (format : UserdataType) (data : ℕ → UInt8) (len : ℕ)

/-- The bytes in front of a packet. -/
def hdr : ℕ := if format = .H264_CC_TYPE then 3 else 0

/-- The length of the packet at `r`, which begins behind `hdr` bytes. -/
def pl (r : ℕ) : ℕ := 8 + ((data (r + hdr format + 5)).toNat &&& 0x1f) * 3

/-- The loop, in at most `fuel` rounds.  An identifier is in the first seven bytes of eight. -/
def h264Loop : ℕ → H264Walk → H264Walk
  | 0, w => w
  | fuel + 1, w =>
    if len - w.r < 8 then w
    else if mode.cc ∧ isPacket (fun k => data (w.r + k)) then
      let reads := w.reads ++ [(w.r, 7), (w.r + hdr format + 5, 1)]
      if len - w.r < pl format data w.r + hdr format then { w with reads := reads }
      else
        h264Loop fuel
          { r := w.r + (pl format data w.r + hdr format)
            reads := reads ++ [(w.r + hdr format, pl format data w.r)]
            packets := w.packets ++
              [(List.range (pl format data w.r)).map fun k => data (w.r + hdr format + k)] }
    else if mode.afd ∧ isH264Afd (fun k => data (w.r + k)) then
      { w with r := w.r + 8, reads := w.reads ++ [(w.r, 7), (w.r + 7, 1)] }
    else h264Loop fuel { w with r := w.r + 8, reads := w.reads ++ [(w.r, 7)] }

/-- `aml_process_h264_userdata`. -/
def amlProcessH264Userdata : H264Walk := h264Loop mode format data len len ⟨0, [], []⟩

/-- The loop goes on from `r` at `r'`. -/
def Next (r r' : ℕ) : Prop :=
  r + 8 ≤ len ∧
    if mode.cc ∧ isPacket (fun k => data (r + k)) then
      r' = r + (pl format data r + hdr format) ∧ r' ≤ len
    else ¬ (mode.afd ∧ isH264Afd (fun k => data (r + k))) ∧ r' = r + 8

/-- From `r` on no packet is met in the last eight bytes, whose length would stand behind them. -/
def LengthsFit (r : ℕ) : Prop :=
  ∀ r', Relation.ReflTransGen (Next mode format data len) r r' → r' + 8 = len →
    ¬ (mode.cc ∧ isPacket fun k => data (r' + k))

variable {mode format data len}

theorem hdr_le : hdr format ≤ 3 := by
  unfold hdr
  split_ifs
  · exact le_rfl
  · exact Nat.zero_le _

theorem eight_le_pl (r : ℕ) : 8 ≤ pl format data r := Nat.le_add_right _ _

/-- No more is consumed than there is. -/
theorem h264Loop_le (fuel : ℕ) {w : H264Walk} (hr : w.r ≤ len) :
    (h264Loop mode format data len fuel w).r ≤ len := by
  induction fuel generalizing w with
  | zero => exact hr
  | succ fuel ih =>
    rw [h264Loop]
    split_ifs with hleft hpacket hlong hafd
    · exact hr
    · exact hr
    · refine ih ?_
      dsimp only
      omega
    · dsimp only
      omega
    · refine ih ?_
      dsimp only
      omega

theorem lengthsFit_iff {r : ℕ} : LengthsFit mode format data len r ↔
    (r + 8 = len → ¬ (mode.cc ∧ isPacket fun k => data (r + k))) ∧
      ∀ r₁, Next mode format data len r r₁ → LengthsFit mode format data len r₁ := by
  constructor
  · exact fun h => ⟨h r .refl, fun r₁ hnext r' hreach => h r' (.head hnext hreach)⟩
  · rintro ⟨hfirst, hrest⟩ r' hreach
    rcases hreach.cases_head with rfl | ⟨r₁, hnext, hreach⟩
    · exact hfirst
    · exact hrest r₁ hnext r' hreach

/-- A read of the record. -/
def InRecord (len : ℕ) (a : ℕ × ℕ) : Prop := a.1 + a.2 ≤ len

theorem inRecord_append {reads reads' : List (ℕ × ℕ)} :
    (∀ a ∈ reads ++ reads', InRecord len a) ↔
      (∀ a ∈ reads, InRecord len a) ∧ ∀ a ∈ reads', InRecord len a := List.forall_mem_append

/-- The reads from `w.r` on. -/
theorem h264Loop_reads_iff (fuel : ℕ) {w : H264Walk} (hfuel : len ≤ w.r + fuel) :
    (∀ a ∈ (h264Loop mode format data len fuel w).reads, InRecord len a) ↔
      (∀ a ∈ w.reads, InRecord len a) ∧
        (format = .H264_CC_TYPE → LengthsFit mode format data len w.r) := by
  induction fuel generalizing w with
  | zero =>
    refine (and_iff_left fun _ => lengthsFit_iff.mpr ⟨fun h => ?_, fun r₁ hnext => ?_⟩).symm
    · omega
    · have hin := hnext.1
      omega
  | succ fuel ih =>
    rw [h264Loop]
    by_cases hleft : len - w.r < 8
    · rw [if_pos hleft]
      refine (and_iff_left fun _ => lengthsFit_iff.mpr ⟨fun h => ?_, fun r₁ hnext => ?_⟩).symm
      · omega
      · have hin := hnext.1
        omega
    rw [if_neg hleft]
    have height : w.r + 8 ≤ len := by omega
    by_cases hpacket : mode.cc ∧ isPacket fun k => data (w.r + k)
    · rw [if_pos hpacket]
      dsimp only
      have hpl := @eight_le_pl format data w.r
      have hhdr := @hdr_le format
      -- the length is read behind the record only if the packet is in its last eight bytes
      have hlast : format = .H264_CC_TYPE ∧ w.r + 8 = len ↔ len < w.r + hdr format + 6 := by
        unfold hdr
        split_ifs with hformat
        · exact ⟨fun h => by omega, fun h => ⟨hformat, by omega⟩⟩
        · exact ⟨fun h => absurd h.1 hformat, fun h => by omega⟩
      have htwo : (∀ a ∈ [(w.r, 7), (w.r + hdr format + 5, 1)], InRecord len a) ↔
          ¬ (format = .H264_CC_TYPE ∧ w.r + 8 = len) := by
        rw [hlast, List.forall_mem_cons, List.forall_mem_singleton]
        unfold InRecord
        dsimp only
        omega
      have hnext : ∀ r₁, Next mode format data len w.r r₁ ↔
          r₁ = w.r + (pl format data w.r + hdr format) ∧ r₁ ≤ len := by
        intro r₁
        rw [Next, if_pos hpacket, and_iff_right height]
      have hfit : (format = .H264_CC_TYPE → LengthsFit mode format data len w.r) ↔
          ¬ (format = .H264_CC_TYPE ∧ w.r + 8 = len) ∧
            (w.r + (pl format data w.r + hdr format) ≤ len → format = .H264_CC_TYPE →
              LengthsFit mode format data len (w.r + (pl format data w.r + hdr format))) := by
        rw [lengthsFit_iff]
        simp only [hnext, and_imp, forall_eq]
        constructor
        · intro h
          exact ⟨fun hlast => (h hlast.1).1 hlast.2 hpacket, fun hle hformat => (h hformat).2 hle⟩
        · rintro ⟨hnot, hrest⟩ hformat
          exact ⟨fun hlen => absurd ⟨hformat, hlen⟩ hnot, fun hle => hrest hle hformat⟩
      rw [hfit]
      by_cases hlong : len - w.r < pl format data w.r + hdr format
      · rw [if_pos hlong, inRecord_append, htwo]
        refine and_congr_right fun _ => (and_iff_left fun hle => ?_).symm
        omega
      · rw [if_neg hlong, ih (by dsimp only; omega), inRecord_append, inRecord_append, htwo,
          List.forall_mem_singleton]
        have hthree : InRecord len (w.r + hdr format, pl format data w.r) := by
          unfold InRecord
          dsimp only
          omega
        have hle : w.r + (pl format data w.r + hdr format) ≤ len := by omega
        simp only [hthree, hle, true_imp_iff, and_true, and_assoc]
    · rw [if_neg hpacket]
      by_cases hafd : mode.afd ∧ isH264Afd fun k => data (w.r + k)
      · rw [if_pos hafd]
        dsimp only
        have htwo : ∀ a ∈ [(w.r, 7), (w.r + 7, 1)], InRecord len a := by
          rw [List.forall_mem_cons, List.forall_mem_singleton]
          unfold InRecord
          dsimp only
          omega
        rw [inRecord_append, and_iff_left htwo]
        refine (and_iff_left fun _ => ?_).symm
        refine lengthsFit_iff.mpr ⟨fun _ => hpacket, fun r₁ hnext => ?_⟩
        rw [Next, if_neg hpacket] at hnext
        exact absurd hafd hnext.2.1
      · rw [if_neg hafd, ih (by dsimp only; omega)]
        have hone : InRecord len (w.r, 7) := by
          unfold InRecord
          dsimp only
          omega
        have hnext : ∀ r₁, Next mode format data len w.r r₁ ↔ r₁ = w.r + 8 := by
          intro r₁
          rw [Next, if_neg hpacket, and_iff_right height, and_iff_right hafd]
        rw [inRecord_append, List.forall_mem_singleton, and_iff_left hone,
          lengthsFit_iff (r := w.r)]
        simp only [hnext, forall_eq]
        refine and_congr_right fun _ => imp_congr_right fun _ => ?_
        exact (and_iff_right fun _ => hpacket).symm

variable (mode format data len)

/-- `aml_process_h264_userdata` reads the record, and consumes no more than it has. -/
def H264InBounds : Prop :=
  (∀ a ∈ (amlProcessH264Userdata mode format data len).reads, InRecord len a) ∧
    (amlProcessH264Userdata mode format data len).r ≤ len

/-- **The user data of H.264** is read in its bounds exactly if, in the format of H.264, no
identifier is met in the last eight bytes. -/
theorem h264_inBounds_iff : H264InBounds mode format data len ↔
    (format = .H264_CC_TYPE → LengthsFit mode format data len 0) := by
  have hreads := @h264Loop_reads_iff mode format data len len ⟨0, [], []⟩ (Nat.le_add_left _ _)
  rw [and_iff_right (List.forall_mem_nil _)] at hreads
  rw [H264InBounds, amlProcessH264Userdata, hreads]
  exact and_iff_left (h264Loop_le len (Nat.zero_le _))

end Loop

/-- Eight bytes with the identifier of H.264. -/
def lastIdentifier : ℕ → UInt8 := fun k => [0xb5, 0, 0x31, 0x47, 0x41, 0x39, 0x34, 3].getD k 0

/-- The length of a packet is looked for behind a record of eight bytes. -/
theorem not_h264InBounds_last : ¬ ∀ (mode : Mode) (format : UserdataType) (data : ℕ → UInt8)
    (len : ℕ), H264InBounds mode format data len := by
  intro h
  have hread : 8 + 1 ≤ 8 :=
    (h ⟨true, false⟩ .H264_CC_TYPE lastIdentifier 8).1 (8, 1) (by decide)
  exact absurd hread (by decide)

end Userdata
end AmlSubtitle
