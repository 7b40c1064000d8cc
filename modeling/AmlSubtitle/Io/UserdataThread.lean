import AmlSubtitle.Io.UserdataH264
import AmlSubtitle.Io.UserdataScte
import AmlSubtitle.Lib.Lockstep

/-!
# `io/Userdata.c`: the thread that reads the user data

In each round of its inner loop, `aml_userdata_thread` reads a record if fewer than eight bytes are
left, looks for the format of what is left, and hands it to the function for the format.  A record
is read to the front of the buffer, but its bytes are swapped from `left` on, and `pd` stays where
it was if nothing is read.

* `progress_iff`: each round reads, or has fewer bytes left behind it, unless a caption packet is
  met of which the end is missing.

What the driver gives is a parameter of a round.
-/

namespace AmlSubtitle
namespace Userdata

open Words Bits Scte20

/-- `MAX_CC_DATA_LEN`. -/
def MAX_CC_DATA_LEN : ℕ := 1024 * 5 + 4

/-- `IS_CC_TYPE`. -/
def UserdataType.isCc (format : UserdataType) : Bool :=
  format ∈ [.MPEG_CC_TYPE, .H264_CC_TYPE, .DIRECTV_CC_TYPE, .AVS_CC_TYPE, .SCTE_CC_TYPE]

/-- `IS_AFD_TYPE`. -/
def UserdataType.isAfd (format : UserdataType) : Bool :=
  format ∈ [.MPEG_AFD_TYPE, .H264_AFD_TYPE]

/-- `userdata_meta_info_t`. -/
structure MetaInfo where
  poc_number : ℕ
  flags : ℕ
  vpts : ℕ
  vpts_valid : ℕ
  duration : ℕ
  records_in_que : ℕ

/-- Captions that are passed on. -/
inductive Extracted where
  | mpeg (type : ℕ) (r : CcRecord)
  | scte (type : ℕ) (r : CcRecord)
  | h264 (r : CcRecord)
  deriving DecidableEq

/-! ## Formats -/

/-- `aml_check_userdata_format`. -/
def amlCheckUserdataFormat (buf : ℕ → UInt8) (vfmt len : ℕ) : UserdataType :=
  let flag := fun k => buf (8 + k)
  if len < 8 then .INVALID_TYPE
  else if vfmt = 2 then
    if isH264 buf then .H264_CC_TYPE
    else if isDirectv buf then .DIRECTV_CC_TYPE
    else if isH264Afd buf then .H264_AFD_TYPE
    else .INVALID_TYPE
  else if vfmt = 7 then
    if isAvs buf then .AVS_CC_TYPE else .INVALID_TYPE
  else if vfmt = 0 ∧ 16 ≤ len then
    if isAvs flag then .MPEG_CC_TYPE
    else if isScte flag then .SCTE_CC_TYPE
    else if isAfd flag then .MPEG_AFD_TYPE
    else .INVALID_TYPE
  else .INVALID_TYPE

/-- The search for a format, in at most `fuel` steps of eight bytes: the format, how far the search
goes, and what is left behind that. -/
def findFormat (data : ℕ → UInt8) (vfmt : ℕ) : ℕ → ℕ → ℕ → UserdataType × ℕ × ℕ
  | 0, pd, left => (.INVALID_TYPE, pd, left)
  | fuel + 1, pd, left =>
    if left < 8 then (.INVALID_TYPE, pd, left)
    else
      let format := amlCheckUserdataFormat (fun k => data (pd + k)) vfmt left
      if !format.isCc && !format.isAfd then findFormat data vfmt fuel (pd + 8) (left - 8)
      else (format, pd, left)

/-! ## The functions for the formats -/

/-- What one of them passes on, and how many bytes it consumes. -/
structure Processed where
  captions : List Extracted
  r : ℕ

section Process

variable (mode : Mode) (info : MetaInfo) (data : ℕ → UInt8) (len : ℕ)

/-- The record of `bytes` that are shown at `pts`. -/
def record (poc : ℤ) (pts : ℕ) (bytes : List UInt8) : CcRecord where
  poc := poc
  buf := bytes
  pts := pts
  ptsValid := asSigned 32 info.vpts_valid
  duration := info.duration

/-- The loop of `aml_process_mpeg_userdata`, in at most `fuel` rounds. -/
def mpegLoop : ℕ → ℕ → Processed
  | 0, r => ⟨[], r⟩
  | fuel + 1, r =>
    if len - r < 16 then ⟨[], r⟩
    else if mode.cc ∧ isAvs (fun k => data (r + 8 + k)) then
      let v := bitsAt data (8 * (r + 4)) 32
      if info.flags.testBit 2 then
        ⟨[.mpeg (v >>> 26 &&& 7) (record info (v >>> 16 &&& 0x3ff : ℕ) info.vpts
          ((List.range (len - r - 8)).map fun k => data (r + 8 + k)))], len⟩
      else ⟨[], len⟩
    else if mode.afd ∧ isAfd (fun k => data (r + 8 + k)) then ⟨[], r + 8⟩
    else mpegLoop fuel (r + 8)

/-- `aml_process_mpeg_userdata`. -/
def amlProcessMpegUserdata : Processed := mpegLoop mode info data len len 0

/-- `aml_process_scte_userdata`, which passes its captions on itself. -/
def processScte : Processed where
  captions := ((amlProcessScteUserdata true info.flags data len).passed.map fun p =>
    Extracted.scte p.type (record info p.poc 0 ((List.range p.size).map p.cc_data))).toList
  r := len

/-- `aml_process_h264_userdata`. -/
def processH264 (format : UserdataType) : Processed :=
  let w := amlProcessH264Userdata mode format data len
  { captions := w.packets.map fun bytes =>
      .h264 (record info (asSigned 32 info.poc_number) info.vpts bytes)
    r := w.r }

/-- The function for a format. -/
def process (scte_enable : Bool) (format : UserdataType) : Processed :=
  match format with
  | .MPEG_CC_TYPE | .MPEG_AFD_TYPE => amlProcessMpegUserdata mode info data len
  | .SCTE_CC_TYPE => if scte_enable then processScte info data len else ⟨[], len⟩
  | .INVALID_TYPE => ⟨[], len⟩
  | _ => processH264 mode info data len format

end Process

/-! ## The thread -/

/-- `aml_swap_data`: each block of eight bytes the other way round. -/
def amlSwapData (data : ℕ → UInt8) (start size : ℕ) : ℕ → UInt8 := fun k =>
  if start ≤ k ∧ k < start + 8 * (size / 8) then
    data (start + 8 * ((k - start) / 8) + (7 - (k - start) % 8))
  else data k

/-- What a round meets: the record the driver has, which is empty if it has none, and the mode. -/
structure Given where
  bytes : List UInt8
  info : MetaInfo
  mode : Mode
  length_le : bytes.length ≤ MAX_CC_DATA_LEN

/-- The variables of the thread, and `scte_enable`. -/
structure Thread where
  data : ℕ → UInt8
  pd : ℕ
  left : ℕ
  info : MetaInfo
  scte_enable : Bool

/-- `bytes` are written at the front of the buffer. -/
def write (data : ℕ → UInt8) (bytes : List UInt8) : ℕ → UInt8 := fun k =>
  bytes.getD k (data k)

/-- The record is read. -/
def Thread.read (t : Thread) (g : Given) : Thread :=
  { t with
    data := amlSwapData (write t.data g.bytes) t.left g.bytes.length
    pd := 0
    left := t.left + g.bytes.length
    info := g.info }

/-- What is left is handed to the function for its format, and what that leaves is moved. -/
def Thread.parse (t : Thread) (vfmt : ℕ) (mode : Mode) : Thread × List Extracted :=
  let (format, pd, left) := findFormat t.data vfmt t.left t.pd t.left
  let done := process mode t.info (fun k => t.data (pd + k)) left t.scte_enable format
  ({ t with
      data := fun k => if k < left - done.r then t.data (pd + done.r + k) else t.data k
      pd := pd
      left := left - done.r
      scte_enable := t.scte_enable && !(format ∈ [.MPEG_CC_TYPE, .MPEG_AFD_TYPE] : Bool) },
    done.captions)

/-- The loop goes on, or what is left is dropped when the thread waits again. -/
def Thread.goOn (t : Thread) : Thread :=
  if 1 < t.info.records_in_que ∨ 8 ≤ t.left then t else { t with left := 0 }

/-- A round before the loop is asked if it goes on. -/
def Thread.work (t : Thread) (vfmt : ℕ) (g : Given) : Thread × List Extracted :=
  if t.left < 8 then
    if g.bytes = [] then ({ t with info := g.info }, [])
    else (t.read g).parse vfmt g.mode
  else t.parse vfmt g.mode

/-- A round of the inner loop. -/
def Thread.round (t : Thread) (vfmt : ℕ) (g : Given) : Thread := (t.work vfmt g).1.goOn

/-- The thread when it starts, with anything in its buffer. -/
def startThread (data : ℕ → UInt8) : Thread := ⟨data, 0, 0, ⟨0, 0, 0, 0, 0, 0⟩, true⟩

/-! ## Progress -/

section Progress

variable {mode : Mode} {info : MetaInfo} {data : ℕ → UInt8} {len vfmt : ℕ}

theorem le_h264Loop (format : UserdataType) (fuel : ℕ) (w : H264Walk) :
    w.r ≤ (h264Loop mode format data len fuel w).r := by
  induction fuel generalizing w with
  | zero => exact le_rfl
  | succ fuel ih =>
    rw [h264Loop]
    dsimp only
    split_ifs
    · exact le_rfl
    · exact le_rfl
    · refine le_trans ?_ (ih _)
      exact Nat.le_add_right _ _
    · exact Nat.le_add_right _ _
    · refine le_trans ?_ (ih _)
      exact Nat.le_add_right _ _

/-- The caption packet at the front of what is left has no end. -/
def Truncated (mode : Mode) (vfmt : ℕ) (data : ℕ → UInt8) (len : ℕ) : Prop :=
  let format := amlCheckUserdataFormat data vfmt len
  mode.cc ∧ format ∈ [.H264_CC_TYPE, .DIRECTV_CC_TYPE, .AVS_CC_TYPE] ∧
    len < pl format data 0 + hdr format

/-- The first round of the loop. -/
theorem processH264_pos_iff (hlen : 8 ≤ len) (format : UserdataType) :
    0 < (processH264 mode info data len format).r ↔
      ¬ (mode.cc ∧ isPacket data ∧ len < pl format data 0 + hdr format) := by
  obtain ⟨fuel, rfl⟩ : ∃ fuel, len = fuel + 1 := ⟨len - 1, by omega⟩
  have hdata : (fun k => data (0 + k)) = data := funext fun k => congrArg data (Nat.zero_add k)
  have hfirst : ¬ fuel + 1 - 0 < 8 := by omega
  have hpl := @eight_le_pl format data 0
  have hmono := @le_h264Loop mode data (fuel + 1) format fuel
  rw [processH264, amlProcessH264Userdata, h264Loop]
  dsimp only
  rw [if_neg hfirst, hdata, Nat.zero_add, Nat.sub_zero]
  split_ifs with hpacket hlong hafd
  · exact iff_of_false (lt_irrefl 0) fun h => h ⟨hpacket.1, hpacket.2, hlong⟩
  · refine iff_of_true (lt_of_lt_of_le ?_ (hmono _)) fun h => hlong h.2.2
    dsimp only
    omega
  · exact iff_of_true (Nat.succ_pos 7) fun h => hpacket ⟨h.1, h.2.1⟩
  · refine iff_of_true (lt_of_lt_of_le ?_ (hmono _)) fun h => hpacket ⟨h.1, h.2.1⟩
    exact Nat.succ_pos 7

theorem mpegLoop_pos (hlen : 16 ≤ len) (fuel r : ℕ) (hr : 0 < r ∨ 0 < fuel ∧ r = 0) :
    0 < (mpegLoop mode info data len fuel r).r := by
  induction fuel generalizing r with
  | zero =>
    rw [mpegLoop]
    dsimp only
    omega
  | succ fuel ih =>
    rw [mpegLoop]
    split_ifs with hleft
    · dsimp only
      omega
    · dsimp only
      omega
    · dsimp only
      omega
    · exact Nat.succ_pos _
    · exact ih _ (.inl (Nat.succ_pos _))

/-- The formats that are found, and what stands there. -/
theorem format_cases {format : UserdataType}
    (hformat : amlCheckUserdataFormat data vfmt len = format) :
    format = .INVALID_TYPE ∨ format = .SCTE_CC_TYPE ∨
      16 ≤ len ∧ (format = .MPEG_CC_TYPE ∨ format = .MPEG_AFD_TYPE) ∨
      isPacket data ∧ format ∈ [.H264_CC_TYPE, .DIRECTV_CC_TYPE, .AVS_CC_TYPE] ∨
      ¬ isPacket data ∧ format = .H264_AFD_TYPE := by
  subst hformat
  unfold amlCheckUserdataFormat isPacket
  dsimp only
  split_ifs with hshort hvfmt hh264 hdirectv hafd hvfmt' havs hvfmt'' hatsc hscte hafd'
  · exact .inl rfl
  · simp [hh264]
  · simp [hdirectv]
  · have hfirst : ¬ isAvs data := by
      unfold isH264Afd at hafd
      unfold isAvs
      simp only [decide_eq_true_eq] at hafd ⊢
      rw [hafd.1]
      exact fun h => absurd h.1 (by decide)
    simp [hh264, hdirectv, hfirst]
  · exact .inl rfl
  · simp [havs]
  · exact .inl rfl
  · exact .inr (.inr (.inl ⟨hvfmt''.2, .inl rfl⟩))
  · exact .inr (.inl rfl)
  · exact .inr (.inr (.inl ⟨hvfmt''.2, .inr rfl⟩))
  · exact .inl rfl
  · exact .inl rfl

/-- The function for the format that stands in front. -/
theorem process_pos_iff (hlen : 8 ≤ len) (scte_enable : Bool) :
    0 < (process mode info data len scte_enable (amlCheckUserdataFormat data vfmt len)).r ↔
      ¬ Truncated mode vfmt data len := by
  unfold Truncated
  dsimp only
  generalize hformat : amlCheckUserdataFormat data vfmt len = format
  rcases format_cases hformat with rfl | rfl | ⟨hlong, rfl | rfl⟩ | ⟨hpacket, hmem⟩ |
    ⟨hpacket, rfl⟩
  · exact iff_of_true (lt_of_lt_of_le (by decide) hlen) fun h => absurd h.2.1 (by decide)
  · refine iff_of_true ?_ fun h => absurd h.2.1 (by decide)
    unfold process processScte
    dsimp only
    split_ifs
    · dsimp only
      omega
    · dsimp only
      omega
  · refine iff_of_true (mpegLoop_pos hlong _ _ ?_) fun h => absurd h.2.1 (by decide)
    exact .inr ⟨by omega, rfl⟩
  · refine iff_of_true (mpegLoop_pos hlong _ _ ?_) fun h => absurd h.2.1 (by decide)
    exact .inr ⟨by omega, rfl⟩
  · have hprocess : process mode info data len scte_enable format =
        processH264 mode info data len format := by
      simp only [List.mem_cons, List.not_mem_nil, or_false] at hmem
      rcases hmem with rfl | rfl | rfl <;> rfl
    rw [hprocess, processH264_pos_iff hlen, and_iff_right hpacket, and_iff_right hmem]
  · refine iff_of_true ((processH264_pos_iff hlen _).mpr fun h => hpacket h.2.1) fun h => ?_
    exact absurd h.2.1 (by decide)

theorem findFormat_le (fuel pd left : ℕ) : (findFormat data vfmt fuel pd left).2.2 ≤ left := by
  induction fuel generalizing pd left with
  | zero => exact le_rfl
  | succ fuel ih =>
    rw [findFormat]
    dsimp only
    split_ifs
    · exact le_rfl
    · exact (ih _ _).trans (Nat.sub_le _ _)
    · exact le_rfl

/-- **A round that does not read** leaves fewer bytes unless a packet is truncated. -/
theorem parse_left_lt_iff {t : Thread} (hleft : 8 ≤ t.left) :
    (t.parse vfmt mode).1.left < t.left ↔
      ¬ Truncated mode vfmt (fun k => t.data (t.pd + k)) t.left := by
  obtain ⟨fuel, hfuel⟩ : ∃ fuel, t.left = fuel + 1 := ⟨t.left - 1, by omega⟩
  have hmore : ¬ t.left < 8 := not_lt.mpr hleft
  have hpos := @process_pos_iff mode t.info (fun k => t.data (t.pd + k)) t.left vfmt hleft
    t.scte_enable
  have hunfold : findFormat t.data vfmt t.left t.pd t.left =
      (if !(amlCheckUserdataFormat (fun k => t.data (t.pd + k)) vfmt t.left).isCc &&
          !(amlCheckUserdataFormat (fun k => t.data (t.pd + k)) vfmt t.left).isAfd then
        findFormat t.data vfmt fuel (t.pd + 8) (t.left - 8)
      else (amlCheckUserdataFormat (fun k => t.data (t.pd + k)) vfmt t.left, t.pd, t.left)) := by
    conv_lhs => rw [hfuel]
    rw [findFormat, ← hfuel, if_neg hmore]
  unfold Thread.parse
  rw [hunfold]
  split_ifs with hnone
  · have hle := @findFormat_le t.data vfmt fuel (t.pd + 8) (t.left - 8)
    obtain ⟨⟨format, pd, left⟩, hfound⟩ : ∃ found,
      findFormat t.data vfmt fuel (t.pd + 8) (t.left - 8) = found := ⟨_, rfl⟩
    rw [hfound] at hle ⊢
    dsimp only at hle ⊢
    refine iff_of_true (by omega) fun htruncated => ?_
    obtain ⟨-, hmem, -⟩ := htruncated
    simp only [List.mem_cons, List.not_mem_nil, or_false] at hmem
    rcases hmem with h | h | h <;> rw [h] at hnone <;> exact absurd hnone (by decide)
  · rw [← hpos]
    dsimp only
    omega

end Progress

/-- A round that reads, or leaves fewer bytes; otherwise `none`. -/
def progress (vfmt : ℕ) (t : Thread) (g : Given) : Option Thread :=
  if t.left < 8 ∨ (t.work vfmt g).1.left < t.left then some (t.round vfmt g) else none

/-- What a round that does not read finds in front is no packet without its end. -/
def PacketEnds (vfmt : ℕ) (t : Thread) (g : Given) : Prop :=
  8 ≤ t.left → ¬ Truncated g.mode vfmt (fun k => t.data (t.pd + k)) t.left

/-- **Progress.**  In a run of the thread each round reads, or leaves fewer bytes, exactly if no
round that does not read finds a packet without its end. -/
theorem progress_iff (vfmt : ℕ) (data : ℕ → UInt8) (gs : List Given) :
    (Lockstep.run (progress vfmt) (startThread data) gs).isSome ↔
      Lockstep.Meets (progress vfmt) (PacketEnds vfmt) (startThread data) gs := by
  refine Lockstep.isSome_run_iff (fun t g _ => ⟨?_, fun _ _ => trivial⟩) trivial gs
  have hends : t.left < 8 ∨ (t.work vfmt g).1.left < t.left ↔ PacketEnds vfmt t g := by
    by_cases hread : t.left < 8
    · exact iff_of_true (.inl hread) fun hle => absurd hread (not_lt.mpr hle)
    · have hwork : (t.work vfmt g).1 = (t.parse vfmt g.mode).1 := by
        rw [Thread.work, if_neg hread]
      have hlt := @parse_left_lt_iff g.mode vfmt t (not_lt.mp hread)
      rw [or_iff_right hread, hwork, hlt]
      exact ⟨fun h _ => h, fun h => h (not_lt.mp hread)⟩
  rw [progress, ← hends]
  split_ifs with h
  · exact iff_of_true rfl h
  · exact iff_of_false Bool.false_ne_true h

/-- A packet of H.264 that says it has 31 captions, in a record of sixteen bytes.  The driver gives
each eight bytes the other way round. -/
def truncatedRecord : Given where
  bytes := [0x03, 0x34, 0x39, 0x41, 0x47, 0x31, 0, 0xb5, 0, 0, 0, 0, 0, 0, 0, 0x1f]
  info := ⟨0, 0, 0, 0, 0, 1⟩
  mode := ⟨true, false⟩
  length_le := by decide

/-- The second round neither reads nor leaves fewer bytes. -/
theorem not_progress_truncated : ¬ ∀ (vfmt : ℕ) (data : ℕ → UInt8) (gs : List Given),
    (Lockstep.run (progress vfmt) (startThread data) gs).isSome := by
  intro h
  have hrun := h 2 (fun _ => 0) [truncatedRecord, truncatedRecord]
  revert hrun
  decide

end Userdata
end AmlSubtitle
