import AmlSubtitle.Io.UserdataThread

/-!
# `io/Userdata.c`: one record after another

The records of the driver go through one buffer, of which a record fills the front only.

* `parse_agree`: what is made of the bytes that are left depends on these bytes, unless captions of
  SCTE-20 are read from behind them.
* `independent_of_alone`: the captions of a record are those of the record alone, if each record is
  read with nothing left over and no captions of SCTE-20 are read from behind one.
-/

namespace AmlSubtitle

/-! ## Captions of SCTE-20 -/

namespace Scte20

open Bits

/-- The constructs are too many for what the loop thinks is left, or they are in the section. -/
def InSection (data : ℕ → UInt8) (len : ℕ) : Prop :=
  let rest := len - headPosi data len
  8 * rest < 5 + 26 * constructs data len ∨ 5 + 26 * constructs data len ≤ 8 * (rest - 2)

instance (data : ℕ → UInt8) (len : ℕ) : Decidable (InSection data len) :=
  inferInstanceAs (Decidable (_ ∨ _))

section Congr

variable {p p' data data' : ℕ → UInt8} {left_bits : ℤ} {top_bit_value : Bool} {len : ℕ}

theorem fieldsAt_congr (widths : List ℕ) {bits : ℕ}
    (h : ∀ k, 8 * k < bits + widths.sum → p k = p' k) :
    fieldsAt p widths bits = fieldsAt p' widths bits := by
  induction widths generalizing bits with
  | nil => rfl
  | cons b widths ih =>
    rw [List.sum_cons] at h
    have hone : bitsAt p bits b = bitsAt p' bits b :=
      bitsAt_congr fun k _ hlt => h k (by omega)
    rw [fieldsAt, fieldsAt, hone, ih fun k hlt => h k (by omega)]

/-- With bits enough the loop depends on the bits of the constructs. -/
theorem scteLoop_congr (n : ℕ) (s : ScteState) (hfit : ((s.bits + 26 * n : ℕ) : ℤ) ≤ left_bits)
    (h : ∀ k, 8 * k < s.bits + 26 * n → p k = p' k) :
    scteLoop p left_bits top_bit_value n s = scteLoop p' left_bits top_bit_value n s := by
  induction n generalizing s with
  | zero => rfl
  | succ n ih =>
    have hsum : constructWidths.sum = 26 := rfl
    have hone : ((s.bits + constructWidths.sum : ℕ) : ℤ) ≤ left_bits := by
      rw [hsum]
      omega
    have hfields : fieldsAt p constructWidths s.bits = fieldsAt p' constructWidths s.bits :=
      fieldsAt_congr constructWidths fun k hk => h k (by rw [hsum] at hk; omega)
    rw [scteLoop, scteLoop, getFields_of_fits constructWidths_le hone,
      getFields_of_fits constructWidths_le hone, hfields]
    dsimp only
    refine ih _ ?_ ?_
    · rw [add_bits]
      dsimp only
      omega
    · intro k hk
      rw [add_bits] at hk
      exact h k (by dsimp only at hk; omega)

/-- Without them it does not come to its end. -/
theorem scteLoop_not_complete (n : ℕ) (s : ScteState) (hle : (s.bits : ℤ) ≤ left_bits)
    (hfit : left_bits < ((s.bits + 26 * n : ℕ) : ℤ)) :
    (scteLoop p left_bits top_bit_value n s).2 = false := by
  induction n generalizing s with
  | zero =>
    rw [Nat.mul_zero, Nat.add_zero] at hfit
    omega
  | succ n ih =>
    have hsum : constructWidths.sum = 26 := rfl
    rcases lt_or_ge left_bits ((s.bits + constructWidths.sum : ℕ) : ℤ) with hlast | hone
    · obtain ⟨bits', hfields, -⟩ := getFields_of_not_fits (p := p) constructWidths_le hle hlast
      rw [scteLoop, hfields]
    · rw [scteLoop, getFields_of_fits constructWidths_le hone]
      refine ih _ ?_ ?_ <;> rw [add_bits] <;> dsimp only <;> omega

/-- With the header behind the first eight bytes, or in front of them. -/
theorem headPosi_eq (hlen : 16 ≤ len) (hflag : isScte fun k => data (8 + k)) :
    headPosi data len = if isScte data then 0 else 8 := by
  obtain ⟨fuel, rfl⟩ : ∃ fuel, len = fuel + 2 := ⟨len - 2, by omega⟩
  have hdata : (fun k => data (0 + k)) = data := funext fun k => congrArg data (Nat.zero_add k)
  have hfirst : ((0 : ℕ) : ℤ) < (fuel + 2 : ℕ) := by omega
  have hsecond : ((8 : ℕ) : ℤ) < (fuel + 2 : ℕ) := by omega
  rw [headPosi, Int.toNat_natCast, findHead, if_pos hfirst, hdata, Nat.zero_add, findHead,
    if_pos hsecond, if_pos hflag]

theorem isScte_congr (h : ∀ k < 2, p k = p' k) : isScte p = isScte p' := by
  rw [isScte, isScte, h 0 (by decide), h 1 (by decide)]

/-- What is passed on depends on the section. -/
theorem passed_congr (flags : ℕ) (hlen : 16 ≤ len) (hflag : isScte fun k => data (8 + k))
    (h : ∀ k < len, data k = data' k) (hin : InSection data len) :
    (amlProcessScteUserdata true flags data len).passed =
      (amlProcessScteUserdata true flags data' len).passed := by
  have hflag' : isScte fun k => data' (8 + k) := by
    rwa [isScte_congr fun k hk => h (8 + k) (by omega)] at hflag
  have hhead : headPosi data len = headPosi data' len := by
    rw [headPosi_eq hlen hflag, headPosi_eq hlen hflag', isScte_congr fun k hk => h k (by omega)]
  have hle : headPosi data len ≤ 8 := by
    rw [headPosi_eq hlen hflag]
    split_ifs
    · exact Nat.zero_le _
    · exact le_rfl
  obtain ⟨head_posi, hposi⟩ : ∃ head_posi, headPosi data len = head_posi := ⟨_, rfl⟩
  obtain ⟨cnt, hcnt⟩ : ∃ cnt, constructs data len = cnt := ⟨_, rfl⟩
  have hcntBits : ∀ s : ℕ → UInt8, bitsAt s (8 * (head_posi + 2)) 5 =
      getBits (fun k => s (head_posi + 2 + k)) 0 5 := by
    intro s
    rw [getBits_eq _ _ (by decide), bitsAt_offset]
    rfl
  have hv : bitsAt data (8 * 4) 32 = bitsAt data' (8 * 4) 32 :=
    bitsAt_congr fun k _ hk => h k (by omega)
  have hcnt' : bitsAt data' (8 * (head_posi + 2)) 5 = cnt := by
    rw [← hcnt, constructs, hposi]
    exact bitsAt_congr fun k hlow hk => (h k (by omega)).symm
  rw [hposi] at hle
  rw [InSection, hposi, hcnt] at hin
  rw [constructs, hposi, hcntBits] at hcnt
  rw [hcntBits] at hcnt'
  unfold amlProcessScteUserdata
  rw [← hhead, hposi]
  dsimp only
  rw [hcnt, hcnt', hv]
  have hbits : startState.bits = 5 := rfl
  have hwork : ¬ (true = false ∨ (len : ℤ) - head_posi < 8) := by
    rintro (hdisabled | hshort)
    · exact absurd hdisabled (by decide)
    · omega
  rcases hin with hshort | hfit
  · -- nothing is passed on
    have hnone : ∀ s : ℕ → UInt8, (scteLoop (fun k => s (head_posi + 2 + k))
        ((len - head_posi) * 8) (topBitValue flags) cnt startState).2 = false := by
      intro s
      refine scteLoop_not_complete cnt startState ?_ ?_ <;> rw [hbits] <;> push_cast <;> omega
    rw [if_neg hwork, if_neg hwork, hnone data, hnone data']
    rfl
  · have hloop := @scteLoop_congr (fun k => data (head_posi + 2 + k))
      (fun k => data' (head_posi + 2 + k)) ((len - head_posi) * 8) (topBitValue flags) cnt
      startState (by rw [hbits]; push_cast; omega) fun k hk => h _ (by rw [hbits] at hk; omega)
    rw [hloop]

end Congr

end Scte20

namespace Userdata

open Words Bits Scte20

/-! ## The formats -/

section Congr

variable {p p' data data' : ℕ → UInt8} {len vfmt : ℕ} {mode : Mode} {info : MetaInfo}

theorem isH264_congr (h : ∀ k < 7, p k = p' k) : isH264 p = isH264 p' := by
  rw [isH264, isH264, h 0 (by decide), h 3 (by decide), h 4 (by decide), h 5 (by decide),
    h 6 (by decide)]

theorem isDirectv_congr (h : ∀ k < 3, p k = p' k) : isDirectv p = isDirectv p' := by
  rw [isDirectv, isDirectv, h 0 (by decide), h 1 (by decide), h 2 (by decide)]

theorem isAvs_congr (h : ∀ k < 4, p k = p' k) : isAvs p = isAvs p' := by
  rw [isAvs, isAvs, h 0 (by decide), h 1 (by decide), h 2 (by decide), h 3 (by decide)]

theorem isAfd_congr (h : ∀ k < 4, p k = p' k) : isAfd p = isAfd p' := by
  rw [isAfd, isAfd, h 0 (by decide), h 1 (by decide), h 2 (by decide), h 3 (by decide)]

theorem isH264Afd_congr (h : ∀ k < 7, p k = p' k) : isH264Afd p = isH264Afd p' := by
  rw [isH264Afd, isH264Afd, h 0 (by decide), h 3 (by decide), h 4 (by decide), h 5 (by decide),
    h 6 (by decide)]

theorem isPacket_congr (h : ∀ k < 7, p k = p' k) : isPacket p = isPacket p' := by
  rw [isPacket, isPacket, isH264_congr h, isDirectv_congr fun k hk => h k (by omega),
    isAvs_congr fun k hk => h k (by omega)]

theorem amlCheckUserdataFormat_congr (h : ∀ k < len, data k = data' k) :
    amlCheckUserdataFormat data vfmt len = amlCheckUserdataFormat data' vfmt len := by
  unfold amlCheckUserdataFormat
  by_cases hshort : len < 8
  · rw [if_pos hshort, if_pos hshort]
  have hfront : ∀ k < 7, data k = data' k := fun k hk => h k (by omega)
  rw [if_neg hshort, if_neg hshort, isH264_congr hfront, isH264Afd_congr hfront,
    isDirectv_congr fun k hk => h k (by omega), isAvs_congr (p := data) fun k hk => h k (by omega)]
  by_cases hlong : vfmt = 0 ∧ 16 ≤ len
  · have hflag : ∀ k < 4, data (8 + k) = data' (8 + k) := fun k hk => h _ (by omega)
    rw [isAvs_congr hflag, isAfd_congr hflag, isScte_congr fun k hk => hflag k (by omega)]
  · rw [if_neg hlong, if_neg hlong]

/-- The search goes through what is left, and stops in front of a format. -/
theorem findFormat_found (fuel pd left : ℕ) :
    let found := findFormat data vfmt fuel pd left
    found.2.1 + found.2.2 = pd + left ∧
      (found.1 = .INVALID_TYPE ∨
        amlCheckUserdataFormat (fun k => data (found.2.1 + k)) vfmt found.2.2 = found.1) := by
  induction fuel generalizing pd left with
  | zero => exact ⟨rfl, .inl rfl⟩
  | succ fuel ih =>
    rw [findFormat]
    dsimp only
    split_ifs with hshort hnone
    · exact ⟨rfl, .inl rfl⟩
    · have hrest := ih (pd + 8) (left - 8)
      refine ⟨hrest.1.trans ?_, hrest.2⟩
      omega
    · exact ⟨rfl, .inr rfl⟩

theorem findFormat_congr {n : ℕ} (h : ∀ k < n, data k = data' k) (fuel : ℕ) {pd left : ℕ}
    (hin : pd + left ≤ n) :
    findFormat data vfmt fuel pd left = findFormat data' vfmt fuel pd left := by
  induction fuel generalizing pd left with
  | zero => rfl
  | succ fuel ih =>
    rw [findFormat, findFormat]
    by_cases hshort : left < 8
    · rw [if_pos hshort, if_pos hshort]
    · have hformat : amlCheckUserdataFormat (fun k => data (pd + k)) vfmt left =
          amlCheckUserdataFormat (fun k => data' (pd + k)) vfmt left :=
        amlCheckUserdataFormat_congr fun k hk => h _ (by omega)
      rw [if_neg hshort, if_neg hshort, hformat, ih (by omega)]

/-! ## The functions for the formats -/

theorem mpegLoop_congr (h : ∀ k < len, data k = data' k) (fuel r : ℕ) :
    mpegLoop mode info data len fuel r = mpegLoop mode info data' len fuel r := by
  induction fuel generalizing r with
  | zero => rfl
  | succ fuel ih =>
    rw [mpegLoop, mpegLoop]
    by_cases hshort : len - r < 16
    · rw [if_pos hshort, if_pos hshort]
    · have hflag : ∀ k < 4, data (r + 8 + k) = data' (r + 8 + k) := fun k hk => h _ (by omega)
      have hv : bitsAt data (8 * (r + 4)) 32 = bitsAt data' (8 * (r + 4)) 32 :=
        bitsAt_congr fun k _ hk => h k (by omega)
      have hbytes : ((List.range (len - r - 8)).map fun k => data (r + 8 + k)) =
          (List.range (len - r - 8)).map fun k => data' (r + 8 + k) :=
        List.map_congr_left fun k hk => h _ (by rw [List.mem_range] at hk; omega)
      rw [if_neg hshort, if_neg hshort, isAvs_congr hflag, isAfd_congr hflag, hv, hbytes, ih]

/-- The byte behind the record, if it is the length of a packet, makes no difference: no packet has
its end in the record then. -/
theorem h264Loop_congr (h : ∀ k < len, data k = data' k) (format : UserdataType) (fuel : ℕ)
    (w : H264Walk) :
    h264Loop mode format data len fuel w = h264Loop mode format data' len fuel w := by
  induction fuel generalizing w with
  | zero => rfl
  | succ fuel ih =>
    rw [h264Loop, h264Loop]
    by_cases hshort : len - w.r < 8
    · rw [if_pos hshort, if_pos hshort]
    have hfront : ∀ k < 7, data (w.r + k) = data' (w.r + k) := fun k hk => h _ (by omega)
    have hrest : h264Loop mode format data len fuel = h264Loop mode format data' len fuel :=
      funext ih
    rw [if_neg hshort, if_neg hshort, isPacket_congr hfront, isH264Afd_congr hfront, hrest]
    have hpl := @eight_le_pl format data w.r
    have hpl' := @eight_le_pl format data' w.r
    dsimp only
    by_cases hin : w.r + hdr format + 5 < len
    · have hlength : pl format data w.r = pl format data' w.r := by
        rw [pl, pl, h _ hin]
      by_cases hlong : len - w.r < pl format data' w.r + hdr format
      · rw [hlength, if_pos hlong, if_pos hlong]
      · have hbytes :
            ((List.range (pl format data' w.r)).map fun k => data (w.r + hdr format + k)) =
            (List.range (pl format data' w.r)).map fun k => data' (w.r + hdr format + k) :=
          List.map_congr_left fun k hk => h _ (by rw [List.mem_range] at hk; omega)
        rw [hlength, hbytes]
    · have hlong : ∀ n, 8 ≤ n → len - w.r < n + hdr format := by
        intro n hn
        have hhdr := @hdr_le format
        omega
      rw [if_pos (hlong _ hpl), if_pos (hlong _ hpl')]

theorem process_congr (h : ∀ k < len, data k = data' k) {scte_enable : Bool}
    {format : UserdataType}
    (hscte : format = .SCTE_CC_TYPE → 16 ≤ len ∧ isScte fun k => data (8 + k))
    (hin : format = .SCTE_CC_TYPE → scte_enable → InSection data len) :
    process mode info data len scte_enable format =
      process mode info data' len scte_enable format := by
  have hh264 : processH264 mode info data len format = processH264 mode info data' len format := by
    rw [processH264, processH264, amlProcessH264Userdata, amlProcessH264Userdata,
      h264Loop_congr h]
  have hmpeg : amlProcessMpegUserdata mode info data len =
      amlProcessMpegUserdata mode info data' len := mpegLoop_congr h len 0
  cases format with
  | INVALID_TYPE => rw [process, process]
  | MPEG_CC_TYPE => rwa [process, process]
  | MPEG_AFD_TYPE => rwa [process, process]
  | SCTE_CC_TYPE =>
    cases scte_enable with
    | false => rw [process, process, if_neg Bool.false_ne_true, if_neg Bool.false_ne_true]
    | true =>
      have hpassed := passed_congr info.flags (hscte rfl).1 (hscte rfl).2 h (hin rfl rfl)
      rw [process, process, processScte, processScte, hpassed]
  | H264_CC_TYPE => exact hh264
  | DIRECTV_CC_TYPE => exact hh264
  | AVS_CC_TYPE => exact hh264
  | H264_AFD_TYPE => exact hh264

/-- A format of SCTE-20 is that of a header behind eight bytes. -/
theorem isScte_of_format (h : amlCheckUserdataFormat data vfmt len = .SCTE_CC_TYPE) :
    16 ≤ len ∧ isScte fun k => data (8 + k) := by
  unfold amlCheckUserdataFormat at h
  dsimp only at h
  split_ifs at h with h₁ h₂ h₃ h₄ h₅ h₆ h₇ h₈ h₉ hscte
  exact ⟨h₈.2, hscte⟩

end Congr

/-! ## The rounds -/

/-- The two threads have the same in the front of the buffer, of which they have `n` bytes, and what
is left is there. -/
structure Agree (n : ℕ) (t t' : Thread) : Prop where
  data : ∀ k < n, t.data k = t'.data k
  pd : t.pd = t'.pd
  left : t.left = t'.left
  info : t.info = t'.info
  scte_enable : t.scte_enable = t'.scte_enable
  le : t.pd + t.left ≤ n

/-- The captions of SCTE-20 in what is left, if there are any, are not read from behind it. -/
def ScteInSection (vfmt : ℕ) (t : Thread) : Prop :=
  let found := findFormat t.data vfmt t.left t.pd t.left
  found.1 = .SCTE_CC_TYPE → t.scte_enable →
    InSection (fun k => t.data (found.2.1 + k)) found.2.2

instance (vfmt : ℕ) (t : Thread) : Decidable (ScteInSection vfmt t) :=
  inferInstanceAs (Decidable (_ → _ → InSection _ _))

theorem parse_agree {n vfmt : ℕ} {mode : Mode} {t t' : Thread} (h : Agree n t t')
    (hscte : ScteInSection vfmt t) :
    (t.parse vfmt mode).2 = (t'.parse vfmt mode).2 ∧
      Agree n (t.parse vfmt mode).1 (t'.parse vfmt mode).1 := by
  obtain ⟨⟨format, pd, left⟩, hfound⟩ : ∃ found,
    findFormat t.data vfmt t.left t.pd t.left = found := ⟨_, rfl⟩
  have hfound' : findFormat t'.data vfmt t'.left t'.pd t'.left = (format, pd, left) := by
    rw [← h.left, ← h.pd, ← hfound]
    exact (findFormat_congr h.data _ h.le).symm
  have hspec := @findFormat_found t.data vfmt t.left t.pd t.left
  rw [hfound] at hspec
  obtain ⟨hsum, hformat⟩ := hspec
  dsimp only at hsum hformat
  have hle := h.le
  have hdata : ∀ k < left, t.data (pd + k) = t'.data (pd + k) := fun k hk => h.data _ (by omega)
  have hprocess : process mode t.info (fun k => t.data (pd + k)) left t.scte_enable format =
      process mode t'.info (fun k => t'.data (pd + k)) left t'.scte_enable format := by
    rw [← h.info, ← h.scte_enable]
    refine process_congr hdata (fun hscte => ?_) ?_
    · subst hscte
      exact isScte_of_format (hformat.resolve_left (by decide))
    · unfold ScteInSection at hscte
      rw [hfound] at hscte
      exact hscte
  unfold Thread.parse
  rw [hfound, hfound']
  dsimp only
  rw [hprocess]
  obtain ⟨done, hdone⟩ : ∃ done, process mode t'.info (fun k => t'.data (pd + k)) left
    t'.scte_enable format = done := ⟨_, rfl⟩
  rw [hdone]
  refine ⟨rfl, ?_, rfl, rfl, h.info, ?_, ?_⟩
  · intro k hk
    dsimp only
    split_ifs with hmoved
    · exact h.data _ (by omega)
    · exact h.data k hk
  · dsimp only
    rw [h.scte_enable]
  · dsimp only
    omega

theorem goOn_agree {n : ℕ} {t t' : Thread} (h : Agree n t t') : Agree n t.goOn t'.goOn := by
  unfold Thread.goOn
  rw [← h.info, ← h.left]
  split_ifs
  · exact h
  · exact ⟨h.data, h.pd, rfl, rfl, h.scte_enable, (Nat.le_add_right _ _).trans h.le⟩

/-- The thread after the rounds. -/
def Thread.rounds (vfmt : ℕ) (t : Thread) (gs : List Given) : Thread :=
  gs.foldl (fun t g => t.round vfmt g) t

/-- The captions of the rounds. -/
def Thread.extract (vfmt : ℕ) : Thread → List Given → List Extracted
  | _, [] => []
  | t, g :: gs => (t.work vfmt g).2 ++ Thread.extract vfmt (t.round vfmt g) gs

/-- None of the rounds reads. -/
def Thread.NoRead (vfmt : ℕ) : Thread → List Given → Prop
  | _, [] => True
  | t, g :: gs => 8 ≤ t.left ∧ Thread.NoRead vfmt (t.round vfmt g) gs

/-- What a round parses. -/
def Thread.parsed (t : Thread) (g : Given) : Thread := if t.left < 8 then t.read g else t

/-- Nothing is left when the round reads a record, and no captions of SCTE-20 are read from behind
what it parses. -/
def Alone (vfmt : ℕ) (t : Thread) (g : Given) : Prop :=
  (t.left < 8 → g.bytes ≠ [] → t.left = 0) ∧ ScteInSection vfmt (t.parsed g)

instance (vfmt : ℕ) (t : Thread) (g : Given) : Decidable (Alone vfmt t g) :=
  inferInstanceAs (Decidable (_ ∧ _))

/-- The round, as a step that does not fail. -/
def roundStep (vfmt : ℕ) (t : Thread) (g : Given) : Option Thread := some (t.round vfmt g)

theorem run_roundStep (vfmt : ℕ) (t : Thread) (gs : List Given) :
    Lockstep.run (roundStep vfmt) t gs = some (t.rounds vfmt gs) := by
  induction gs generalizing t with
  | nil => rfl
  | cons g gs ih => exact ih _

/-- The rounds behind the one that reads. -/
theorem extract_agree {n vfmt : ℕ} (gs : List Given) {t t' : Thread} (h : Agree n t t')
    (hread : t.NoRead vfmt gs) (halone : Lockstep.Meets (roundStep vfmt) (Alone vfmt) t gs) :
    t.extract vfmt gs = t'.extract vfmt gs := by
  induction gs generalizing t t' with
  | nil => rfl
  | cons g gs ih =>
    have hmore : ¬ t.left < 8 := not_lt.mpr hread.1
    have hscte := halone.1.2
    rw [Thread.parsed, if_neg hmore] at hscte
    have hwork : t.work vfmt g = t.parse vfmt g.mode := by rw [Thread.work, if_neg hmore]
    have hwork' : t'.work vfmt g = t'.parse vfmt g.mode := by
      rw [Thread.work, if_neg (h.left ▸ hmore)]
    obtain ⟨hcaptions, hagree⟩ := @parse_agree _ _ g.mode _ _ h hscte
    rw [Thread.extract, Thread.extract]
    refine congrArg₂ _ (by rw [hwork, hwork', hcaptions]) ?_
    refine ih ?_ hread.2 (halone.2 _ rfl)
    rw [Thread.round, Thread.round, hwork, hwork']
    exact goOn_agree hagree

/-- The thread with a fresh buffer, whatever is in it. -/
def Thread.fresh (t : Thread) (data : ℕ → UInt8) : Thread :=
  { t with data := data, pd := 0, left := 0 }

/-- A record that is read with nothing left over is there as in a fresh buffer. -/
theorem read_agree {t : Thread} (hleft : t.left = 0) (data : ℕ → UInt8) (g : Given) :
    Agree g.bytes.length (t.read g) ((t.fresh data).read g) := by
  have hwrite : ∀ k < g.bytes.length, write t.data g.bytes k = write data g.bytes k := by
    intro k hk
    rw [write, write, List.getD_eq_getElem _ _ hk, List.getD_eq_getElem _ _ hk]
  refine ⟨?_, rfl, ?_, rfl, rfl, ?_⟩
  · intro k hk
    simp only [Thread.read, Thread.fresh, hleft, amlSwapData]
    split_ifs with hblock
    · refine hwrite _ ?_
      omega
    · exact hwrite k hk
  · simp only [Thread.read, Thread.fresh, hleft]
  · simp only [Thread.read, hleft, Nat.zero_add, le_refl]

/-- The captions of each record, in the round that reads it and in those behind it that do not read,
are those of the record alone, from a fresh buffer. -/
def Independent (vfmt : ℕ) (data : ℕ → UInt8) (gs : List Given) : Prop :=
  ∀ before g more, before ++ g :: more <+: gs →
    let t := (startThread data).rounds vfmt before
    t.left < 8 → g.bytes ≠ [] → (t.round vfmt g).NoRead vfmt more →
      ∀ data', t.extract vfmt (g :: more) = (t.fresh data').extract vfmt (g :: more)

/-- **Independence of the records.**  In a run whose records are read with nothing left over, and
without captions of SCTE-20 from behind a record, the captions of each are its own. -/
theorem independent_of_alone (vfmt : ℕ) (data : ℕ → UInt8) (gs : List Given)
    (h : Lockstep.Meets (roundStep vfmt) (Alone vfmt) (startThread data) gs) :
    Independent vfmt data gs := by
  rintro before g more ⟨rest, rfl⟩
  intro t hshort hbytes hread data'
  rw [List.append_assoc, List.cons_append] at h
  have hmeets : Lockstep.Meets (roundStep vfmt) (Alone vfmt) t (g :: (more ++ rest)) :=
    h.of_append_right (run_roundStep vfmt _ before)
  obtain ⟨⟨hleft, hscte⟩, hmore⟩ := hmeets
  have hleft := hleft hshort hbytes
  rw [Thread.parsed, if_pos hshort] at hscte
  have hshort' : (t.fresh data').left < 8 := Nat.succ_pos 7
  have hwork : t.work vfmt g = (t.read g).parse vfmt g.mode := by
    rw [Thread.work, if_pos hshort, if_neg hbytes]
  have hwork' : (t.fresh data').work vfmt g = ((t.fresh data').read g).parse vfmt g.mode := by
    rw [Thread.work, if_pos hshort', if_neg hbytes]
  obtain ⟨hcaptions, hagree⟩ := @parse_agree _ _ g.mode _ _ (read_agree hleft data' g) hscte
  rw [Thread.extract, Thread.extract]
  refine congrArg₂ _ (by rw [hwork, hwork', hcaptions]) ?_
  have hround : Agree g.bytes.length (t.round vfmt g) ((t.fresh data').round vfmt g) := by
    rw [Thread.round, Thread.round, hwork, hwork']
    exact goOn_agree hagree
  exact extract_agree more hround hread (hmore _ rfl).of_append

/-- A record of sixteen bytes with a packet of eleven, as the driver gives it with `n` records in
its queue. -/
def packetRecord (n : ℕ) : Given where
  bytes := [0x03, 0x34, 0x39, 0x41, 0x47, 0x31, 0, 0xb5, 0, 0, 0, 0, 0, 0, 0, 0]
  info := ⟨0, 0, 0, 0, 0, n⟩
  mode := ⟨true, false⟩
  length_le := by decide

/-- The five bytes behind the packet are dropped if no record is queued. -/
theorem independent_packets : Independent 2 (fun _ => 0) [packetRecord 1, packetRecord 1] :=
  independent_of_alone 2 _ _ (by decide)

/-- If one is, they are not, and the second packet is swapped at the wrong place. -/
theorem not_independent_queued :
    ¬ ∀ (vfmt : ℕ) (data : ℕ → UInt8) (gs : List Given), Independent vfmt data gs := by
  intro h
  have hcaptions := h 2 (fun _ => 0) [packetRecord 2, packetRecord 2] [packetRecord 2]
    (packetRecord 2) [] (List.prefix_refl _) (by decide) (by decide) trivial fun _ => 0
  revert hcaptions
  decide

end Userdata
end AmlSubtitle
