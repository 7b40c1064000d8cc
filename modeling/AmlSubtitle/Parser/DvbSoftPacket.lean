import AmlSubtitle.Client.PacketHeader
import AmlSubtitle.Parser.DvbDemux

/-!
# Packets of the software demuxer

What `getDvbSpu` makes of a packet that `constructPacketHeader` has headed.

The two sides agree on the header's first 22 bytes only.  Where the client writes a
time stamp of four bytes and a duration of four, the parser reads a time stamp of eight
bytes and four bytes more, which are the first of the payload.

* `softDemuxParse_packet`: a packet in the layout the parser reads is recovered.
* `getDvbSpu_constructPacketHeader`: the search comes to the header's end.
* `recovers_iff`: which packets with the client's header are recovered.
-/

namespace AmlSubtitle
namespace Dvb

open Words Client

/-- A call hands exactly this packet to the decoder and leaves exactly these bytes. -/
structure Recovers (result : DemuxResult) (packet : DvbPacket) (rest : List UInt8) : Prop where
  handed : result.handed = some packet
  rest : result.rest = rest

theorem Recovers.eq_iff {result : DemuxResult} {packet packet' : DvbPacket}
    {rest rest' : List UInt8} (h : Recovers result packet' rest') :
    Recovers result packet rest ↔ packet' = packet ∧ rest' = rest := by
  constructor
  · rintro ⟨hhanded, hrest⟩
    rw [h.handed] at hhanded
    exact ⟨Option.some.inj hhanded, h.rest.symm.trans hrest⟩
  · rintro ⟨rfl, rfl⟩
    exact h

theorem not_recovers {result : DemuxResult} (h : result.handed = none) (packet : DvbPacket)
    (rest : List UInt8) : ¬ Recovers result packet rest := by
  rintro ⟨hhanded, -⟩
  rw [h] at hhanded
  cases hhanded

theorem length_readZeroed (n : ℕ) (src : List UInt8) : (readZeroed n src).length = n := by
  rw [readZeroed, List.length_append, List.length_take, List.length_replicate]
  omega

/-! ## The layout the parser reads -/

/-- **Round trip** for the layout that `softDemuxParse` reads: three bytes, the length,
eight bytes of time stamp, four bytes, the data. -/
theorem softDemuxParse_packet (ctx : DVBSubContext) {kind diff : List UInt8} {len pts : ℕ}
    (hkind : kind.length = 3) (hlen : len < 2 ^ 31) (hpts : pts < 2 ^ 64)
    (hdiff : diff.length = 4) (src : List UInt8) :
    Recovers (softDemuxParse ctx (kind ++ beBytes 4 len ++ beBytes 8 pts ++ diff ++ src))
      ⟨asSigned 64 pts, readZeroed len src⟩ (src.drop len) := by
  have hhead : (kind ++ beBytes 4 len ++ beBytes 8 pts ++ diff).length = 19 := by
    simp [hkind, hdiff]
  have hdataLen :
      subPeekAsInt32 ((kind ++ beBytes 4 len ++ beBytes 8 pts ++ diff).drop 3) = len := by
    rw [List.append_assoc, List.append_assoc, List.drop_left' hkind,
      subPeekAsInt32_beBytes (by omega), asSigned_of_lt (by omega)]
  have hpts' : subPeekAsInt64 ((kind ++ beBytes 4 len ++ beBytes 8 pts ++ diff).drop 7) =
      asSigned 64 pts := by
    rw [List.append_assoc, List.drop_left' (by simp [hkind]), subPeekAsInt64_beBytes hpts]
  unfold softDemuxParse
  dsimp only
  rw [List.take_left' hhead, List.drop_left' hhead, if_pos hhead, hdataLen, hpts',
    if_neg (by omega), Int.toNat_natCast]
  exact ⟨rfl, rfl⟩

/-- A length from `2^31` on reads as negative: no buffer, and nothing is handed over. -/
theorem softDemuxParse_huge (ctx : DVBSubContext) {kind : List UInt8} {len : ℕ}
    (hkind : kind.length = 3) (hlen : 2 ^ 31 ≤ len) (hword : len < 2 ^ 32) (tail : List UInt8) :
    (softDemuxParse ctx (kind ++ beBytes 4 len ++ tail)).handed = none := by
  have hhead : (kind ++ beBytes 4 len ++ tail).take 19 = kind ++ beBytes 4 len ++ tail.take 12 := by
    rw [List.take_append, List.take_of_length_le (by simp [hkind]), List.length_append, hkind,
      length_beBytes]
  have hneg : asSigned 32 len < 0 := by
    rw [asSigned_of_le (by omega) hword]
    omega
  unfold softDemuxParse
  dsimp only
  rw [hhead]
  by_cases hlength : (kind ++ beBytes 4 len ++ tail.take 12).length = 19
  · rw [if_pos hlength, List.append_assoc, List.drop_left' hkind, subPeekAsInt32_beBytes hword,
      if_pos hneg]
    rfl
  · rw [if_neg hlength]
    rfl

/-- Less than nineteen bytes are no packet. -/
theorem softDemuxParse_short (ctx : DVBSubContext) {src : List UInt8} (h : src.length < 19) :
    (softDemuxParse ctx src).handed = none := by
  have hlength : (src.take 19).length ≠ 19 := by
    rw [List.length_take]
    omega
  unfold softDemuxParse
  dsimp only
  rw [if_neg hlength]
  rfl

/-! ## The search -/

/-- The variable is a window on the last five bytes. -/
theorem nextHeader_eq (packetHeader : ℕ) (b : UInt8) :
    nextHeader packetHeader b = (packetHeader * 256 + b.toNat) % 2 ^ 40 :=
  window_shiftIn 32 packetHeader b

theorem isHardware_iff (h : ℕ) : IsHardware h ↔ h % 2 ^ 32 = 0x1bd := by
  rw [IsHardware, show 0xffffffff = 2 ^ 32 - 1 from rfl, Nat.and_two_pow_sub_one_eq_mod]

theorem isSoftware_iff (h : ℕ) :
    IsSoftware h ↔
      h % 2 ^ 40 / 256 = AML_PARSER_SYNC_WORD ∧ (h % 256 = 0x77 ∨ h % 256 = 0xaa) := by
  rw [IsSoftware, show 0xffffffffff = 2 ^ 40 - 1 from rfl, show 0xff = 2 ^ 8 - 1 from rfl,
    Nat.and_two_pow_sub_one_eq_mod, Nat.and_two_pow_sub_one_eq_mod, Nat.shiftRight_eq_div_pow]

section

variable {ctx : DVBSubContext} {syncTime : ℤ} {packetHeader : ℕ} {b : UInt8} {src : List UInt8}

theorem scan_hardware (h : IsHardware (nextHeader packetHeader b)) :
    scan ctx syncTime packetHeader (b :: src) = hwDemuxParse ctx syncTime src := by
  rw [scan]
  exact if_pos h

theorem scan_software (hhw : ¬ IsHardware (nextHeader packetHeader b))
    (h : IsSoftware (nextHeader packetHeader b)) :
    scan ctx syncTime packetHeader (b :: src) = softDemuxParse ctx src := by
  rw [scan]
  exact (if_neg hhw).trans (if_pos h)

/-- A byte at which nothing starts. -/
theorem scan_skip (window : ℕ) {v : ℕ} (hv : b.toNat = v)
    (h : (packetHeader * 256 + v) % 2 ^ 40 = window ∧ window % 2 ^ 32 ≠ 0x1bd ∧
      (window / 256 = 0x414D4C55 → window % 256 ≠ 0x77 ∧ window % 256 ≠ 0xaa)) :
    scan ctx syncTime packetHeader (b :: src) = scan ctx syncTime window src := by
  obtain ⟨hwindow, hhw, hsw⟩ := h
  have hnext : nextHeader packetHeader b = window := by rw [nextHeader_eq, hv, hwindow]
  have hlt : window < 2 ^ 40 := hwindow ▸ Nat.mod_lt _ (by positivity)
  have hsoft : ¬ IsSoftware window := by
    rw [isSoftware_iff, Nat.mod_eq_of_lt hlt]
    rintro ⟨hword, hlast⟩
    have hne := hsw hword
    omega
  rw [scan, hnext]
  exact (if_neg (mt (isHardware_iff _).mp hhw)).trans (if_neg hsoft)

end

/-- **The search comes to the end of the client's header**, unless the header's count
reads as the start of a PES packet. -/
theorem getDvbSpu_dvbHeader (ctx : DVBSubContext) (syncTime : ℤ) {count : ℕ}
    (hcount : count < 2 ^ 32) (src : List UInt8) :
    getDvbSpu ctx syncTime ([0x51, 0x53, 0, 0, 0, 5] ++ beBytes 4 count ++
        [0x41, 0x4d, 0x4c, 0x55, 0x77] ++ src) =
      if count = 0x1bd then
        hwDemuxParse ctx syncTime ([0x41, 0x4d, 0x4c, 0x55, 0x77] ++ src)
      else
        softDemuxParse ctx src := by
  obtain ⟨c₃, c₂, c₁, c₀, hbytes⟩ : ∃ c₃ c₂ c₁ c₀, beBytes 4 count = [c₃, c₂, c₁, c₀] :=
    ⟨_, _, _, _, rfl⟩
  have hvalue : count = ((c₃.toNat * 256 + c₂.toNat) * 256 + c₁.toNat) * 256 + c₀.toNat := by
    rw [← beValue_beBytes (w := 4) (n := count) (by omega), hbytes]
    simp [beValue]
  have h₃ : c₃.toNat < 256 := c₃.toNat_lt
  have h₂ : c₂.toNat < 256 := c₂.toNat_lt
  have h₁ : c₁.toNat < 256 := c₁.toNat_lt
  have h₀ : c₀.toNat < 256 := c₀.toNat_lt
  rw [hbytes, getDvbSpu]
  simp only [List.cons_append, List.nil_append]
  rw [scan_skip 0x51 rfl (by decide), scan_skip 0x5153 rfl (by decide),
    scan_skip 0x515300 rfl (by decide), scan_skip 0x51530000 rfl (by decide),
    scan_skip 0x5153000000 rfl (by decide), scan_skip 0x5300000005 rfl (by decide),
    -- the count moves through the window
    scan_skip (0x500 + c₃.toNat) rfl (by omega),
    scan_skip (0x50000 + c₃.toNat * 256 + c₂.toNat) rfl (by omega),
    scan_skip (0x5000000 + (c₃.toNat * 256 + c₂.toNat) * 256 + c₁.toNat) rfl (by omega)]
  split_ifs with hpes
  · refine scan_hardware ((isHardware_iff _).mpr ?_)
    rw [nextHeader_eq]
    omega
  · rw [scan_skip (0x500000000 + count) rfl (by omega),
      scan_skip (count * 256 + 0x41) (v := 0x41) rfl (by omega),
      scan_skip (count % 2 ^ 24 * 2 ^ 16 + 0x414d) (v := 0x4d) rfl (by omega),
      scan_skip (count % 2 ^ 16 * 2 ^ 24 + 0x414d4c) (v := 0x4c) rfl (by omega),
      scan_skip (count % 2 ^ 8 * 2 ^ 32 + 0x414d4c55) (v := 0x55) rfl (by omega)]
    have hnext : nextHeader (count % 2 ^ 8 * 2 ^ 32 + 0x414d4c55) 0x77 = 0x414d4c5577 := by
      rw [nextHeader_eq, show (0x77 : UInt8).toNat = 0x77 from rfl]
      omega
    exact scan_software (by rw [hnext]; decide) (by rw [hnext]; decide)

/-- A PES packet whose flags promise no time stamp is passed over. -/
theorem hwDemuxParse_without_pts (ctx : DVBSubContext) (syncTime : ℤ) {flags : UInt8}
    (h₁ : flags.toNat &&& 0xc0 ≠ 0x80) (h₂ : flags.toNat &&& 0xc0 ≠ 0xc0) (len₁ len₀ b c : UInt8)
    (src : List UInt8) :
    (hwDemuxParse ctx syncTime (len₁ :: len₀ :: b :: flags :: c :: src)).handed = none := by
  have hflags : ¬ ((sourceOf [b, flags, c] 1).toNat &&& 0xc0 = 0x80 ∨
      (sourceOf [b, flags, c] 1).toNat &&& 0xc0 = 0xc0) := by
    rintro (h | h)
    · exact h₁ h
    · exact h₂ h
  unfold hwDemuxParse
  simp only [List.take_succ_cons, List.take_zero, List.drop_succ_cons, List.drop_zero,
    List.length_cons, List.length_nil, Nat.zero_add, Nat.reduceAdd, if_true, hflags, and_false,
    if_false]
  split_ifs <;> rfl

/-! ## The client's header -/

/-- A string that comes out the same when its front is cut off and one byte is filled in
at its end is made of that byte. -/
theorem drop_append_replicate_eq_iff {k : ℕ} (hk : 0 < k) {l : List UInt8} (hle : k ≤ l.length)
    (a : UInt8) : l.drop k ++ List.replicate k a = l ↔ ∀ b ∈ l, b = a := by
  constructor
  · intro h
    have hstep : ∀ i, i < l.length → l[i]? = some a ∨ l[i]? = l[i + k]? ∧ i + k < l.length := by
      intro i hi
      by_cases hik : i + k < l.length
      · refine Or.inr ⟨?_, hik⟩
        conv_lhs => rw [← h]
        rw [List.getElem?_append_left (by rw [List.length_drop]; omega), List.getElem?_drop,
          Nat.add_comm]
      · left
        rw [← h, List.getElem?_append_right (by rw [List.length_drop]; omega),
          List.getElem?_replicate_of_lt (by rw [List.length_drop]; omega)]
    have hall : ∀ d i, i < l.length → l.length - i ≤ d → l[i]? = some a := by
      intro d
      induction d with
      | zero => intros; omega
      | succ d ih =>
        intro i hi hd
        rcases hstep i hi with ha | ⟨hnext, hik⟩
        · exact ha
        · rw [hnext]
          exact ih (i + k) hik (by omega)
    intro b hb
    obtain ⟨i, hi, rfl⟩ := List.mem_iff_getElem.mp hb
    have hget := hall _ i hi le_rfl
    rw [List.getElem?_eq_getElem hi] at hget
    exact Option.some.inj hget
  · intro h
    have hl := List.eq_replicate_of_mem h
    rw [hl, List.drop_replicate, ← List.replicate_add, Nat.sub_add_cancel hle]

/-- The parser skips four bytes of the payload: what it reads is the payload, and what it
leaves is what follows, only where the payload is zeros and nothing follows. -/
theorem readZeroed_shifted_iff {payload rest : List UInt8} (h : 4 ≤ payload.length + rest.length) :
    readZeroed payload.length ((payload ++ rest).drop 4) = payload ∧
        ((payload ++ rest).drop 4).drop payload.length = rest ↔
      (∀ b ∈ payload, b = 0) ∧ rest = [] := by
  have hnil : ((payload ++ rest).drop 4).drop payload.length = rest → rest = [] := by
    intro hrest
    have hlength := congrArg List.length hrest
    rw [List.length_drop, List.length_drop, List.length_append] at hlength
    exact List.eq_nil_of_length_eq_zero (by omega)
  have hshift : 4 ≤ payload.length →
      (readZeroed payload.length (payload.drop 4) = payload ↔ ∀ b ∈ payload, b = 0) := by
    intro hle
    have hgap : payload.length - (payload.drop 4).length = 4 := by
      rw [List.length_drop]
      omega
    rw [readZeroed, List.take_of_length_le (by simp), hgap]
    exact drop_append_replicate_eq_iff (by decide) hle 0
  constructor
  · rintro ⟨hdata, hrest⟩
    obtain rfl := hnil hrest
    rw [List.append_nil] at hdata
    exact ⟨(hshift (by simpa using h)).mp hdata, rfl⟩
  · rintro ⟨hzero, rfl⟩
    rw [List.append_nil]
    exact ⟨(hshift (by simpa using h)).mpr hzero, List.drop_eq_nil_of_le (by simp)⟩

/-- The eight bytes the parser reads are the client's time stamp and duration. -/
theorem asSigned_two_words_eq_iff {pts : ℤ} {duration : ℕ} (h₀ : 0 ≤ pts) (h₁ : pts < 2 ^ 32)
    (hd : duration < 2 ^ 32) :
    asSigned 64 (asUnsigned 32 pts * 256 ^ 4 + duration : ℕ) = pts ↔ pts = 0 ∧ duration = 0 := by
  have hword : (asUnsigned 32 pts : ℤ) = pts := asUnsigned_of_nonneg h₀ h₁
  by_cases htop : 2 ^ 64 ≤ 2 * (asUnsigned 32 pts * 256 ^ 4 + duration)
  · -- the top bit is set: the parser reads a negative time stamp
    rw [asSigned_of_le htop (by omega)]
    push_cast
    omega
  · rw [asSigned_of_lt (by omega)]
    push_cast
    omega

/-- **What becomes of a packet with the client's header.** -/
theorem getDvbSpu_constructPacketHeader (ctx : DVBSubContext) (syncTime : ℤ)
    {attr : PackHeaderAttribute} (htype : attr.type = .DVB_SUBTITLE) (tail : List UInt8) :
    getDvbSpu ctx syncTime (constructPacketHeader attr ++ tail) =
      if asUnsigned 32 attr.subtitleCount = 0x1bd then
        hwDemuxParse ctx syncTime ([0x41, 0x4d, 0x4c, 0x55, 0x77] ++ ([1, 0x70, 1] ++
          beBytes 4 (asUnsigned 32 attr.rawDataSize) ++
          beBytes 8 (asUnsigned 32 attr.pts * 256 ^ 4 + asUnsigned 32 attr.duration) ++ tail))
      else
        softDemuxParse ctx ([1, 0x70, 1] ++ beBytes 4 (asUnsigned 32 attr.rawDataSize) ++
          beBytes 8 (asUnsigned 32 attr.pts * 256 ^ 4 + asUnsigned 32 attr.duration) ++ tail) := by
  rw [← getDvbSpu_dvbHeader ctx syncTime (asUnsigned_lt 32 _), constructPacketHeader_dvb htype,
    ← beBytes_append (v := 4) (w := 4) (asUnsigned_lt 32 _) (asUnsigned_lt 32 _)]
  simp only [List.append_assoc]

/-- **Which packets with the client's header are recovered**: for a DVB subtitle, every
count, duration and payload, and whatever follows, the parser hands over the client's time
stamp and payload and leaves what follows if and only if the count is not the one that
looks like a PES packet, the time stamp and the duration are zero, the payload is of at
least four bytes, less than `2^31`, all of them zero, and nothing follows. -/
theorem recovers_iff (ctx : DVBSubContext) (syncTime : ℤ) (attr : PackHeaderAttribute)
    (payload rest : List UInt8) (htype : attr.type = .DVB_SUBTITLE)
    (hsize : payload.length = attr.rawDataSize)
    (hpts : 0 ≤ attr.pts ∧ attr.pts < 2 ^ 32)
    (hduration : 0 ≤ attr.duration ∧ attr.duration < 2 ^ 32) :
    Recovers (getDvbSpu ctx syncTime (constructPacketHeader attr ++ payload ++ rest))
        ⟨attr.pts, payload⟩ rest ↔
      attr.subtitleCount % 2 ^ 32 ≠ 0x1bd ∧ attr.pts = 0 ∧ attr.duration = 0 ∧
        4 ≤ payload.length ∧ payload.length < 2 ^ 31 ∧ (∀ b ∈ payload, b = 0) ∧ rest = [] := by
  have hlen : asUnsigned 32 attr.rawDataSize = payload.length % 2 ^ 32 := by
    rw [hsize, asUnsigned]
    omega
  have hword : (asUnsigned 32 attr.duration : ℤ) = attr.duration :=
    asUnsigned_of_nonneg hduration.1 hduration.2
  rw [List.append_assoc, getDvbSpu_constructPacketHeader ctx syncTime htype]
  split_ifs with hpes
  · -- the hardware demuxer takes the packet
    refine iff_of_false (not_recovers (hwDemuxParse_without_pts ctx syncTime (by decide)
      (by decide) _ _ _ _ _) _ _) fun h => h.1 ?_
    rw [asUnsigned] at hpes
    omega
  have hcount : attr.subtitleCount % 2 ^ 32 ≠ 0x1bd := by
    rw [asUnsigned] at hpes
    omega
  by_cases hshort : payload.length + rest.length < 4
  · -- the source ends within the header that the parser reads
    refine iff_of_false (not_recovers (softDemuxParse_short ctx ?_) _ _) ?_
    · simp only [List.length_append, List.length_cons, List.length_nil, length_beBytes]
      omega
    · rintro ⟨-, -, -, hfour, -⟩
      omega
  by_cases hhuge : 2 ^ 31 ≤ asUnsigned 32 attr.rawDataSize
  · -- the length reads as negative
    refine iff_of_false (not_recovers ?_ _ _) ?_
    · rw [List.append_assoc]
      exact softDemuxParse_huge ctx rfl hhuge (asUnsigned_lt 32 _) _
    · rintro ⟨-, -, -, -, hsmall, -⟩
      omega
  have hkind : ([1, 0x70, 1] : List UInt8).length = 3 := rfl
  have hdiff : ((payload ++ rest).take 4).length = 4 := by
    rw [List.length_take, List.length_append]
    omega
  have hlong : asUnsigned 32 attr.pts * 256 ^ 4 + asUnsigned 32 attr.duration < 2 ^ 64 := by
    have hhigh := asUnsigned_lt 32 attr.pts
    have hlow := asUnsigned_lt 32 attr.duration
    omega
  have hpacket := softDemuxParse_packet ctx hkind (Nat.lt_of_not_le hhuge) hlong hdiff
    ((payload ++ rest).drop 4)
  rw [List.append_assoc _ ((payload ++ rest).take 4), List.take_append_drop] at hpacket
  have hstamp := asSigned_two_words_eq_iff hpts.1 hpts.2 (asUnsigned_lt 32 attr.duration)
  have hshift := readZeroed_shifted_iff (Nat.le_of_not_lt hshort)
  rw [hpacket.eq_iff, DvbPacket.mk.injEq, hstamp]
  constructor
  · rintro ⟨⟨⟨hpts₀, hduration₀⟩, hdata⟩, hrest⟩
    have hfull : asUnsigned 32 attr.rawDataSize = payload.length := by
      rw [← length_readZeroed (asUnsigned 32 attr.rawDataSize) ((payload ++ rest).drop 4), hdata]
    rw [hfull] at hdata hrest
    obtain ⟨hzero, rfl⟩ := hshift.mp ⟨hdata, hrest⟩
    rw [List.length_nil] at hshort
    exact ⟨hcount, hpts₀, by omega, by omega, by omega, hzero, rfl⟩
  · rintro ⟨-, hpts₀, hduration₀, -, hsmall, hzero, hrest⟩
    have hfull : asUnsigned 32 attr.rawDataSize = payload.length := by omega
    obtain ⟨hdata, hleft⟩ := hshift.mpr ⟨hzero, hrest⟩
    rw [hfull]
    exact ⟨⟨⟨hpts₀, by omega⟩, hdata⟩, hleft⟩

/-- Four zeros at time zero are recovered. -/
theorem recovers_iff_four_zeros :
    Recovers (getDvbSpu init 0 (constructPacketHeader ⟨0, .DVB_SUBTITLE, 4, 0, 0⟩ ++
      [0, 0, 0, 0] ++ [])) ⟨0, [0, 0, 0, 0]⟩ [] :=
  (recovers_iff init 0 ⟨0, .DVB_SUBTITLE, 4, 0, 0⟩ [0, 0, 0, 0] [] rfl rfl (by decide)
    (by decide)).mpr ⟨by decide, rfl, rfl, by decide, by decide, by simp, rfl⟩

/-- A packet with six bytes, at one second: the parser hands over another time stamp, and
the payload without its first four bytes. -/
theorem not_recovers_one_second :
    ¬ ∀ (attr : PackHeaderAttribute) (payload : List UInt8), attr.type = .DVB_SUBTITLE →
      payload.length = attr.rawDataSize → 0 ≤ attr.pts ∧ attr.pts < 2 ^ 32 →
      0 ≤ attr.duration ∧ attr.duration < 2 ^ 32 →
      Recovers (getDvbSpu init 0 (constructPacketHeader attr ++ payload))
        ⟨attr.pts, payload⟩ [] := by
  intro h
  have hrecovers := h ⟨0, .DVB_SUBTITLE, 6, 90000, 0⟩ [0x0f, 0x80, 0, 1, 0, 0] rfl rfl (by decide)
    (by decide)
  have hhanded : (getDvbSpu init 0
      (constructPacketHeader ⟨0, .DVB_SUBTITLE, 6, 90000, 0⟩ ++ [0x0f, 0x80, 0, 1, 0, 0])).handed =
        some ⟨90000 * 2 ^ 32, [0, 0, 0, 0, 0, 0]⟩ := by
    decide +kernel
  have hpacket := Option.some.inj (hhanded.symm.trans hrecovers.handed)
  exact absurd hpacket (by decide)

end Dvb
end AmlSubtitle
