import AmlSubtitle.Parser.DvbSoftPacket

/-!
# Packets of the hardware demuxer

What the passes of `getDvbSpu` make of a stream of PES packets, each behind bytes that are
no start code.

* `findStart`: what stands behind the start code that the search comes to.
* `hwRequests`: the lengths that `hwDemuxParse` reads and allocates; `rest_hwDemuxParse` says
  that it takes what it reads.
* `consumesPackets_iff`: a pass takes a packet whole, unless the packet has a PES header with
  time stamp 0, or with one byte behind it.
-/

namespace AmlSubtitle
namespace Dvb

open Words

/-! ## The window on the last bytes -/

/-- The four bytes that the hardware demuxer's packets begin with. -/
def startCode : List UInt8 := [0, 0, 1, 0xbd]

/-- The five bytes that a software demuxer's packets begin with. -/
def syncBytes (last : UInt8) : List UInt8 := [0x41, 0x4d, 0x4c, 0x55, last]

/-- The variable `packetHeader` after the bytes `read`. -/
def windowOf (read : List UInt8) : ℕ := beValue read % 2 ^ 40

theorem nextHeader_windowOf (read : List UInt8) (b : UInt8) :
    nextHeader (windowOf read) b = windowOf (read ++ [b]) := by
  rw [nextHeader_eq, windowOf, windowOf, beValue_append_singleton]
  omega

theorem isHardware_windowOf (read : List UInt8) :
    IsHardware (windowOf read) ↔ startCode <:+ [0, 0, 0, 0] ++ read := by
  have h := beValue_mod_eq_iff startCode read
  rw [show startCode.length = 4 from rfl, show beValue startCode = 0x1bd from rfl] at h
  rw [isHardware_iff, windowOf, show [0, 0, 0, 0] = List.replicate 4 (0 : UInt8) from rfl, ← h]
  omega

theorem isSoftware_windowOf (read : List UInt8) :
    IsSoftware (windowOf read) ↔
      ∃ last ∈ [0x77, 0xaa], syncBytes last <:+ [0, 0, 0, 0, 0] ++ read := by
  have h : ∀ last : UInt8, syncBytes last <:+ [0, 0, 0, 0, 0] ++ read ↔
      beValue read % 2 ^ 40 = AML_PARSER_SYNC_WORD * 256 + last.toNat := by
    intro last
    have h := beValue_mod_eq_iff (syncBytes last) read
    rw [show (syncBytes last).length = 5 from rfl,
      show beValue (syncBytes last) = AML_PARSER_SYNC_WORD * 256 + last.toNat from rfl] at h
    exact h.symm
  simp only [List.mem_cons, List.not_mem_nil, or_false, exists_eq_or_imp, exists_eq_left, h]
  rw [isSoftware_iff, windowOf]
  have h77 : (0x77 : UInt8).toNat = 0x77 := rfl
  have haa : (0xaa : UInt8).toNat = 0xaa := rfl
  rw [h77, haa]
  omega

/-! ## The search -/

/-- What stands behind the start code of a private stream that `scan` comes to. -/
def findStart (packetHeader : ℕ) : List UInt8 → Option (List UInt8)
  | [] => none
  | b :: src =>
    let packetHeader := nextHeader packetHeader b
    if IsHardware packetHeader then
      some src
    else if IsSoftware packetHeader then
      none
    else
      findStart packetHeader src

/-- What the search comes to is given to `hwDemuxParse`. -/
theorem scan_of_findStart {ctx : DVBSubContext} {syncTime : ℤ} {packetHeader : ℕ}
    {src behind : List UInt8} (h : findStart packetHeader src = some behind) :
    scan ctx syncTime packetHeader src = hwDemuxParse ctx syncTime behind := by
  induction src generalizing packetHeader with
  | nil => cases h
  | cons b src ih =>
    rw [findStart] at h
    split_ifs at h with hhw hsw
    · rw [scan_hardware hhw, Option.some.inj h]
    · rw [scan]
      exact (if_neg hhw).trans ((if_neg hsw).trans (ih h))

/-- Nothing starts with the last of the bytes `read`. -/
def Quiet (read : List UInt8) : Prop := ¬ IsHardware (windowOf read) ∧ ¬ IsSoftware (windowOf read)

/-- The search goes over bytes with which nothing starts. -/
theorem findStart_append {read skipped : List UInt8} (src : List UInt8)
    (h : ∀ v, v ≠ [] → v <+: skipped → Quiet (read ++ v)) :
    findStart (windowOf read) (skipped ++ src) = findStart (windowOf (read ++ skipped)) src := by
  induction skipped generalizing read with
  | nil => rw [List.append_nil, List.nil_append]
  | cons b skipped ih =>
    obtain ⟨hhw, hsw⟩ := h [b] (by simp) (by simp)
    have hnext : ∀ v, v ≠ [] → v <+: skipped → Quiet (read ++ [b] ++ v) := by
      intro v _ hv
      rw [List.append_assoc]
      exact h ([b] ++ v) (by simp) (by simpa using hv)
    rw [List.cons_append, findStart, nextHeader_windowOf, if_neg hhw, if_neg hsw, ih hnext,
      List.append_assoc, List.singleton_append]

theorem findStart_cons_hardware {read : List UInt8} {b : UInt8}
    (h : startCode <:+ [0, 0, 0, 0] ++ (read ++ [b])) (src : List UInt8) :
    findStart (windowOf read) (b :: src) = some src := by
  rw [findStart, nextHeader_windowOf, if_pos ((isHardware_windowOf _).mpr h)]

/-! ## The packets -/

/-- A PES packet of a private stream and the bytes before it, in which nothing starts. -/
structure PesPacket where
  gap : List UInt8
  body : List UInt8
  gap_startCode : ¬ startCode <:+: gap
  gap_syncBytes : ∀ last ∈ [(0x77 : UInt8), 0xaa], ¬ syncBytes last <:+: gap
  length_lt : body.length < 2 ^ 16

/-- What stands behind the start code: the length and that many bytes. -/
def PesPacket.counted (packet : PesPacket) : List UInt8 :=
  beBytes 2 packet.body.length ++ packet.body

def PesPacket.bytes (packet : PesPacket) : List UInt8 :=
  packet.gap ++ startCode ++ packet.counted

/-- The bytes before the packet complete a start code with the zeros that the search begins
with. -/
def PesPacket.FalseStart (packet : PesPacket) : Prop :=
  [1, 0xbd] <+: packet.gap ∨ [0, 1, 0xbd] <+: packet.gap

section Search

variable {packet : PesPacket}

/-- A start code behind zeros is whole or lacks only zeros. -/
theorem startCode_suffix {v : List UInt8} (h : startCode <:+ [0, 0, 0, 0] ++ v) :
    startCode <:+ v ∨ v = [1, 0xbd] ∨ v = [0, 1, 0xbd] := by
  obtain hv | hv := List.suffix_or_suffix_of_suffix h (List.suffix_append _ v)
  · exact .inl hv
  · have htails : v ∈ startCode.tails := (List.mem_tails _ _).mpr hv
    simp only [startCode, List.tails, List.mem_cons, List.not_mem_nil, or_false] at htails
    rcases htails with rfl | rfl | rfl | rfl | rfl
    · exact .inl hv
    · exact .inr (.inr rfl)
    · exact .inr (.inl rfl)
    · exact absurd h (by decide)
    · exact absurd h (by decide)

/-- A sync word holds no zeros. -/
theorem syncBytes_suffix {last : UInt8} {v : List UInt8}
    (h : syncBytes last <:+ [0, 0, 0, 0, 0] ++ v) : syncBytes last <:+ v := by
  obtain hv | hv := List.suffix_or_suffix_of_suffix h (List.suffix_append _ v)
  · exact hv
  · have htails : v ∈ (syncBytes last).tails := (List.mem_tails _ _).mpr hv
    simp only [syncBytes, List.tails, List.mem_cons, List.not_mem_nil, or_false] at htails
    rcases htails with rfl | rfl | rfl | rfl | rfl | rfl
    · exact hv
    all_goals simp [syncBytes, List.suffix_cons_iff] at h

/-- What ends with another byte than those of the packet's start lies before the packet. -/
theorem prefix_gap {gap v : List UInt8} {b : UInt8} (hv : [b] <:+ v)
    (hb : b ≠ 0 ∧ b ≠ 1) (h : v <+: gap ++ [0, 0, 1]) : v <+: gap := by
  have hlast : ∀ {u : List UInt8} {c : UInt8}, c ≠ b → v <+: u ++ [c] → v <+: u := by
    intro u c hc hu
    obtain rfl | hu := List.prefix_concat_iff.mp hu
    · have hcb : [c] <:+ [b] := List.suffix_of_suffix_length_le (List.suffix_append u [c])
        hv le_rfl
      exact absurd (List.cons.inj (hcb.eq_of_length rfl)).1 hc
    · exact hu
  exact hlast hb.1.symm (hlast hb.1.symm (hlast hb.2.symm (by simpa using h)))

/-- Nothing starts before the packet, but for a false start. -/
theorem quiet_prefix (hstart : ¬ packet.FalseStart) {v : List UInt8}
    (hv : v <+: packet.gap ++ [0, 0, 1]) : Quiet v := by
  constructor
  · intro h
    rw [isHardware_windowOf] at h
    obtain hsuffix | rfl | rfl := startCode_suffix h
    · have hgap := prefix_gap (b := 0xbd) ((List.suffix_append [0, 0, 1] [0xbd]).trans hsuffix)
        (by decide) hv
      exact packet.gap_startCode (hsuffix.isInfix.trans hgap.isInfix)
    · exact hstart (.inl (prefix_gap (List.suffix_append [1] [0xbd]) (by decide) hv))
    · exact hstart (.inr (prefix_gap (List.suffix_append [0, 1] [0xbd]) (by decide) hv))
  · intro h
    obtain ⟨last, hmem, h⟩ := (isSoftware_windowOf _).mp h
    have hsuffix := syncBytes_suffix h
    have hlast : last ≠ 0 ∧ last ≠ 1 := by
      rcases List.mem_pair.mp hmem with rfl | rfl <;> decide
    have hgap := prefix_gap ((List.suffix_append [0x41, 0x4d, 0x4c, 0x55] [last]).trans hsuffix)
      hlast hv
    exact packet.gap_syncBytes last hmem (hsuffix.isInfix.trans hgap.isInfix)

/-- The search comes to the packet's start code. -/
theorem findStart_packet (hstart : ¬ packet.FalseStart) (rest : List UInt8) :
    findStart 0 (packet.bytes ++ rest) = some (packet.counted ++ rest) := by
  have hquiet : ∀ v, v ≠ [] → v <+: packet.gap ++ [0, 0, 1] → Quiet ([] ++ v) :=
    fun v _ hv => quiet_prefix hstart hv
  have hbytes : packet.bytes ++ rest =
      (packet.gap ++ [0, 0, 1]) ++ 0xbd :: (packet.counted ++ rest) := by
    simp [PesPacket.bytes, startCode]
  have hcode : startCode <:+ [0, 0, 0, 0] ++ (packet.gap ++ [0, 0, 1] ++ [0xbd]) :=
    ⟨[0, 0, 0, 0] ++ packet.gap, by simp [startCode]⟩
  rw [hbytes, show 0 = windowOf [] from rfl, findStart_append _ hquiet, List.nil_append,
    findStart_cons_hardware hcode]

/-- A false start is found before the packet. -/
theorem findStart_falseStart (hstart : packet.FalseStart) (rest : List UInt8) :
    findStart 0 (packet.bytes ++ rest) ≠ some (packet.counted ++ rest) := by
  have hfound : ∀ v gap, v ++ [0xbd] ++ gap = packet.gap → (v = [1] ∨ v = [0, 1]) →
      findStart 0 (packet.bytes ++ rest) =
        some (gap ++ (startCode ++ packet.counted ++ rest)) := by
    intro v gap hgap hv
    have hquiet : ∀ u, u ≠ [] → u <+: v → Quiet ([] ++ u) := by
      intro u _ hu
      have hinits : u ∈ v.inits := (List.mem_inits _ _).mpr hu
      have hall : ∀ u ∈ v.inits, ¬ startCode <:+ [0, 0, 0, 0] ++ u ∧
          ∀ last ∈ [(0x77 : UInt8), 0xaa], ¬ syncBytes last <:+ [0, 0, 0, 0, 0] ++ u := by
        rcases hv with rfl | rfl <;> decide +kernel
      obtain ⟨hhw, hsw⟩ := hall u hinits
      rw [List.nil_append]
      refine ⟨mt (isHardware_windowOf u).mp hhw, fun h => ?_⟩
      obtain ⟨last, hmem, hsuffix⟩ := (isSoftware_windowOf u).mp h
      exact hsw last hmem hsuffix
    have hcode : startCode <:+ [0, 0, 0, 0] ++ (v ++ [0xbd]) := by
      rcases hv with rfl | rfl <;> decide
    have hbytes : packet.bytes ++ rest =
        v ++ 0xbd :: (gap ++ (startCode ++ packet.counted ++ rest)) := by
      simp [PesPacket.bytes, ← hgap]
    rw [hbytes, show 0 = windowOf [] from rfl, findStart_append _ hquiet, List.nil_append,
      findStart_cons_hardware hcode]
  obtain ⟨v, gap, hgap, hv⟩ : ∃ v gap, v ++ [0xbd] ++ gap = packet.gap ∧
      (v = [1] ∨ v = [0, 1]) := by
    obtain ⟨gap, hgap⟩ | ⟨gap, hgap⟩ := hstart
    · exact ⟨[1], gap, hgap, .inl rfl⟩
    · exact ⟨[0, 1], gap, hgap, .inr rfl⟩
  rw [hfound v gap hgap hv]
  intro h
  have hlength := congrArg List.length (Option.some.inj h)
  simp [startCode] at hlength
  omega

end Search

/-! ## What a pass asks for -/

/-- A length that is read, or that a buffer is allocated with. -/
inductive Request where
  | read (n : ℤ)
  | alloc (n : ℤ)
  deriving DecidableEq, Repr

def Request.length : Request → ℤ
  | .read n => n
  | .alloc n => n

/-- The bytes that a request takes from the source. -/
def Request.taken : Request → ℕ
  | .read n => n.toNat
  | .alloc _ => 0

/-- What `hwPacket` asks for. -/
def hwPacketRequests (pts packetLen : ℤ) : List Request :=
  if pts ≠ 0 ∧ 0 < packetLen then
    if OSD_HALF_SIZE * 4 < packetLen then
      []
    else if packetLen - 2 < 0 then
      [.read 2, .alloc (packetLen - 2)]
    else
      [.read 2, .alloc (packetLen - 2), .read (packetLen - 2)]
  else
    []

/-- What `hwDemuxParse` asks for; the loop that skips `packetLen` bytes asks for them at
once. -/
def hwRequests (src : List UInt8) : List Request :=
  let head := src.take 2
  let src := src.drop 2
  if head.length = 2 then
    let packetLen := AV_RB16 (sourceOf head) 0
    if 3 ≤ packetLen then
      let flags := src.take 3
      let src := src.drop 3
      if flags.length = 3 then
        let packetLen := packetLen - 3
        let pesHeaderLen := (sourceOf flags 2).toNat
        let kind := (sourceOf flags 1).toNat &&& 0xc0
        if pesHeaderLen ≤ packetLen ∧ (kind = 0x80 ∨ kind = 0xc0) then
          let pesHeader := src.take pesHeaderLen
          if pesHeader.length = pesHeaderLen then
            [.read 2, .read 3, .read pesHeaderLen] ++
              hwPacketRequests (pesPts (sourceOf (pesHeader ++ flags.drop pesHeaderLen)))
                (packetLen - pesHeaderLen)
          else
            [.read 2, .read 3, .read pesHeaderLen]
        else
          [.read 2, .read 3, .read packetLen]
      else
        [.read 2, .read 3]
    else
      [.read 2, .read packetLen]
  else
    [.read 2]

def takenBy (requests : List Request) : ℕ := (requests.map Request.taken).sum

theorem rest_hwPacket (ctx : DVBSubContext) (syncTime pts packetLen : ℤ) (src : List UInt8) :
    (hwPacket ctx syncTime pts packetLen src).rest =
      src.drop (takenBy (hwPacketRequests pts packetLen)) := by
  unfold hwPacket hwPacketRequests
  dsimp only
  by_cases hpts : pts ≠ 0 ∧ 0 < packetLen
  · rw [if_pos hpts, if_pos hpts]
    by_cases hhuge : OSD_HALF_SIZE * 4 < packetLen
    · rw [if_pos hhuge, if_pos hhuge]
      simp [takenBy, nothing]
    · rw [if_neg hhuge, if_neg hhuge]
      by_cases hneg : packetLen - 2 < 0
      · rw [if_pos hneg, if_pos hneg]
        simp [takenBy, nothing, Request.taken]
      · rw [if_neg hneg, if_neg hneg]
        have htaken : takenBy [.read 2, .alloc (packetLen - 2), .read (packetLen - 2)] =
            2 + (packetLen - 2).toNat := by
          simp [takenBy, Request.taken]
        rw [htaken, ← List.drop_drop]
        by_cases hshort : (src.drop 2).length < packetLen - 2
        · rw [if_pos hshort]
          refine (List.drop_eq_nil_of_le ?_).symm
          omega
        · rw [if_neg hshort]
          rfl
  · rw [if_neg hpts, if_neg hpts]
    simp [takenBy, nothing]

/-- A pass takes from the source what it asks for. -/
theorem rest_hwDemuxParse (ctx : DVBSubContext) (syncTime : ℤ) (src : List UInt8) :
    (hwDemuxParse ctx syncTime src).rest = src.drop (takenBy (hwRequests src)) := by
  unfold hwDemuxParse hwRequests
  dsimp only
  split_ifs
  all_goals simp [nothing, takenBy, Request.taken, rest_hwPacket]
  all_goals omega

/-! ## A packet and what follows -/

/-- The header length that the packet states. -/
def PesPacket.headerLength (packet : PesPacket) : ℕ := (sourceOf packet.body 2).toNat

/-- The packet has a header with a time stamp, and is not shorter than it. -/
def PesPacket.HasHeader (packet : PesPacket) : Prop :=
  3 ≤ packet.body.length ∧ packet.headerLength ≤ packet.body.length - 3 ∧
    ((sourceOf packet.body 1).toNat &&& 0xc0 = 0x80 ∨
      (sourceOf packet.body 1).toNat &&& 0xc0 = 0xc0)

/-- The time stamp that is read from the header; the bytes of a header that is too short are
those of the flags. -/
def PesPacket.pts (packet : PesPacket) : ℕ :=
  pesPts (sourceOf ((packet.body.drop 3).take packet.headerLength ++
    (packet.body.take 3).drop packet.headerLength))

/-- The bytes behind the header. -/
def PesPacket.left (packet : PesPacket) : ℕ := packet.body.length - 3 - packet.headerLength

/-- A packet that the demuxer takes whole. -/
def PesPacket.Whole (packet : PesPacket) : Prop :=
  packet.HasHeader → packet.left = 0 ∨ packet.pts ≠ 0 ∧ 2 ≤ packet.left

instance (packet : PesPacket) : Decidable packet.HasHeader := by
  unfold PesPacket.HasHeader
  infer_instance

section Packet

variable (packet : PesPacket) (after : List UInt8)

theorem AV_RB16_beBytes {n : ℕ} (h : n < 2 ^ 16) : AV_RB16 (sourceOf (beBytes 2 n)) 0 = n := by
  have hvalue : AV_RB16 (sourceOf (beBytes 2 n)) 0 = beValue (beBytes 2 n) := by
    rw [AV_RB16, shift_or]
    simp [sourceOf, beBytes, leBytes, beValue]
  rw [hvalue, beValue_beBytes (by omega)]

/-- What a pass asks for at a packet. -/
theorem hwRequests_packet :
    hwRequests (packet.counted ++ after) =
      .read 2 ::
        if 3 ≤ packet.body.length then
          .read 3 ::
            if packet.HasHeader then
              .read packet.headerLength :: hwPacketRequests packet.pts packet.left
            else
              [.read (packet.body.length - 3 : ℕ)]
        else
          [.read packet.body.length] := by
  have hhead : (packet.counted ++ after).take 2 = beBytes 2 packet.body.length := by
    rw [PesPacket.counted, List.append_assoc, List.take_left' (length_beBytes 2 _)]
  have hbody : (packet.counted ++ after).drop 2 = packet.body ++ after := by
    rw [PesPacket.counted, List.append_assoc, List.drop_left' (length_beBytes 2 _)]
  unfold hwRequests
  dsimp only
  rw [hhead, hbody, if_pos (length_beBytes 2 _), AV_RB16_beBytes packet.length_lt]
  by_cases hshort : 3 ≤ packet.body.length
  · have hflags : (packet.body ++ after).take 3 = packet.body.take 3 :=
      List.take_append_of_le_length hshort
    have hpayload : (packet.body ++ after).drop 3 = packet.body.drop 3 ++ after :=
      List.drop_append_of_le_length hshort
    have hflag : ∀ i < 3, sourceOf (packet.body.take 3) i = sourceOf packet.body i := by
      intro i hi
      simp [sourceOf, hi]
    rw [if_pos hshort, if_pos hshort, hflags, hpayload, if_pos (by simpa using hshort),
      hflag 1 (by omega), hflag 2 (by omega), ← PesPacket.headerLength]
    by_cases hheader : packet.HasHeader
    · have hpes : (packet.body.drop 3 ++ after).take packet.headerLength =
          (packet.body.drop 3).take packet.headerLength :=
        List.take_append_of_le_length (by simpa using hheader.2.1)
      have hlength : ((packet.body.drop 3).take packet.headerLength).length =
          packet.headerLength := by
        rw [List.length_take, List.length_drop]
        exact Nat.min_eq_left hheader.2.1
      have hleft : ((packet.body.length - 3 : ℕ) : ℤ) - packet.headerLength = packet.left := by
        rw [PesPacket.left, Nat.cast_sub hheader.2.1]
      rw [if_pos hheader.2, if_pos hheader, hpes, if_pos hlength, hleft]
      rfl
    · have hneg := fun h => hheader ⟨hshort, h⟩
      rw [if_neg hneg, if_neg hheader]
  · rw [if_neg hshort, if_neg hshort]

/-- A packet with less than `2 ^ 16` bytes is never too big. -/
theorem hwPacketRequests_left :
    hwPacketRequests packet.pts packet.left =
      if packet.pts ≠ 0 ∧ 0 < packet.left then
        if packet.left = 1 then [.read 2, .alloc (-1)]
        else [.read 2, .alloc (packet.left - 2), .read (packet.left - 2)]
      else [] := by
  have hlength := packet.length_lt
  have hleft : packet.left ≤ packet.body.length := by
    rw [PesPacket.left]
    omega
  have hbig : ¬ (OSD_HALF_SIZE * 4 : ℤ) < packet.left := by
    rw [OSD_HALF_SIZE]
    omega
  unfold hwPacketRequests
  rw [if_neg hbig]
  by_cases hone : packet.left = 1
  · simp [hone]
  · by_cases hpts : packet.pts ≠ 0 ∧ 0 < packet.left
    · rw [if_pos (by omega), if_pos hpts, if_neg (by omega), if_neg hone]
    · rw [if_neg (by omega), if_neg hpts]

theorem PesPacket.HasHeader.left_add {packet : PesPacket} (h : packet.HasHeader) :
    packet.left + packet.headerLength + 3 = packet.body.length := by
  obtain ⟨hshort, hfits, -⟩ := h
  rw [PesPacket.left]
  omega

/-- A negative length comes from a header with one byte behind it only. -/
theorem lengths_packet :
    (∀ request ∈ hwRequests (packet.counted ++ after), 0 ≤ request.length) ↔
      ¬ (packet.HasHeader ∧ packet.pts ≠ 0 ∧ packet.left = 1) := by
  rw [hwRequests_packet, hwPacketRequests_left]
  by_cases hshort : 3 ≤ packet.body.length
  · rw [if_pos hshort]
    by_cases hheader : packet.HasHeader
    · rw [if_pos hheader]
      split_ifs with hpts hone
      · simp [hheader, hpts.1, hone, Request.length]
      · simp [hone, Request.length]
        omega
      · simp [Request.length]
        omega
    · rw [if_neg hheader]
      simp [hheader, Request.length]
  · have hheader : ¬ packet.HasHeader := fun h => hshort h.1
    rw [if_neg hshort]
    simp [hheader, Request.length]

/-- The bytes that a pass takes at a packet. -/
theorem takenBy_packet :
    takenBy (hwRequests (packet.counted ++ after)) =
      if packet.HasHeader then
        5 + packet.headerLength +
          if packet.pts ≠ 0 ∧ 0 < packet.left then max 2 packet.left else 0
      else 2 + packet.body.length := by
  rw [hwRequests_packet, hwPacketRequests_left]
  by_cases hshort : 3 ≤ packet.body.length
  · rw [if_pos hshort]
    by_cases hheader : packet.HasHeader
    · rw [if_pos hheader, if_pos hheader]
      split_ifs with hpts hone
      all_goals simp [takenBy, Request.taken]
      all_goals omega
    · rw [if_neg hheader, if_neg hheader]
      simp [takenBy, Request.taken]
      omega
  · have hheader : ¬ packet.HasHeader := fun h => hshort h.1
    rw [if_neg hshort, if_neg hheader]
    simp [takenBy, Request.taken]

/-- A packet is whole when a pass asks for no negative length and takes all of it. -/
theorem whole_iff :
    packet.Whole ↔
      (∀ request ∈ hwRequests (packet.counted ++ after), 0 ≤ request.length) ∧
        2 + packet.body.length ≤ takenBy (hwRequests (packet.counted ++ after)) := by
  rw [lengths_packet, takenBy_packet, PesPacket.Whole]
  by_cases hheader : packet.HasHeader
  · have hleft := hheader.left_add
    rw [if_pos hheader]
    simp only [hheader, true_and, forall_const]
    split_ifs with hpts
    · omega
    · omega
  · rw [if_neg hheader]
    simp [hheader]

/-- With no negative length, a pass takes no more than the packet. -/
theorem takenBy_le
    (h : ∀ request ∈ hwRequests (packet.counted ++ after), 0 ≤ request.length) :
    takenBy (hwRequests (packet.counted ++ after)) ≤ 2 + packet.body.length := by
  rw [lengths_packet] at h
  rw [takenBy_packet]
  by_cases hheader : packet.HasHeader
  · have hleft := hheader.left_add
    rw [if_pos hheader]
    simp only [hheader, true_and] at h
    split_ifs with hpts
    · omega
    · omega
  · rw [if_neg hheader]

end Packet

/-! ## The stream -/

/-- The packets of a stream, one after the other. -/
def streamOf (passes : List (ℤ × PesPacket)) : List UInt8 :=
  passes.flatMap fun pass => pass.2.bytes

/-- A pass of `getDvbSpu` finds the packet, takes it whole, with no negative length. -/
structure ConsumesPacket (ctx : DVBSubContext) (syncTime : ℤ) (src : List UInt8)
    (packet : PesPacket) (after : List UInt8) : Prop where
  found : findStart 0 src = some (packet.counted ++ after)
  rest : (getDvbSpu ctx syncTime src).rest =
    (packet.counted ++ after).drop (2 + packet.body.length)
  lengths : ∀ request ∈ hwRequests (packet.counted ++ after), 0 ≤ request.length

/-- Pass after pass does so, each with the time that the data source answers and the bytes
that the pass before has left. -/
def ConsumesPackets : DVBSubContext → List UInt8 → List (ℤ × PesPacket) → Prop
  | _, src, [] => src = []
  | ctx, src, pass :: passes =>
    ConsumesPacket ctx pass.1 src pass.2 (streamOf passes) ∧
      ConsumesPackets (getDvbSpu ctx pass.1 src).ctx (getDvbSpu ctx pass.1 src).rest passes

/-- One pass. -/
theorem consumesPacket_iff (ctx : DVBSubContext) (syncTime : ℤ) (packet : PesPacket)
    (after : List UInt8) :
    ConsumesPacket ctx syncTime (packet.bytes ++ after) packet after ↔
      ¬ packet.FalseStart ∧ packet.Whole := by
  have hcounted : packet.counted.length = 2 + packet.body.length := by
    simp [PesPacket.counted]
  have hrest : ∀ h : ¬ packet.FalseStart, (getDvbSpu ctx syncTime (packet.bytes ++ after)).rest =
      (packet.counted ++ after).drop (takenBy (hwRequests (packet.counted ++ after))) := by
    intro h
    rw [getDvbSpu, scan_of_findStart (findStart_packet h after), rest_hwDemuxParse]
  rw [whole_iff packet after]
  constructor
  · rintro ⟨hfound, hconsumed, hlengths⟩
    have hstart : ¬ packet.FalseStart := fun h => findStart_falseStart h after hfound
    refine ⟨hstart, hlengths, ?_⟩
    have hle := takenBy_le packet after hlengths
    rw [hrest hstart] at hconsumed
    have hlength := congrArg List.length hconsumed
    rw [List.length_drop, List.length_drop, List.length_append, hcounted] at hlength
    omega
  · rintro ⟨hstart, hlengths, htaken⟩
    have heq := le_antisymm (takenBy_le packet after hlengths) htaken
    exact ⟨findStart_packet hstart after, by rw [hrest hstart, heq], hlengths⟩

/-- **The framing**: pass after pass takes one packet whole, with no negative length, exactly
when no packet completes a start code too early, and each packet with a header with a time
stamp has nothing behind it, or a time stamp that is not 0 and two bytes or more. -/
theorem consumesPackets_iff (ctx : DVBSubContext) (passes : List (ℤ × PesPacket)) :
    ConsumesPackets ctx (streamOf passes) passes ↔
      ∀ pass ∈ passes, ¬ pass.2.FalseStart ∧ pass.2.Whole := by
  induction passes generalizing ctx with
  | nil => simp [ConsumesPackets, streamOf]
  | cons pass passes ih =>
    have hstream : streamOf (pass :: passes) = pass.2.bytes ++ streamOf passes := rfl
    have hdrop : (pass.2.counted ++ streamOf passes).drop (2 + pass.2.body.length) =
        streamOf passes := List.drop_left' (by simp [PesPacket.counted])
    rw [ConsumesPackets, hstream, List.forall_mem_cons, ← consumesPacket_iff ctx pass.1]
    constructor
    · rintro ⟨hpass, hpasses⟩
      rw [hpass.rest, hdrop, ih] at hpasses
      exact ⟨hpass, hpasses⟩
    · rintro ⟨hpass, hpasses⟩
      refine ⟨hpass, ?_⟩
      rw [hpass.rest, hdrop, ih]
      exact hpasses

/-- The end of a display set in a packet with time stamp 0. -/
def zeroPts : PesPacket where
  gap := []
  body := [0x80, 0x80, 5, 0x21, 0, 1, 0, 1] ++ [0x20, 0, 0x0f, 0x80, 0, 1, 0, 0, 0xff]
  gap_startCode := by decide
  gap_syncBytes := by decide +kernel
  length_lt := by decide

/-- The nine bytes behind its header stay in the source. -/
theorem not_consumesPackets_zeroPts : ¬ ∀ (ctx : DVBSubContext) (passes : List (ℤ × PesPacket)),
    ConsumesPackets ctx (streamOf passes) passes := by
  intro h
  have hconsumes : ConsumesPacket init 0 (zeroPts.bytes ++ streamOf []) zeroPts (streamOf []) :=
    (h init [(0, zeroPts)]).1
  have hwhole := ((consumesPacket_iff init 0 zeroPts _).mp hconsumes).2
  exact absurd (hwhole (by decide)) (by decide)

end Dvb
end AmlSubtitle
