import AmlSubtitle.Lib.Lockstep
import AmlSubtitle.Parser.DvdParser

/-!
# The DVD parser: the assembly of an SPU

`getSpu` reads the bytes of its source into a buffer, which it allocates for what is available and
for the bytes that the last call has left (`mRestbuf`), and gives each VOB packet in it to
`getVobSpu`, which follows the packets of an SPU from the payload of the first one on.

* `getVobSpu`: the bytes that it reads; `PacketsFit`, `vobLoop_reads_iff`: when they are in the
  buffer.
* `pass`: a pass of the loop of `getSpu`, with the places that are written.
* `assembly_iff`: the runs of calls in which nothing is written or read outside the buffer.

A read of the source waits for all the bytes that it asks for, so its place must have room for them;
if the source is stopped, it gets fewer.  The header of a packet is parsed at the start of the
buffer in every pass, not where the pass has put the packet.
-/

namespace AmlSubtitle
namespace Dvd

open Dvb (Source AV_RB16)

def HEADER_SIZE : ℕ := 20

def AML_PARSER_SYNC_WORD : ℕ := 0x414d4c55

/-- The bytes at and around the buffer. -/
abbrev Memory := ℤ → UInt8

/-- Four bytes, as `subPeekAsInt32` reads them. -/
def subPeek32 (bytes : Source) : ℕ :=
  (((bytes 0).toNat * 256 + (bytes 1).toNat) * 256 + (bytes 2).toNat) * 256 + (bytes 3).toNat

/-- The packet is one of a VOB file, or of an MKV file. -/
def isVob (currentType : ℕ) : Bool := currentType = 0x17000 ∨ currentType = 0x1700a

/-! ## The packets of an SPU -/

/-- The variables of the loop, and the bytes that it reads: where they begin, and how many. -/
structure VobLoop where
  rdOffset : ℕ
  wrOffset : ℕ
  currentLen : ℕ
  reads : List (ℕ × ℕ)

/-- How the loop ends. -/
inductive VobEnd where
  | ready
  | incomplete
  | wrongSync
  deriving DecidableEq, Repr

section Loop

variable (spuBuffer : Source) (length : ℕ)

/-- A payload is copied if the SPU has room for it. -/
def vobCopy (v : VobLoop) : VobLoop × Option VobEnd :=
  if (v.wrOffset + v.currentLen) % 2 ^ 32 ≤ length then
    let wrOffset := (v.wrOffset + v.currentLen) % 2 ^ 32
    ({ rdOffset := v.rdOffset + v.currentLen
       wrOffset := wrOffset
       currentLen := 0
       reads := v.reads ++ [(v.rdOffset, v.currentLen)] },
      if wrOffset = length then some .ready else none)
  else (v, some .incomplete)

/-- A round of the loop, with its end if it is the last. -/
def vobRound (v : VobLoop) : VobLoop × Option VobEnd :=
  if v.currentLen = 0 then
    if subPeek32 (fun k => spuBuffer (v.rdOffset + k)) ≠ AML_PARSER_SYNC_WORD then
      ({ v with rdOffset := v.rdOffset + 4, reads := v.reads ++ [(v.rdOffset, 4)] },
        some .wrongSync)
    else
      vobCopy length
        { v with
          rdOffset := v.rdOffset + 16
          currentLen := subPeek32 fun k => spuBuffer (v.rdOffset + 8 + k)
          reads := v.reads ++ [(v.rdOffset, 4), (v.rdOffset + 8, 4)] }
  else vobCopy length v

/-- The loop, in at most `fuel` rounds. -/
def vobLoop : ℕ → VobLoop → VobLoop × VobEnd
  | 0, v => (v, .incomplete)
  | fuel + 1, v =>
    if v.wrOffset < length then
      match vobRound spuBuffer length v with
      | (v, none) => vobLoop fuel v
      | (v, some e) => (v, e)
    else (v, .incomplete)

end Loop

/-- What `getVobSpu` reads, takes off `bufsize` and returns. -/
structure VobResult where
  reads : List (ℕ × ℕ)
  consumed : ℕ
  ret : ℕ

/-- The first four bytes of `EXTRA`, behind which the fifth is read. -/
def isExtr (spuBuffer : Source) : Bool :=
  spuBuffer 0 = 0x45 ∧ spuBuffer 1 = 0x58 ∧ spuBuffer 2 = 0x54 ∧ spuBuffer 3 = 0x52

/-- The payload begins with `EXTRA`. -/
def isExtra (spuBuffer : Source) : Bool := isExtr spuBuffer && decide (spuBuffer 4 = 0x41)

/-- What `parseExtradata` copies.  With a length of 4 the size is -1, as a `size_t`; with less the
allocation fails. -/
def extradataReads (extradataSize : ℕ) : List (ℕ × ℕ) :=
  if extradataSize < 4 then []
  else if extradataSize = 4 then [(5, 2 ^ 32 - 1)]
  else [(5, extradataSize - 5)]

/-- `getVobSpu`, whose loop is cut off behind `fuel` rounds; `pixels` if the planes of the picture
are allocated. -/
def getVobSpu (spuBuffer : Source) (fuel : ℕ) (pixels : Bool) (length : ℕ) : VobResult :=
  if isExtra spuBuffer then
    { reads := [(0, 5), (0, 16)] ++ extradataReads length
      consumed := length
      ret := 0 }
  else
    let (v, e) := vobLoop spuBuffer (AV_RB16 spuBuffer 0) fuel ⟨0, 0, length, []⟩
    { reads := [(0, if isExtr spuBuffer then 5 else 4)] ++ v.reads
      consumed := v.rdOffset
      ret := if e = .ready ∧ ¬ pixels then 0 else v.rdOffset }

/-! ## A call -/

/-- A call in its loop. -/
structure SpuLoop where
  size : ℕ
  spuBuffer : Memory
  tmpSpuBuf : ℕ
  sizeflag : ℕ
  currentType : ℕ

/-- The parser: what the calls leave to each other, and the call that is going on. -/
structure Assembly where
  mRestLen : ℤ
  mRestbuf : Option Source
  loop : Option SpuLoop

/-- What a pass meets: the bytes that the source gives to the two reads, the allocations that
succeed, and the memory behind `mRestbuf`. -/
structure PassInput where
  header : List UInt8
  body : List UInt8
  pixels : Bool
  restbuf : Bool
  behind : Source

/-- What a pass writes into the buffer and `getVobSpu` reads from it, and the parser behind it. -/
structure Passed where
  writes : List (ℤ × ℤ)
  reads : List (ℤ × ℤ)
  next : Assembly

/-- `bytes` are written from `i` on. -/
def Memory.store (m : Memory) (i : ℤ) (bytes : List UInt8) : Memory := fun k =>
  if i ≤ k ∧ k < i + bytes.length then bytes.getD (k - i).toNat 0 else m k

/-- The bytes from `i` on. -/
def Memory.source (m : Memory) (i : ℤ) : Source := fun k => m (i + k)

section Pass

variable (s : Assembly) (l : SpuLoop) (e : PassInput)

/-- The rest is decoded, and no header is read. -/
def keepsHeader : Bool := isVob l.currentType && decide (0 < s.mRestLen)

/-- The loop when the header is parsed. -/
def headed : SpuLoop :=
  let spuBuffer :=
    if 0 < s.mRestLen then
      l.spuBuffer.store l.tmpSpuBuf
        ((List.range s.mRestLen.toNat).map (s.mRestbuf.getD e.behind))
    else l.spuBuffer
  if keepsHeader s l then { l with spuBuffer := spuBuffer }
  else
    { l with
      spuBuffer := spuBuffer.store (l.tmpSpuBuf + s.mRestLen) (e.header.take HEADER_SIZE)
      sizeflag := l.sizeflag - HEADER_SIZE
      tmpSpuBuf := l.tmpSpuBuf + HEADER_SIZE }

/-- The places that are written until then. -/
def headWrites : List (ℤ × ℤ) :=
  (if 0 < s.mRestLen then [((l.tmpSpuBuf : ℤ), s.mRestLen)] else []) ++
    if keepsHeader s l then [] else [(l.tmpSpuBuf + s.mRestLen, (HEADER_SIZE : ℤ))]

/-- `mRestLen` behind the header. -/
def restBehind : ℤ := if s.mRestLen ≠ 0 then s.mRestLen - 16 else 0

/-- The bytes that are asked for behind the header of a VOB packet. -/
def bodySize : ℤ := ((headed s l e).sizeflag - restBehind s) % 2 ^ 32

/-- The buffer when a VOB packet is decoded. -/
def loaded : Memory :=
  (headed s l e).spuBuffer.store (l.tmpSpuBuf + restBehind s + HEADER_SIZE)
    (e.body.take (bodySize s l e).toNat)

/-- The type and the length in the header. -/
def headerType : ℕ := subPeek32 ((headed s l e).spuBuffer.source 4) &&& 0x00FFFFFF

def headerLen : ℕ := subPeek32 ((headed s l e).spuBuffer.source 8)

/-- The offset of the payload. -/
def payloadOffset : ℕ := if headerType s l e = 0x1700a then 24 else 20

/-- The payload of a VOB packet, and what follows it. -/
def payload : Source := (loaded s l e).source (l.tmpSpuBuf + payloadOffset s l e)

end Pass

/-- What is left behind an SPU is kept, and decoded if it begins with a header. -/
def keepRest (s : Assembly) (l : SpuLoop) (e : PassInput) (left start : ℤ) : Assembly :=
  if left ≤ 0 then { s with mRestLen := 0, loop := none }
  else if ¬ e.restbuf then { mRestLen := left, mRestbuf := none, loop := none }
  else
    let mRestbuf : Source := fun k => if k < left then l.spuBuffer (start + k) else e.behind k
    if subPeek32 mRestbuf = AML_PARSER_SYNC_WORD ∧ (mRestbuf 4 = 0xaa ∨ mRestbuf 4 = 0x77) then
      { mRestLen := left
        mRestbuf := some mRestbuf
        loop := if 30 < left then some { l with sizeflag := left.toNat } else none }
    else { mRestLen := 0, mRestbuf := none, loop := none }

/-- A pass of the loop of `getSpu`. -/
def pass (s : Assembly) (l : SpuLoop) (e : PassInput) : Passed :=
  let h := headed s l e
  let piece := l.tmpSpuBuf
  let currentLen := headerLen s l e
  if subPeek32 (h.spuBuffer.source 0) ≠ AML_PARSER_SYNC_WORD then
    ⟨headWrites s l ++ [((piece : ℤ), (h.sizeflag : ℤ))], [], { s with loop := none }⟩
  else if h.sizeflag < currentLen then
    ⟨headWrites s l ++ [((piece : ℤ), (h.sizeflag : ℤ))], [],
      { s with mRestLen := restBehind s, loop := none }⟩
  else if isVob (headerType s l e) then
    let rdOffset := payloadOffset s l e
    let v := getVobSpu (payload s l e) (l.size + 5) e.pixels currentLen
    ⟨headWrites s l ++ [(piece + restBehind s + HEADER_SIZE, bodySize s l e)],
      v.reads.map fun r => (((piece + rdOffset + r.1 : ℕ) : ℤ), (r.2 : ℤ)),
      keepRest s
        { h with
          spuBuffer := loaded s l e
          tmpSpuBuf := h.tmpSpuBuf + currentLen
          currentType := headerType s l e }
        e (h.sizeflag - (rdOffset - HEADER_SIZE : ℕ) - v.consumed) (piece + rdOffset + v.ret)⟩
  else
    ⟨headWrites s l ++ [((piece : ℤ) + HEADER_SIZE, (currentLen : ℤ) + 4)], [],
      { s with mRestLen := 0, loop := none }⟩

/-- `n` bytes from `i` on are in a buffer. -/
def InBuffer (size : ℕ) (a : ℤ × ℤ) : Prop := a.2 = 0 ∨ 0 ≤ a.1 ∧ a.1 + a.2 ≤ size

instance (size : ℕ) (a : ℤ × ℤ) : Decidable (InBuffer size a) :=
  inferInstanceAs (Decidable (_ ∨ _))

/-- What can happen: a call begins, with the bytes that are available and a new buffer, which holds
anything; or its loop goes on with a pass. -/
inductive AssemblyEvent where
  | call (available : ℕ) (memory : Memory)
  | pass (e : PassInput)

/-- One event.  A write or a read outside the buffer is `none`. -/
def assemble (s : Assembly) : AssemblyEvent → Option Assembly
  | .call available memory =>
    let size := available + s.mRestLen
    -- a call that finds nothing, gets no buffer or has too little for a pass leaves all as it was
    if s.loop.isNone ∧ 0 < available ∧ 30 < size ∧ size < 2 ^ 31 then
      some { s with loop := some ⟨size.toNat, memory, 0, size.toNat, 0⟩ }
    else some s
  | .pass e =>
    match s.loop with
    | none => some s
    | some l =>
      let p := pass s l e
      if (∀ a ∈ p.writes, InBuffer l.size a) ∧ ∀ a ∈ p.reads, InBuffer l.size a then some p.next
      else none

/-- The parser at its start. -/
def startAssembly : Assembly := ⟨0, none, none⟩

/-! ## The packets are in the buffer -/

/-- What the loop reads from `rdOffset` on is in the first `room` bytes: the packets up to one that
completes the SPU, to one that has more than is missing, or to bytes that are no header. -/
inductive PacketsFit (spuBuffer : Source) (room length : ℕ) : ℕ → ℕ → ℕ → Prop
  | complete {rdOffset wrOffset currentLen : ℕ} (hdone : length ≤ wrOffset) :
    PacketsFit spuBuffer room length rdOffset wrOffset currentLen
  | longer {rdOffset wrOffset currentLen : ℕ} (hmore : wrOffset < length)
    (hlen : currentLen ≠ 0) (hlong : length < wrOffset + currentLen)
    (hint : wrOffset + currentLen < 2 ^ 32) :
    PacketsFit spuBuffer room length rdOffset wrOffset currentLen
  | payload {rdOffset wrOffset currentLen : ℕ} (hmore : wrOffset < length)
    (hlen : currentLen ≠ 0) (hfits : wrOffset + currentLen ≤ length)
    (hroom : rdOffset + currentLen ≤ room)
    (hrest : PacketsFit spuBuffer room length (rdOffset + currentLen) (wrOffset + currentLen) 0) :
    PacketsFit spuBuffer room length rdOffset wrOffset currentLen
  | noHeader {rdOffset wrOffset : ℕ} (hmore : wrOffset < length) (hroom : rdOffset + 4 ≤ room)
    (hsync : subPeek32 (fun k => spuBuffer (rdOffset + k)) ≠ AML_PARSER_SYNC_WORD) :
    PacketsFit spuBuffer room length rdOffset wrOffset 0
  | header {rdOffset wrOffset : ℕ} (hmore : wrOffset < length) (hroom : rdOffset + 12 ≤ room)
    (hsync : subPeek32 (fun k => spuBuffer (rdOffset + k)) = AML_PARSER_SYNC_WORD)
    (hrest : PacketsFit spuBuffer room length (rdOffset + 16) wrOffset
      (subPeek32 fun k => spuBuffer (rdOffset + 8 + k))) :
    PacketsFit spuBuffer room length rdOffset wrOffset 0

theorem subPeek32_lt (bytes : Source) : subPeek32 bytes < 2 ^ 32 := by
  have h₀ := (bytes 0).toNat_lt
  have h₁ := (bytes 1).toNat_lt
  have h₂ := (bytes 2).toNat_lt
  have h₃ := (bytes 3).toNat_lt
  unfold subPeek32
  omega

section Fit

variable {spuBuffer : Source} {room length : ℕ}

/-- A read of the first `room` bytes. -/
def InRoom (room : ℕ) (r : ℕ × ℕ) : Prop := r.2 = 0 ∨ r.1 + r.2 ≤ room

theorem reads_subset_vobCopy (v : VobLoop) : v.reads ⊆ (vobCopy length v).1.reads := by
  unfold vobCopy
  split_ifs
  · exact List.subset_append_left _ _
  · exact fun _ h => h

theorem reads_subset_vobRound (v : VobLoop) :
    v.reads ⊆ (vobRound spuBuffer length v).1.reads := by
  unfold vobRound
  split_ifs
  · exact List.subset_append_left _ _
  · exact fun r hr => reads_subset_vobCopy _ (List.mem_append_left _ hr)
  · exact reads_subset_vobCopy v

theorem reads_subset_vobLoop (fuel : ℕ) (v : VobLoop) :
    v.reads ⊆ (vobLoop spuBuffer length fuel v).1.reads := by
  induction fuel generalizing v with
  | zero => exact fun _ h => h
  | succ fuel ih =>
    have hround := @reads_subset_vobRound spuBuffer length v
    rw [vobLoop]
    split_ifs
    · split
      case h_1 v' heq =>
        rw [heq] at hround
        exact fun r hr => ih v' (hround hr)
      case h_2 v' e heq =>
        rw [heq] at hround
        exact hround
    · exact fun _ h => h

/-- The next packet, behind its header. -/
theorem packetsFit_payload_iff {rdOffset wrOffset currentLen : ℕ} (hmore : wrOffset < length)
    (hlen : currentLen ≠ 0) : PacketsFit spuBuffer room length rdOffset wrOffset currentLen ↔
      length < wrOffset + currentLen ∧ wrOffset + currentLen < 2 ^ 32 ∨
      wrOffset + currentLen ≤ length ∧ rdOffset + currentLen ≤ room ∧
        PacketsFit spuBuffer room length (rdOffset + currentLen) (wrOffset + currentLen) 0 := by
  constructor
  · intro h
    cases h with
    | complete hdone => omega
    | longer _ _ hlong hint => exact .inl ⟨hlong, hint⟩
    | payload _ _ hfits hroom hrest => exact .inr ⟨hfits, hroom, hrest⟩
    | noHeader _ _ _ => exact absurd rfl hlen
    | header _ _ _ _ => exact absurd rfl hlen
  · rintro (⟨hlong, hint⟩ | ⟨hfits, hroom, hrest⟩)
    · exact .longer hmore hlen hlong hint
    · exact .payload hmore hlen hfits hroom hrest

/-- The next header. -/
theorem packetsFit_header_iff {rdOffset wrOffset : ℕ} (hmore : wrOffset < length) :
    PacketsFit spuBuffer room length rdOffset wrOffset 0 ↔
      if subPeek32 (fun k => spuBuffer (rdOffset + k)) ≠ AML_PARSER_SYNC_WORD then
        rdOffset + 4 ≤ room
      else rdOffset + 12 ≤ room ∧ PacketsFit spuBuffer room length (rdOffset + 16) wrOffset
        (subPeek32 fun k => spuBuffer (rdOffset + 8 + k)) := by
  constructor
  · intro h
    cases h with
    | complete hdone => omega
    | longer _ hlen => exact absurd rfl hlen
    | payload _ hlen => exact absurd rfl hlen
    | noHeader _ hroom hsync =>
      rw [if_pos hsync]
      exact hroom
    | header _ hroom hsync hrest =>
      rw [if_neg (not_not.mpr hsync)]
      exact ⟨hroom, hrest⟩
  · intro h
    split_ifs at h with hsync
    · exact .noHeader hmore h hsync
    · exact .header hmore h.1 (not_not.mp hsync) h.2

/-- The end of a round, and the rounds behind it. -/
def vobContinue (spuBuffer : Source) (length fuel : ℕ) : VobLoop × Option VobEnd → List (ℕ × ℕ)
  | (v, none) => (vobLoop spuBuffer length fuel v).1.reads
  | (v, some _) => v.reads

theorem reads_subset_vobContinue (fuel : ℕ) (v : VobLoop × Option VobEnd) :
    v.1.reads ⊆ vobContinue spuBuffer length fuel v := by
  obtain ⟨v, _ | e⟩ := v
  · exact reads_subset_vobLoop fuel v
  · exact fun _ h => h

theorem vobLoop_succ {fuel : ℕ} {v : VobLoop} (hmore : v.wrOffset < length) :
    (vobLoop spuBuffer length (fuel + 1) v).1.reads =
      vobContinue spuBuffer length fuel (vobRound spuBuffer length v) := by
  rw [vobLoop, if_pos hmore]
  rcases vobRound spuBuffer length v with ⟨v', _ | e⟩
  · rfl
  · rfl

/-- The variables when there may be a packet at `rdOffset`. -/
structure Following (room length : ℕ) (v : VobLoop) : Prop where
  rdOffset_le : v.rdOffset ≤ room + 4
  wrOffset_le : v.wrOffset ≤ length
  currentLen_lt : v.currentLen < 2 ^ 32

/-- All reads are in the room exactly if those until now are and the packets fit. -/
def Follows (spuBuffer : Source) (room length : ℕ) (v : VobLoop) (reads : List (ℕ × ℕ)) : Prop :=
  (∀ r ∈ reads, InRoom room r) ↔ (∀ r ∈ v.reads, InRoom room r) ∧
    PacketsFit spuBuffer room length v.rdOffset v.wrOffset v.currentLen

theorem inRoom_append_singleton {reads : List (ℕ × ℕ)} {r : ℕ × ℕ} :
    (∀ r' ∈ reads ++ [r], InRoom room r') ↔ (∀ r' ∈ reads, InRoom room r') ∧ InRoom room r := by
  simp only [List.forall_mem_append, List.forall_mem_singleton]

theorem vobCopy_of_le {v : VobLoop} {wrOffset : ℕ}
    (hmod : (v.wrOffset + v.currentLen) % 2 ^ 32 = wrOffset) (hle : wrOffset ≤ length) :
    vobCopy length v = (⟨v.rdOffset + v.currentLen, wrOffset, 0,
      v.reads ++ [(v.rdOffset, v.currentLen)]⟩,
      if wrOffset = length then some .ready else none) := by
  unfold vobCopy
  rw [hmod, if_pos hle]

/-- The copy of a payload, and the rounds behind it. -/
theorem follows_vobCopy (hlength : length < 2 ^ 16) (hroom : room < 2 ^ 31) {fuel : ℕ}
    (ih : ∀ v, Following room length v → room + 4 < v.rdOffset + fuel →
      Follows spuBuffer room length v (vobLoop spuBuffer length fuel v).1.reads)
    {v : VobLoop} (hv : Following room length v) (hmore : v.wrOffset < length)
    (hfuel : room + 4 < v.rdOffset + v.currentLen + fuel) :
    Follows spuBuffer room length v (vobContinue spuBuffer length fuel (vobCopy length v)) := by
  obtain ⟨hrd, hwr, hlt⟩ := hv
  by_cases hzero : v.currentLen = 0
  · -- nothing is copied, and the next header is looked for at the same place
    have hcopy := @vobCopy_of_le length v v.wrOffset (by omega) hwr
    rw [hzero, if_neg hmore.ne] at hcopy
    have hrest := ih ⟨v.rdOffset, v.wrOffset, 0, v.reads ++ [(v.rdOffset, 0)]⟩
      ⟨hrd, hwr, Nat.two_pow_pos 32⟩ (by dsimp only; omega)
    have hread : InRoom room (v.rdOffset, 0) := .inl rfl
    rw [Follows, inRoom_append_singleton, and_iff_left hread] at hrest
    rw [hcopy, Follows, hzero]
    exact hrest
  · rw [Follows, packetsFit_payload_iff hmore hzero]
    by_cases hint : v.wrOffset + v.currentLen < 2 ^ 32
    · have hmod := Nat.mod_eq_of_lt hint
      by_cases hfits : v.wrOffset + v.currentLen ≤ length
      · have hcopy := vobCopy_of_le hmod hfits
        have hnot :
            ¬ (length < v.wrOffset + v.currentLen ∧ v.wrOffset + v.currentLen < 2 ^ 32) := by
          omega
        have hread : InRoom room (v.rdOffset, v.currentLen) ↔ v.rdOffset + v.currentLen ≤ room :=
          or_iff_right hzero
        rw [or_iff_right hnot, and_iff_right hfits]
        by_cases hin : v.rdOffset + v.currentLen ≤ room
        · rw [and_iff_right hin]
          by_cases hready : v.wrOffset + v.currentLen = length
          · rw [if_pos hready] at hcopy
            rw [hcopy, vobContinue, inRoom_append_singleton, hread, and_iff_left hin]
            exact (and_iff_left (.complete hready.ge)).symm
          · rw [if_neg hready] at hcopy
            have hrest := ih ⟨v.rdOffset + v.currentLen, v.wrOffset + v.currentLen, 0,
              v.reads ++ [(v.rdOffset, v.currentLen)]⟩ ⟨by dsimp only; omega, hfits,
                Nat.two_pow_pos 32⟩ hfuel
            rw [Follows, inRoom_append_singleton, hread, and_iff_left hin] at hrest
            rw [hcopy]
            exact hrest
        · refine iff_of_false (fun hall => hin ?_) fun h => hin h.2.1
          have hsub := @reads_subset_vobContinue spuBuffer length fuel (vobCopy length v)
          refine hread.mp (hall _ (hsub ?_))
          rw [hcopy]
          simp
      · have hcopy : vobCopy length v = (v, some .incomplete) := by
          unfold vobCopy
          rw [hmod, if_neg hfits]
        rw [hcopy]
        exact (and_iff_left (.inl ⟨not_le.mp hfits, hint⟩)).symm
    · -- the sum of the offsets wraps around, and a payload of almost 4 GiB is copied
      have hle : v.wrOffset + v.currentLen - 2 ^ 32 ≤ length := by omega
      have hcopy := @vobCopy_of_le length v _ (by omega) hle
      refine iff_of_false (fun hall => ?_) fun h => by omega
      have hsub := @reads_subset_vobContinue spuBuffer length fuel (vobCopy length v)
      have hread := hall (v.rdOffset, v.currentLen) (hsub (by rw [hcopy]; simp))
      rcases hread with hnone | hread
      · exact hzero hnone
      · dsimp only at hread
        omega

/-- **The packets of an SPU** are read inside the buffer exactly if they fit. -/
theorem vobLoop_reads_iff (hlength : length < 2 ^ 16) (hroom : room < 2 ^ 31) {fuel : ℕ}
    {v : VobLoop} (hv : Following room length v) (hfuel : room + 4 < v.rdOffset + fuel) :
    Follows spuBuffer room length v (vobLoop spuBuffer length fuel v).1.reads := by
  induction fuel generalizing v with
  | zero =>
    have hrd := hv.rdOffset_le
    omega
  | succ fuel ih =>
    by_cases hmore : v.wrOffset < length
    · rw [vobLoop_succ hmore]
      by_cases hzero : v.currentLen = 0
      · rw [Follows, hzero, packetsFit_header_iff hmore]
        by_cases hsync : subPeek32 (fun k => spuBuffer (v.rdOffset + k)) ≠ AML_PARSER_SYNC_WORD
        · have hround : vobRound spuBuffer length v = ({ v with
              rdOffset := v.rdOffset + 4
              reads := v.reads ++ [(v.rdOffset, 4)] }, some .wrongSync) := by
            rw [vobRound, if_pos hzero, if_pos hsync]
          rw [hround, vobContinue, inRoom_append_singleton, if_pos hsync]
          simp [InRoom]
        · have hround : vobRound spuBuffer length v = vobCopy length { v with
              rdOffset := v.rdOffset + 16
              currentLen := subPeek32 fun k => spuBuffer (v.rdOffset + 8 + k)
              reads := v.reads ++ [(v.rdOffset, 4), (v.rdOffset + 8, 4)] } := by
            rw [vobRound, if_pos hzero, if_neg hsync]
          rw [hround, if_neg hsync]
          by_cases hin : v.rdOffset + 12 ≤ room
          · have hreads : (∀ r ∈ v.reads ++ [(v.rdOffset, 4), (v.rdOffset + 8, 4)],
                InRoom room r) ↔ ∀ r ∈ v.reads, InRoom room r := by
              rw [List.forall_mem_append]
              refine and_iff_left fun r hr => .inr ?_
              rcases List.mem_pair.mp hr with rfl | rfl
              · dsimp only
                omega
              · dsimp only
                omega
            have hnext : Following room length ⟨v.rdOffset + 16, v.wrOffset,
                subPeek32 fun k => spuBuffer (v.rdOffset + 8 + k),
                v.reads ++ [(v.rdOffset, 4), (v.rdOffset + 8, 4)]⟩ := by
              refine ⟨?_, hv.wrOffset_le, subPeek32_lt fun k => spuBuffer (v.rdOffset + 8 + k)⟩
              dsimp only
              omega
            have hrest := follows_vobCopy hlength hroom (fun v hv hfuel => ih hv hfuel) hnext hmore
              (by dsimp only; omega)
            rw [Follows, hreads] at hrest
            rw [and_iff_right hin]
            exact hrest
          · refine iff_of_false (fun hall => hin ?_) fun h => hin h.2.1
            have hread := hall (v.rdOffset + 8, 4) (reads_subset_vobContinue fuel _
              (reads_subset_vobCopy _ (List.mem_append_right _ (List.mem_pair.mpr (.inr rfl)))))
            rcases hread with hnone | hread
            · cases hnone
            · dsimp only at hread
              omega
      · have hround : vobRound spuBuffer length v = vobCopy length v := if_neg hzero
        rw [hround]
        exact follows_vobCopy hlength hroom (fun v hv hfuel => ih hv hfuel) hv hmore (by omega)
    · rw [vobLoop, if_neg hmore]
      exact (and_iff_left (.complete (not_lt.mp hmore))).symm

end Fit

/-- The first `room` bytes hold what `getVobSpu` reads for a payload of `length` bytes. -/
def VobFits (spuBuffer : Source) (room length : ℕ) : Prop :=
  if isExtra spuBuffer then 16 ≤ room ∧ length ≤ room ∧ length ≠ 4
  else PacketsFit spuBuffer room (AV_RB16 spuBuffer 0) 0 0 length

theorem extradataReads_iff {room : ℕ} (hroom : room < 2 ^ 31) (hlog : 16 ≤ room) (length : ℕ) :
    (∀ r ∈ extradataReads length, InRoom room r) ↔ length ≤ room ∧ length ≠ 4 := by
  unfold extradataReads InRoom
  split_ifs with hless hfour
  · exact iff_of_true (fun r hr => by cases hr) (by omega)
  · rw [List.forall_mem_singleton]
    dsimp only
    omega
  · rw [List.forall_mem_singleton]
    dsimp only
    omega

/-- **`getVobSpu`** reads inside the buffer exactly if the packets fit, or the extradata. -/
theorem getVobSpu_reads_iff {spuBuffer : Source} {room fuel length : ℕ} (pixels : Bool)
    (hmagic : 5 ≤ room) (hroom : room < 2 ^ 31) (hlength : length < 2 ^ 32)
    (hfuel : room + 4 < fuel) :
    (∀ r ∈ (getVobSpu spuBuffer fuel pixels length).reads, InRoom room r) ↔
      VobFits spuBuffer room length := by
  unfold getVobSpu VobFits
  split_ifs with hextra hextr
  · dsimp only
    rw [List.forall_mem_append, List.forall_mem_cons, List.forall_mem_singleton]
    have hfirst : InRoom room (0, 5) := .inr (by dsimp only; omega)
    have hlog : InRoom room (0, 16) ↔ 16 ≤ room := by
      unfold InRoom
      dsimp only
      omega
    rw [and_iff_right hfirst, hlog]
    exact and_congr_right fun hlog => extradataReads_iff hroom hlog length
  all_goals
    have hfit := @vobLoop_reads_iff spuBuffer room _ (Dvb.AV_RB16_lt spuBuffer 0) hroom fuel
      ⟨0, 0, length, []⟩ ⟨Nat.zero_le _, Nat.zero_le _, hlength⟩ (by dsimp only; omega)
    rw [Follows, and_iff_right (List.forall_mem_nil _)] at hfit
    dsimp only
    rw [List.forall_mem_append, List.forall_mem_singleton, and_iff_right, hfit]
    refine .inr ?_
    dsimp only
    omega

/-! ## A pass -/

section Passes

variable (s : Assembly) (l : SpuLoop) (e : PassInput)

/-- The room for the payload of a pass, and what follows it. -/
def payloadRoom : ℕ := l.size - (l.tmpSpuBuf + payloadOffset s l e)

/-- The header is that of a packet. -/
def hasHeader : Prop := subPeek32 ((headed s l e).spuBuffer.source 0) = AML_PARSER_SYNC_WORD

/-- In the first pass of a call, the header has room behind the rest.  In a later one the rest has
room, and 20 bytes behind it.  The packet has room, with four bytes more if it is not a VOB packet,
and what follows a VOB packet is in the buffer as far as it is read. -/
def PassFits : Prop :=
  if isVob l.currentType then
    l.tmpSpuBuf + s.mRestLen ≤ l.size ∧ (hasHeader s l e → headerLen s l e ≤ s.mRestLen →
      if isVob (headerType s l e) then
        l.tmpSpuBuf + s.mRestLen + 20 ≤ l.size ∧
          VobFits (payload s l e) (payloadRoom s l e) (headerLen s l e)
      else l.tmpSpuBuf + headerLen s l e + 24 ≤ l.size)
  else
    0 ≤ s.mRestLen ∧ s.mRestLen + 20 ≤ l.size ∧ (hasHeader s l e →
      headerLen s l e + 20 ≤ l.size →
        if isVob (headerType s l e) then
          VobFits (payload s l e) (payloadRoom s l e) (headerLen s l e)
        else headerLen s l e + 24 ≤ l.size)

/-- A call in its loop: a later pass has more than 30 bytes of rest, the first one has the whole
buffer. -/
structure GoodLoop : Prop where
  size_lt : l.size < 2 ^ 31
  later : isVob l.currentType → 30 < s.mRestLen ∧ l.sizeflag = s.mRestLen
  first : ¬ isVob l.currentType → l.tmpSpuBuf = 0 ∧ l.sizeflag = l.size ∧ 30 < l.size ∧
    s.mRestLen < l.size

variable {s l}

/-- The writes in front of the header. -/
theorem headWrites_iff (h : GoodLoop s l) : (∀ a ∈ headWrites s l, InBuffer l.size a) ↔
    if isVob l.currentType then l.tmpSpuBuf + s.mRestLen ≤ l.size
    else 0 ≤ s.mRestLen ∧ s.mRestLen + 20 ≤ l.size := by
  unfold headWrites keepsHeader InBuffer HEADER_SIZE
  by_cases hvob : isVob l.currentType
  · obtain ⟨hrest, -⟩ := h.later hvob
    have hpos : 0 < s.mRestLen := by omega
    simp only [hvob, hpos, if_true, decide_true, Bool.and_true, List.append_nil,
      List.forall_mem_singleton]
    omega
  · obtain ⟨htmp, -, -, hlt⟩ := h.first hvob
    simp only [hvob, htmp]
    by_cases hpos : 0 < s.mRestLen
    · simp [hpos]
      omega
    · simp [hpos]

@[simp] theorem headed_size : (headed s l e).size = l.size := by
  cases hkeep : keepsHeader s l with
  | false => simp [headed, hkeep]
  | true => simp [headed, hkeep]

/-- What is left of the buffer behind the header. -/
theorem headed_sizeflag (h : GoodLoop s l) : ((headed s l e).sizeflag : ℤ) =
    if isVob l.currentType then s.mRestLen else (l.size : ℤ) - 20 := by
  unfold headed keepsHeader HEADER_SIZE
  by_cases hvob : isVob l.currentType
  · obtain ⟨hrest, hflag⟩ := h.later hvob
    have hpos : 0 < s.mRestLen := by omega
    simp only [hvob, hpos, decide_true, Bool.and_true, if_true]
    exact hflag
  · obtain ⟨-, hflag, hsize, -⟩ := h.first hvob
    simp only [hvob, Bool.false_and, Bool.false_eq_true, if_false]
    omega

/-- The bytes behind the header of a VOB packet: in the first pass they fill the buffer, in a later
one there are 16, and they are put 20 bytes behind the rest. -/
theorem body_iff (h : GoodLoop s l) (hhead : ∀ a ∈ headWrites s l, InBuffer l.size a) :
    InBuffer l.size (l.tmpSpuBuf + restBehind s + HEADER_SIZE, bodySize s l e) ↔
      (isVob l.currentType → l.tmpSpuBuf + s.mRestLen + 20 ≤ l.size) := by
  have hflag := headed_sizeflag e h
  have hsize := h.size_lt
  rw [headWrites_iff h] at hhead
  unfold InBuffer bodySize restBehind HEADER_SIZE
  by_cases hvob : isVob l.currentType
  · obtain ⟨hrest, -⟩ := h.later hvob
    have hne : s.mRestLen ≠ 0 := by omega
    rw [if_pos hvob] at hflag hhead
    simp only [hflag, hvob, hne, ne_eq, not_false_eq_true, if_true, true_imp_iff]
    have hbody : (s.mRestLen - (s.mRestLen - 16)) % 2 ^ 32 = 16 := by omega
    rw [hbody]
    omega
  · obtain ⟨htmp, -, hlong, hlt⟩ := h.first hvob
    rw [if_neg hvob] at hflag hhead
    refine iff_of_true (.inr ?_) fun hyes => absurd hyes hvob
    rw [hflag, htmp]
    split_ifs with hne
    · have hbody : ((l.size : ℤ) - 20 - (s.mRestLen - 16)) % 2 ^ 32 =
          l.size - 20 - (s.mRestLen - 16) := by
        omega
      dsimp only
      omega
    · have hbody : ((l.size : ℤ) - 20 - 0) % 2 ^ 32 = l.size - 20 := by omega
      dsimp only
      omega

/-- The bytes that are asked for behind a header that is not taken. -/
theorem skipped_inBuffer (h : GoodLoop s l) (hhead : ∀ a ∈ headWrites s l, InBuffer l.size a) :
    InBuffer l.size (l.tmpSpuBuf, (headed s l e).sizeflag) := by
  have hflag := headed_sizeflag e h
  rw [headWrites_iff h] at hhead
  unfold InBuffer
  by_cases hvob : isVob l.currentType
  · rw [if_pos hvob] at hflag hhead
    dsimp only
    omega
  · obtain ⟨htmp, -⟩ := h.first hvob
    rw [if_neg hvob] at hflag hhead
    dsimp only
    omega

/-- A payload begins in front of the end of the buffer. -/
theorem payload_inBuffer (h : GoodLoop s l) (hhead : ∀ a ∈ headWrites s l, InBuffer l.size a) :
    l.tmpSpuBuf + payloadOffset s l e + 5 ≤ l.size := by
  have hoffset : payloadOffset s l e ≤ 24 := by
    unfold payloadOffset
    split_ifs
    · exact le_rfl
    · exact Nat.le_add_right 20 4
  rw [headWrites_iff h] at hhead
  by_cases hvob : isVob l.currentType
  · obtain ⟨hrest, -⟩ := h.later hvob
    rw [if_pos hvob] at hhead
    omega
  · obtain ⟨htmp, -, hlong, -⟩ := h.first hvob
    omega

/-- The reads of `getVobSpu` in a pass. -/
theorem payload_reads_iff (h : GoodLoop s l) (hhead : ∀ a ∈ headWrites s l, InBuffer l.size a) :
    (∀ a ∈ (getVobSpu (payload s l e) (l.size + 5) e.pixels (headerLen s l e)).reads.map
        fun r => (((l.tmpSpuBuf + payloadOffset s l e + r.1 : ℕ) : ℤ), (r.2 : ℤ)),
      InBuffer l.size a) ↔ VobFits (payload s l e) (payloadRoom s l e) (headerLen s l e) := by
  have hstart := payload_inBuffer e h hhead
  have hsize := h.size_lt
  have hroom : payloadRoom s l e + (l.tmpSpuBuf + payloadOffset s l e) = l.size :=
    Nat.sub_add_cancel (by omega)
  have hreads := @getVobSpu_reads_iff (payload s l e) (payloadRoom s l e) (l.size + 5)
    (headerLen s l e) e.pixels (by omega) (by omega) (subPeek32_lt _) (by omega)
  rw [← hreads, List.forall_mem_map]
  refine forall₂_congr fun r _ => ?_
  unfold InBuffer InRoom
  dsimp only
  omega

/-- The condition for a pass, with the bytes that it takes for the rest of the buffer. -/
theorem passFits_iff (h : GoodLoop s l) : PassFits s l e ↔
    (∀ a ∈ headWrites s l, InBuffer l.size a) ∧ (hasHeader s l e →
      headerLen s l e ≤ (headed s l e).sizeflag →
        if isVob (headerType s l e) then
          (isVob l.currentType → l.tmpSpuBuf + s.mRestLen + 20 ≤ l.size) ∧
            VobFits (payload s l e) (payloadRoom s l e) (headerLen s l e)
        else l.tmpSpuBuf + headerLen s l e + 24 ≤ l.size) := by
  have hflag := headed_sizeflag e h
  rw [headWrites_iff h]
  unfold PassFits
  by_cases hvob : isVob l.currentType
  · rw [if_pos hvob] at hflag
    have hlen : headerLen s l e ≤ (headed s l e).sizeflag ↔
        (headerLen s l e : ℤ) ≤ s.mRestLen := by
      omega
    simp only [hvob, if_true, true_imp_iff, hlen]
  · obtain ⟨htmp, -, hlong, -⟩ := h.first hvob
    rw [if_neg hvob] at hflag
    have hlen : headerLen s l e ≤ (headed s l e).sizeflag ↔ headerLen s l e + 20 ≤ l.size := by
      omega
    simp only [hvob, if_false, false_imp_iff, true_and, hlen, htmp, zero_add, and_assoc,
      Bool.false_eq_true]

/-- **A pass** writes and reads inside the buffer exactly if what it meets fits. -/
theorem pass_iff (h : GoodLoop s l) : ((∀ a ∈ (pass s l e).writes, InBuffer l.size a) ∧
    ∀ a ∈ (pass s l e).reads, InBuffer l.size a) ↔ PassFits s l e := by
  rw [passFits_iff e h]
  unfold pass hasHeader
  dsimp only
  by_cases hsync : subPeek32 ((headed s l e).spuBuffer.source 0) = AML_PARSER_SYNC_WORD
  · rw [if_neg (not_not.mpr hsync)]
    by_cases hlen : (headed s l e).sizeflag < headerLen s l e
    · rw [if_pos hlen]
      dsimp only
      rw [List.forall_mem_append, List.forall_mem_singleton, and_iff_left (List.forall_mem_nil _)]
      refine and_congr_right fun hhead => ?_
      exact iff_of_true (skipped_inBuffer e h hhead) fun _ hle => absurd hlen (not_lt.mpr hle)
    · rw [if_neg hlen]
      simp only [hsync, not_lt.mp hlen, true_imp_iff]
      by_cases hvob : isVob (headerType s l e)
      · rw [if_pos hvob, if_pos hvob]
        dsimp only
        rw [List.forall_mem_append, List.forall_mem_singleton, and_assoc]
        refine and_congr_right fun hhead => ?_
        exact and_congr (body_iff e h hhead) (payload_reads_iff e h hhead)
      · rw [if_neg hvob, if_neg hvob]
        dsimp only
        rw [List.forall_mem_append, List.forall_mem_singleton, and_iff_left (List.forall_mem_nil _)]
        refine and_congr_right fun _ => ?_
        unfold InBuffer HEADER_SIZE
        dsimp only
        omega
  · rw [if_pos hsync]
    dsimp only
    rw [List.forall_mem_append, List.forall_mem_singleton, and_iff_left (List.forall_mem_nil _)]
    refine and_congr_right fun hhead => ?_
    exact iff_of_true (skipped_inBuffer e h hhead) fun hyes => absurd hyes hsync

/-- A pass that follows finds the rest that it decodes. -/
theorem goodLoop_keepRest (hsize : l.size < 2 ^ 31) (hvob : isVob l.currentType) (left start : ℤ) :
    ∀ l' ∈ (keepRest s l e left start).loop, GoodLoop (keepRest s l e left start) l' := by
  by_cases hnone : left ≤ 0
  · rw [keepRest, if_pos hnone]
    exact fun l' hl' => by cases hl'
  · rw [keepRest, if_neg hnone]
    by_cases halloc : e.restbuf
    · rw [if_neg (not_not.mpr halloc)]
      generalize (fun k : ℕ => if k < left then l.spuBuffer (start + k) else e.behind k) = mRestbuf
      dsimp only
      split_ifs with hheader hlong
      · rintro l' ⟨⟩
        refine ⟨hsize, fun _ => ⟨hlong, ?_⟩, fun hfirst => absurd hvob hfirst⟩
        exact Int.toNat_of_nonneg (not_le.mp hnone).le
      · exact fun l' hl' => by cases hl'
      · exact fun l' hl' => by cases hl'
    · rw [if_pos halloc]
      exact fun l' hl' => by cases hl'

theorem goodLoop_pass (h : GoodLoop s l) :
    ∀ l' ∈ (pass s l e).next.loop, GoodLoop (pass s l e).next l' := by
  have hsize := h.size_lt
  unfold pass
  dsimp only
  split_ifs with hsync hlen hvob
  · exact fun l' hl' => by cases hl'
  · exact fun l' hl' => by cases hl'
  · exact goodLoop_keepRest e (by rw [headed_size]; exact hsize) hvob _ _
  · exact fun l' hl' => by cases hl'

end Passes

/-- What a pass meets fits; a call writes nothing in front of its first pass. -/
def Fits (s : Assembly) : AssemblyEvent → Prop
  | .call _ _ => True
  | .pass e => ∀ l ∈ s.loop, PassFits s l e

/-- One event, of a parser whose loop is good. -/
theorem assemble_iff {s : Assembly} (h : ∀ l ∈ s.loop, GoodLoop s l) (e : AssemblyEvent) :
    ((assemble s e).isSome ↔ Fits s e) ∧ ∀ s' ∈ assemble s e, ∀ l ∈ s'.loop, GoodLoop s' l := by
  cases e with
  | call available memory =>
    rw [assemble]
    split_ifs with hcall
    · refine ⟨iff_of_true rfl trivial, ?_⟩
      rintro s' ⟨⟩ l ⟨⟩
      obtain ⟨-, havail, hlong, hlt⟩ := hcall
      have hsize := Int.toNat_of_nonneg (show 0 ≤ available + s.mRestLen by omega)
      have htype : ¬ isVob 0 := by decide
      refine ⟨?_, fun hvob => absurd hvob htype, fun _ => ⟨rfl, rfl, ?_, ?_⟩⟩
      · dsimp only
        omega
      · dsimp only
        omega
      · dsimp only
        omega
    · refine ⟨iff_of_true rfl trivial, ?_⟩
      rintro s' ⟨⟩
      exact h
  | pass e =>
    rw [assemble, Fits]
    cases hloop : s.loop with
    | none =>
      refine ⟨iff_of_true rfl (fun l hl => by cases hl), ?_⟩
      rintro s' ⟨⟩
      exact h
    | some l =>
      have hgood := h l hloop
      have hall : (∀ l' ∈ some l, PassFits s l' e) ↔ PassFits s l e := by simp
      have hfits := (pass_iff e hgood).trans hall.symm
      dsimp only
      split_ifs with hin
      · refine ⟨iff_of_true rfl (hfits.mp hin), ?_⟩
        rintro s' ⟨⟩
        exact goodLoop_pass e hgood
      · refine ⟨iff_of_false Bool.false_ne_true (mt hfits.mpr hin), fun s' hs' => ?_⟩
        cases hs'

/-- **The assembly.**  In a run of calls and passes nothing is written or read outside the buffer
exactly if what every pass meets fits. -/
theorem assembly_iff (es : List AssemblyEvent) :
    (Lockstep.run assemble startAssembly es).isSome ↔
      Lockstep.Meets assemble Fits startAssembly es :=
  Lockstep.isSome_run_iff (fun _ e h => assemble_iff h e) (fun l hl => by cases hl) es

/-- The first packet of an SPU of 100 bytes, with a payload of 16 bytes. -/
def splitSpu : PassInput where
  header := [0x41, 0x4d, 0x4c, 0x55, 0xaa, 1, 0x70, 0, 0, 0, 0, 16, 0, 0, 0, 0, 0, 0, 0, 0]
  body := [0, 100, 0, 50] ++ List.replicate 12 0
  pixels := true
  restbuf := true
  behind := fun _ => 0

/-- The second packet of an SPU is looked for behind the buffer while it is not available. -/
theorem not_isSome_splitSpu :
    ¬ ∀ es : List AssemblyEvent, (Lockstep.run assemble startAssembly es).isSome := by
  intro hall
  have hrun := hall [.call 36 fun _ => 0, .pass splitSpu]
  revert hrun
  decide

end Dvd
end AmlSubtitle
