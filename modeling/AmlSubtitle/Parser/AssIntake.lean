import AmlSubtitle.Parser.AssOutput
import AmlSubtitle.Utils.StreamUtils

/-!
# `parser/AssParser.cpp`: the intake of embedded packets

`AssParser::getSpu` allocates a buffer for what its source has, reads a header of twenty bytes and
what the header announces, and copies the text of it into an item.

* `Access`: a piece of a buffer, which may reach out of it.  A length that is computed is the
  length of an allocation, or of a piece that fills its buffer.
* `getSpu`: a call, with the pieces that it reads and writes.
* `run_inside_iff`: the runs in which no piece reaches out of its buffer.

A source waits until it has all the bytes that are asked for.  `mRestbuf` is always the null
pointer: a call that has a rest to copy does not return.  The `SUBRIP` styles are not removed
(`NEED_ASS_REMOVE_STYLE` is not defined).
-/

namespace AmlSubtitle
namespace AssIntake

open Words Lines AssParser AssOutput

/-! ## The codecs -/

def AV_CODEC_ID_DVD_SUBTITLE : ℕ := 0x17000

def AV_CODEC_ID_TEXT : ℕ := 0x17002

def AV_CODEC_ID_SSA : ℕ := 0x17004

def AV_CODEC_ID_MOV_TEXT : ℕ := 0x17005

def AV_CODEC_ID_VOB_SUBTITLE : ℕ := 0x1700a

def AV_CODEC_ID_SUBRIP : ℕ := 0x17808

def AV_CODEC_ID_WEBVTT : ℕ := 0x17809

def AV_CODEC_ID_ASS : ℕ := 0x1780d

/-- A picture, of which nothing is shown here. -/
def IsPicture (currentType : ℕ) : Prop :=
  currentType = AV_CODEC_ID_DVD_SUBTITLE ∨ currentType = AV_CODEC_ID_VOB_SUBTITLE

/-- An event with sections. -/
def IsEvent (currentType : ℕ) : Prop :=
  currentType = AV_CODEC_ID_SSA ∨ currentType = AV_CODEC_ID_ASS

/-- A text, or an event. -/
def IsText (currentType : ℕ) : Prop :=
  currentType = AV_CODEC_ID_TEXT ∨ currentType = AV_CODEC_ID_SSA ∨
    currentType = AV_CODEC_ID_SUBRIP ∨ currentType = AV_CODEC_ID_ASS ∨
    currentType = AV_CODEC_ID_WEBVTT

instance : DecidablePred IsPicture := fun _ => inferInstanceAs (Decidable (_ ∨ _))

instance : DecidablePred IsEvent := fun _ => inferInstanceAs (Decidable (_ ∨ _))

instance : DecidablePred IsText := fun _ => inferInstanceAs (Decidable (_ ∨ _))

/-! ## Buffers -/

/-- A piece of a buffer: where it begins, its length, and the length of the buffer. -/
structure Access where
  first : ℤ
  length : ℤ
  size : ℤ
  deriving DecidableEq, Repr

/-- The piece is in its buffer, and its length is not negative. -/
def Access.Inside (a : Access) : Prop :=
  0 ≤ a.first ∧ 0 ≤ a.length ∧ a.first + a.length ≤ a.size

instance : DecidablePred Access.Inside := fun _ => inferInstanceAs (Decidable (_ ∧ _ ∧ _))

/-- A length that is allocated, or kept. -/
def ofLength (n : ℤ) : Access := ⟨0, n, n⟩

/-- What a buffer of zeros begins with when `n` bytes are read into it. -/
def received (n : ℕ) (source : List UInt8) : List UInt8 := (source ++ List.replicate n 0).take n

/-! ## The header -/

/-- `AML_PARSER_SYNC_WORD`. -/
def AML_PARSER_SYNC_WORD : ℤ := 0x414d4c55

/-- `MIN_HEADER_DATA_SIZE`. -/
def MIN_HEADER_DATA_SIZE : ℤ := 24

/-- The header of a packet. -/
structure Header where
  syncWord : ℤ
  currentType : ℕ
  currentLen : ℕ
  currentPts : ℤ
  deriving DecidableEq, Repr

/-- The header at the start of `spuBufPiece`. -/
def Header.parse (spuBufPiece : List UInt8) : Header where
  syncWord := subPeekAsInt32 spuBufPiece
  currentType := asUnsigned 32 (subPeekAsInt32 (spuBufPiece.drop 4)) &&& 0x00FFFFFF
  currentLen := asUnsigned 32 (subPeekAsInt32 (spuBufPiece.drop 8))
  currentPts := subPeekAsInt64 (spuBufPiece.drop 12)

/-- The duration behind it. -/
def durationPts (spuBufPiece : List UInt8) : ℕ :=
  asUnsigned 32 (subPeekAsInt32 (spuBufPiece.drop 20))

/-- `buffer_size` of the item of a packet. -/
def Header.buffer_size (h : Header) : ℕ := asUnsigned 32 (h.currentLen + 1)

/-! ## The items -/

/-- The item of a packet. -/
def fillItem (type : SubtitleType) (h : Header) (durationPts : ℕ) (data : List UInt8)
    (spu : Spu) : Spu :=
  { spu with
    subtitleType := type
    bufferSize := h.buffer_size
    spuData := some data
    pts := h.currentPts
    mDelay := if durationPts ≠ 0 then durationPts + h.currentPts else durationPts }

/-- What the cases of the switch touch, what they return, and the item. -/
structure Taken where
  trace : List Access
  ret : ℤ
  spu : Spu

/-- The pieces that are touched by a copy of `n` bytes from `rdOffset` on. -/
def copyItem (size : ℤ) (h : Header) (rdOffset n : ℤ) : List Access :=
  [⟨rdOffset, n, size⟩, ⟨0, n, h.buffer_size⟩]

/-- The payload of a packet. -/
def payload (h : Header) (spuBufPiece : List UInt8) : List UInt8 :=
  (spuBufPiece.drop 24).take h.currentLen

/-- The case of the texts. -/
def takeText (size : ℤ) (h : Header) (spuBufPiece : List UInt8) (spu : Spu) : Taken :=
  let data := payload h spuBufPiece ++ [0]
  let spu := fillItem .ssa h (durationPts spuBufPiece) data spu
  let trace := ⟨20, 4, size⟩ :: ofLength h.buffer_size :: copyItem size h 24 h.currentLen
  if IsEvent h.currentType then
    let (ret, spu) := getAssSpu data spu
    -- The event is read up to its null; what is shown of it is copied over it.
    ⟨trace ++ ⟨0, (string data).length + 1, h.buffer_size⟩ ::
      (if ret = 0 then [⟨0, (spu.spuData.getD []).length, h.buffer_size⟩] else []), ret, spu⟩
  else ⟨trace, 0, spu⟩

/-- The case of `AV_CODEC_ID_MOV_TEXT`: two bytes of the payload are its length. -/
def takeMovText (size : ℤ) (h : Header) (spuBufPiece : List UInt8) (spu : Spu) : Taken :=
  let currentLen := asUnsigned 32 (h.currentLen - 2)
  let data := (spuBufPiece.drop 26).take currentLen
  let spu := fillItem .tmdTxt h (durationPts spuBufPiece)
    (data ++ List.replicate (h.buffer_size - data.length) 0) spu
  let trace := [⟨20, 4, size⟩, ofLength h.buffer_size]
  if currentLen = 0 then ⟨trace, -1, spu⟩
  else ⟨trace ++ copyItem size h 26 currentLen, 0, spu⟩

/-- The switch, but for the pictures. -/
def takeItem (size : ℤ) (h : Header) (spuBufPiece : List UInt8) (spu : Spu) : Taken :=
  if IsText h.currentType then takeText size h spuBufPiece spu
  else if h.currentType = AV_CODEC_ID_MOV_TEXT then takeMovText size h spuBufPiece spu
  else ⟨[], -1, spu⟩

/-! ## Calls -/

def SUB_INIT : ℕ := 0

def SUB_PLAYING : ℕ := 1

def SUB_STOP : ℕ := 2

/-- What the calls leave to each other. -/
structure Parser where
  mState : ℕ
  mRestLen : ℤ
  deriving DecidableEq, Repr

/-- What a call meets: the number of bytes that the source has, the bytes that it gives, and the
item that is to be filled. -/
structure Call where
  available : ℕ
  source : List UInt8
  spu : Spu

/-- What a call touches, what it returns if it does, the item that it adds, and the parser behind
it. -/
structure Intake where
  trace : List Access
  ret : Option ℤ
  item : Option Spu
  next : Parser

/-- The loop of `getSpu`, with `size` bytes allocated and no rest to copy. -/
def takePacket (size : ℤ) (source : List UInt8) (spu : Spu) (s : Parser) : Intake :=
  let h := Header.parse (received 20 source)
  let head : List Access := [⟨s.mRestLen, 20, size⟩, ⟨0, 20, size⟩]
  let dataSize := size - 20
  if h.syncWord ≠ AML_PARSER_SYNC_WORD ∨ asUnsigned 32 dataSize < h.currentLen then
    ⟨head ++ [⟨0, dataSize, size⟩], some (-1), none, s⟩
  else if IsPicture h.currentType then
    let rest := head ++ [⟨s.mRestLen + 20, dataSize - s.mRestLen, size⟩, ofLength dataSize]
    if h.currentType = AV_CODEC_ID_VOB_SUBTITLE then
      ⟨rest ++ [⟨20, 4, size⟩, ofLength (dataSize - 4)], some (-1), none,
        { s with mRestLen := dataSize - 4 }⟩
    else ⟨rest, some (-1), none, { s with mRestLen := dataSize }⟩
  else
    let len := asUnsigned 32 (h.currentLen + 4)
    let taken := takeItem size h (received (20 + len) source) spu
    ⟨head ++ ⟨20, len, size⟩ :: ofLength (asSigned 32 (dataSize - len)) :: taken.trace,
      some taken.ret, if taken.ret < 0 then none else some taken.spu, { s with mRestLen := 0 }⟩

/-- `getSpu` behind the allocation of `dataSize` bytes. -/
def takeData (dataSize : ℤ) (call : Call) (s : Parser) : Intake :=
  if dataSize < 0 then ⟨[ofLength dataSize], none, none, s⟩
  else if dataSize < MIN_HEADER_DATA_SIZE then ⟨[ofLength dataSize], some (-1), none, s⟩
  else if s.mRestLen ≠ 0 then ⟨[ofLength dataSize, ⟨0, s.mRestLen, 0⟩], none, none, s⟩
  else
    let packet := takePacket dataSize call.source call.spu s
    { packet with trace := ofLength dataSize :: packet.trace }

/-- The parser has begun to play. -/
def Parser.play (s : Parser) : Parser :=
  { s with mState := if s.mState = SUB_INIT then SUB_PLAYING else s.mState }

/-- `getSpu`. -/
def getSpu (s : Parser) (call : Call) : Intake :=
  if s.mState = SUB_STOP then ⟨[], some 0, none, s⟩
  else if asSigned 32 call.available ≤ 0 then ⟨[], some (-1), none, s.play⟩
  else takeData (asSigned 32 (asSigned 32 call.available + s.mRestLen)) call s.play

/-- Calls one after the other. -/
def run : Parser → List Call → List Intake
  | _, [] => []
  | s, call :: calls => getSpu s call :: run (getSpu s call).next calls

/-! ## Packets that fit -/

/-- The bytes that are read of a packet. -/
def taken (source : List UInt8) : List UInt8 :=
  received (24 + (Header.parse (received 20 source)).currentLen) source

/-- A packet that is taken is available as a whole, its length included where it has one, and what
is shown of an event fits in the place of it. -/
def PacketFits (size : ℤ) (source : List UInt8) : Prop :=
  let h := Header.parse (received 20 source)
  h.syncWord = AML_PARSER_SYNC_WORD → h.currentLen ≤ size - 20 → ¬ IsPicture h.currentType →
    h.currentLen + 24 ≤ size ∧ (h.currentType = AV_CODEC_ID_MOV_TEXT → 2 ≤ h.currentLen) ∧
      (IsEvent h.currentType → SecondFits (payload h (taken source)))

/-- No rest is kept where a packet is read, and the packet fits. -/
def DataFits (dataSize : ℤ) (source : List UInt8) (s : Parser) : Prop :=
  0 ≤ dataSize ∧
    (MIN_HEADER_DATA_SIZE ≤ dataSize → s.mRestLen = 0 ∧ PacketFits dataSize source)

/-- The call takes nothing, or what it takes fits. -/
def Fits (s : Parser) (call : Call) : Prop :=
  s.mState ≠ SUB_STOP → 0 < asSigned 32 call.available →
    DataFits (asSigned 32 (asSigned 32 call.available + s.mRestLen)) call.source s

/-- Every call of a run fits. -/
def AllFit : Parser → List Call → Prop
  | _, [] => True
  | s, call :: calls => Fits s call ∧ AllFit (getSpu s call).next calls

/-! ## Items -/

section Items

variable {size : ℤ} {h : Header} {spuBufPiece : List UInt8} {spu : Spu}

theorem inside_iff {first length size : ℤ} : (⟨first, length, size⟩ : Access).Inside ↔
    0 ≤ first ∧ 0 ≤ length ∧ first + length ≤ size := Iff.rfl

theorem inside_ofLength {n : ℤ} : (ofLength n).Inside ↔ 0 ≤ n := by
  constructor
  · exact fun h => h.2.1
  · intro hn
    exact ⟨le_rfl, hn, (zero_add n).le⟩

theorem buffer_size_eq (hlen : h.currentLen + 1 < 2 ^ 32) : h.buffer_size = h.currentLen + 1 := by
  unfold Header.buffer_size asUnsigned
  omega

theorem length_payload (hlen : 24 + h.currentLen ≤ spuBufPiece.length) :
    (payload h spuBufPiece).length = h.currentLen := by
  rw [payload, List.length_take, List.length_drop]
  omega

/-- What an event has copied over it. -/
theorem inside_getAssSpu (text : List UInt8) (spu : Spu) :
    ((getAssSpu (text ++ [0]) spu).1 = 0 →
      ((getAssSpu (text ++ [0]) spu).2.spuData.getD []).length ≤ (text ++ [0]).length) ↔
      SecondFits text := by
  have hcopy : SecondFits text ↔ (Accepted (string (text ++ [0])) →
      (strcpy (text ++ [0]) (shownText (string (text ++ [0])))).length ≤ (text ++ [0]).length) := by
    rw [strcpy_shownText_le_iff]
    exact Iff.rfl
  rw [hcopy]
  obtain ⟨haccepted, hreturns, hdata⟩ | ⟨hnot, hfails⟩ := getAssSpu_cases (text ++ [0]) spu
  · rw [hreturns, hdata]
    exact ⟨fun h _ => h rfl, fun h _ => h haccepted⟩
  · rw [hfails]
    exact iff_of_true (fun h => absurd h (by decide)) fun h => absurd h hnot

/-- The pieces of a text are inside where the packet is. -/
theorem inside_takeText (hsize : 24 ≤ size) (hlen : h.currentLen + 1 < 2 ^ 32)
    (hbuf : 24 + h.currentLen ≤ spuBufPiece.length) :
    (∀ a ∈ (takeText size h spuBufPiece spu).trace, a.Inside) ↔
      h.currentLen + 24 ≤ size ∧
        (IsEvent h.currentType → SecondFits (payload h spuBufPiece)) := by
  have hbuffer := buffer_size_eq hlen
  have hpayload := length_payload hbuf
  have hstring : (string (payload h spuBufPiece ++ [0])).length + 1 ≤ h.currentLen + 1 := by
    have hle := (prefix_event (payload h spuBufPiece)).length_le
    omega
  have hcopy := inside_getAssSpu (payload h spuBufPiece)
    (fillItem .ssa h (durationPts spuBufPiece) (payload h spuBufPiece ++ [0]) spu)
  rw [List.length_append, List.length_singleton, hpayload] at hcopy
  have hpieces : (∀ a ∈ ⟨20, 4, size⟩ :: ofLength h.buffer_size :: copyItem size h 24 h.currentLen,
      a.Inside) ↔ h.currentLen + 24 ≤ size := by
    simp only [copyItem, List.forall_mem_cons, inside_ofLength, inside_iff, hbuffer,
      List.not_mem_nil, IsEmpty.forall_iff, implies_true, and_true]
    constructor
    · rintro ⟨-, -, ⟨-, -, hfits⟩, -⟩
      omega
    · intro hfits
      refine ⟨?_, ?_, ?_, ?_⟩ <;> omega
  rw [takeText]
  dsimp only
  by_cases hevent : IsEvent h.currentType
  · have hread : (⟨0, (string (payload h spuBufPiece ++ [0])).length + 1, h.buffer_size⟩ :
        Access).Inside := by
      rw [hbuffer, inside_iff, zero_add]
      exact ⟨le_rfl, by positivity, by exact_mod_cast hstring⟩
    rw [if_pos hevent]
    dsimp only
    rw [List.forall_mem_append, hpieces, List.forall_mem_cons, and_iff_right hread,
      imp_iff_right hevent, ← hcopy]
    refine and_congr_right fun _ => ?_
    split_ifs with hret
    · rw [List.forall_mem_singleton, inside_iff, hbuffer, zero_add, imp_iff_right hret]
      constructor
      · exact fun h => by exact_mod_cast h.2.2
      · exact fun h => ⟨le_rfl, by positivity, by exact_mod_cast h⟩
    · exact iff_of_true (fun a ha => absurd ha List.not_mem_nil) fun h => absurd h hret
  · rw [if_neg hevent, hpieces]
    exact (and_iff_left fun h => absurd h hevent).symm

/-- Those of a `MOV_TEXT` packet are where its length is there, too. -/
theorem inside_takeMovText (hsize : 24 ≤ size) (hlen : h.currentLen + 1 < 2 ^ 32)
    (hbounded : size < 2 ^ 31) :
    (h.currentLen + 24 ≤ size ∧ ∀ a ∈ (takeMovText size h spuBufPiece spu).trace, a.Inside) ↔
      h.currentLen + 24 ≤ size ∧ 2 ≤ h.currentLen := by
  have hbuffer := buffer_size_eq hlen
  refine and_congr_right fun hfits => ?_
  have hwrap : asUnsigned 32 ((h.currentLen : ℤ) - 2) =
      if 2 ≤ h.currentLen then h.currentLen - 2 else h.currentLen + 2 ^ 32 - 2 := by
    unfold asUnsigned
    split_ifs <;> omega
  rw [takeMovText, hwrap]
  by_cases hlength : 2 ≤ h.currentLen
  · rw [if_pos hlength]
    refine iff_of_true ?_ hlength
    split_ifs
    · simp only [List.forall_mem_cons, inside_ofLength, inside_iff, hbuffer, List.not_mem_nil,
        IsEmpty.forall_iff, implies_true, and_true]
      omega
    · simp only [copyItem, List.cons_append, List.nil_append, List.forall_mem_cons,
        inside_ofLength, inside_iff, hbuffer, List.not_mem_nil, IsEmpty.forall_iff, implies_true,
        and_true]
      omega
  · rw [if_neg hlength]
    refine iff_of_false (fun hinside => ?_) hlength
    rw [if_neg (by omega)] at hinside
    have hcopied := hinside ⟨26, _, size⟩ (List.mem_append_right _ List.mem_cons_self)
    rw [inside_iff] at hcopied
    omega

/-- The pieces of an item are inside where the packet is. -/
theorem inside_takeItem (hsize : 24 ≤ size) (hlen : h.currentLen + 1 < 2 ^ 32)
    (hbounded : size < 2 ^ 31) (hbuf : 24 + h.currentLen ≤ spuBufPiece.length) :
    (h.currentLen + 24 ≤ size ∧ ∀ a ∈ (takeItem size h spuBufPiece spu).trace, a.Inside) ↔
      h.currentLen + 24 ≤ size ∧ (h.currentType = AV_CODEC_ID_MOV_TEXT → 2 ≤ h.currentLen) ∧
        (IsEvent h.currentType → SecondFits (payload h spuBufPiece)) := by
  rw [takeItem]
  by_cases htext : IsText h.currentType
  · have hmov : h.currentType ≠ AV_CODEC_ID_MOV_TEXT := by
      intro hmov
      rw [hmov] at htext
      exact absurd htext (by decide)
    rw [if_pos htext, inside_takeText hsize hlen hbuf]
    refine and_congr_right fun hfits => ?_
    rw [and_iff_right hfits]
    exact (and_iff_right fun h => absurd h hmov).symm
  · have hevent : ¬ IsEvent h.currentType := by
      rintro (hssa | hass)
      · exact htext (.inr (.inl hssa))
      · exact htext (.inr (.inr (.inr (.inl hass))))
    have hnone : IsEvent h.currentType → SecondFits (payload h spuBufPiece) :=
      fun h => absurd h hevent
    rw [if_neg htext, and_iff_left hnone]
    split_ifs with hmov
    · rw [inside_takeMovText hsize hlen hbounded, imp_iff_right hmov]
    · refine and_congr_right fun _ => ?_
      exact iff_of_true (fun a ha => absurd ha List.not_mem_nil) fun h => absurd h hmov

end Items

/-! ## Packets -/

section Packets

variable {size : ℤ} {source : List UInt8} {spu : Spu} {s : Parser}

theorem length_received (n : ℕ) : (received n source).length = n := by
  rw [received, List.length_take, List.length_append, List.length_replicate]
  omega

/-- **The pieces of a packet are inside** exactly if the packet fits. -/
theorem inside_takePacket (hsize : 24 ≤ size) (hbounded : size < 2 ^ 31) (hrest : s.mRestLen = 0) :
    (∀ a ∈ (takePacket size source spu s).trace, a.Inside) ↔ PacketFits size source := by
  have hhead : ∀ l : List Access,
      (∀ a ∈ ([⟨s.mRestLen, 20, size⟩, ⟨0, 20, size⟩] : List Access) ++ l, a.Inside) ↔
        ∀ a ∈ l, a.Inside := by
    intro l
    rw [List.forall_mem_append, and_iff_right]
    simp only [hrest, List.forall_mem_cons, inside_iff, List.not_mem_nil, IsEmpty.forall_iff,
      implies_true, and_true]
    omega
  have hdata : asUnsigned 32 (size - 20) = (size - 20).toNat := by
    unfold asUnsigned
    omega
  rw [takePacket, PacketFits]
  generalize hh : Header.parse (received 20 source) = h
  dsimp only
  by_cases hrefused : h.syncWord ≠ AML_PARSER_SYNC_WORD ∨ asUnsigned 32 (size - 20) < h.currentLen
  · rw [if_pos hrefused]
    dsimp only
    rw [hhead]
    refine iff_of_true ?_ fun hsync hlen _ => ?_
    · simp only [List.forall_mem_cons, inside_iff, List.not_mem_nil, IsEmpty.forall_iff,
        implies_true, and_true]
      omega
    · rcases hrefused with hsync' | hlen'
      · exact absurd hsync hsync'
      · omega
  · obtain ⟨hsync, hlen⟩ := not_or.mp hrefused
    have hle : (h.currentLen : ℤ) ≤ size - 20 := by omega
    rw [if_neg hrefused, imp_iff_right (not_not.mp hsync), imp_iff_right hle]
    by_cases hpicture : IsPicture h.currentType
    · rw [if_pos hpicture]
      refine iff_of_true ?_ fun hno => absurd hpicture hno
      split_ifs
      · dsimp only
        rw [List.append_assoc, hhead]
        simp only [hrest, List.cons_append, List.nil_append, List.forall_mem_cons, inside_iff,
          inside_ofLength, List.not_mem_nil, IsEmpty.forall_iff, implies_true, and_true]
        omega
      · dsimp only
        rw [hhead]
        simp only [hrest, List.forall_mem_cons, inside_iff, inside_ofLength, List.not_mem_nil,
          IsEmpty.forall_iff, implies_true, and_true]
        omega
    · have hwrap : asUnsigned 32 ((h.currentLen : ℤ) + 4) = h.currentLen + 4 := by
        unfold asUnsigned
        omega
      have hleft : asSigned 32 (size - 20 - (h.currentLen + 4 : ℕ)) =
          size - 20 - (h.currentLen + 4 : ℕ) :=
        asSigned_eq (by omega) (by omega)
      rw [if_neg hpicture, imp_iff_right hpicture, hwrap, hleft]
      dsimp only
      rw [hhead, List.forall_mem_cons, List.forall_mem_cons, inside_iff, inside_ofLength,
        show 20 + (h.currentLen + 4) = 24 + h.currentLen by omega]
      have htaken : taken source = received (24 + h.currentLen) source := by rw [taken, hh]
      rw [htaken, ← inside_takeItem hsize (by omega) hbounded (length_received _).ge]
      constructor
      · rintro ⟨⟨-, -, hfits⟩, -, hitem⟩
        exact ⟨by omega, hitem⟩
      · rintro ⟨hfits, hitem⟩
        exact ⟨⟨by omega, by omega, by omega⟩, by omega, hitem⟩

end Packets

/-! ## Calls that fit -/

section Calls

theorem inside_takeData {dataSize : ℤ} {call : Call} {s : Parser} (hbounded : dataSize < 2 ^ 31) :
    (∀ a ∈ (takeData dataSize call s).trace, a.Inside) ↔ DataFits dataSize call.source s := by
  rw [takeData, DataFits]
  by_cases hnegative : dataSize < 0
  · rw [if_pos hnegative, List.forall_mem_singleton, inside_ofLength]
    exact iff_of_false (not_le.mpr hnegative) fun h => absurd h.1 (not_le.mpr hnegative)
  have hsize := not_lt.mp hnegative
  rw [if_neg hnegative, and_iff_right hsize]
  by_cases hshort : dataSize < MIN_HEADER_DATA_SIZE
  · rw [if_pos hshort, List.forall_mem_singleton, inside_ofLength]
    exact iff_of_true hsize fun h => absurd h (not_le.mpr hshort)
  rw [if_neg hshort, imp_iff_right (not_lt.mp hshort)]
  by_cases hrest : s.mRestLen = 0
  · rw [if_neg (not_not.mpr hrest), and_iff_right hrest]
    dsimp only
    rw [List.forall_mem_cons, inside_ofLength, and_iff_right hsize]
    exact inside_takePacket (not_lt.mp hshort) hbounded hrest
  · rw [if_pos hrest]
    refine iff_of_false (fun hinside => ?_) fun h => hrest h.1
    have hcopied := hinside ⟨0, s.mRestLen, 0⟩ (List.mem_cons_of_mem _ List.mem_cons_self)
    rw [inside_iff] at hcopied
    omega

theorem dataFits_play {dataSize : ℤ} {source : List UInt8} {s : Parser} :
    DataFits dataSize source s.play ↔ DataFits dataSize source s := Iff.rfl

/-- **The pieces of a call are inside** exactly if the call fits. -/
theorem inside_getSpu (s : Parser) (call : Call) :
    (∀ a ∈ (getSpu s call).trace, a.Inside) ↔ Fits s call := by
  have hnone : ∀ a ∈ ([] : List Access), a.Inside := fun a ha => absurd ha List.not_mem_nil
  have hbounded : 2 * asSigned 32 (asSigned 32 call.available + s.mRestLen) < 2 ^ 32 :=
    asSigned_lt 31 _
  rw [getSpu, Fits]
  by_cases hstop : s.mState = SUB_STOP
  · rw [if_pos hstop]
    exact iff_of_true hnone fun h => absurd hstop h
  rw [if_neg hstop, imp_iff_right hstop]
  by_cases havailable : asSigned 32 call.available ≤ 0
  · rw [if_pos havailable]
    exact iff_of_true hnone fun h => absurd h (not_lt.mpr havailable)
  rw [if_neg havailable, imp_iff_right (not_le.mp havailable), inside_takeData (by omega),
    dataFits_play]

/-- **The intake**: in a run nothing is read or written outside the buffers, and no length is
negative, exactly if every call fits. -/
theorem run_inside_iff (s : Parser) (calls : List Call) :
    (∀ intake ∈ run s calls, ∀ a ∈ intake.trace, a.Inside) ↔ AllFit s calls := by
  induction calls generalizing s with
  | nil => exact iff_of_true (fun intake h => absurd h List.not_mem_nil) trivial
  | cons call calls ih =>
    rw [run, AllFit, List.forall_mem_cons, inside_getSpu, ih]

/-- A `SUBRIP` packet with one letter, of whose 25 bytes the source has 24. -/
def oneLetter : Call where
  available := 24
  source := [0x41, 0x4d, 0x4c, 0x55, 0xaa, 0x01, 0x78, 0x08, 0, 0, 0, 1] ++
    List.replicate 12 0 ++ [65]
  spu := ⟨0, 0, true, 0, false, false, false, 0, 0, none, .ssa⟩

theorem not_run_inside : ¬ ∀ (calls : List Call), ∀ intake ∈ run ⟨SUB_INIT, 0⟩ calls,
    ∀ a ∈ intake.trace, a.Inside := by
  intro h
  exact absurd (h [oneLetter]) (by decide +kernel)

end Calls

end AssIntake
end AmlSubtitle
