import AmlSubtitle.Parser.PgsEpoch
import AmlSubtitle.Utils.StreamUtils

/-!
# PGS packets and their time stamps

A packet of the player has a header with a time stamp of 64 bits and some segments.
`softDemuxParser` puts a header of the disc format in front of each segment, which
`decode` reads again.

* `Packet.segments` are the segments that are decoded for a packet, and
  `foldlM_softDemuxParser` is that packet after packet no others are.
* `DisplaySet` is a display set whose composition is in a packet, and which ends there or in
  a packet behind it.
* `carriesPts_iff`: its items have the time stamp of the packet if that fits the `int` that
  `decode` reads: the header of a segment has 32 bits for it.
-/

namespace AmlSubtitle
namespace Pgs

open Words

/-! ## Packets -/

/-- `bytestream_get_be32`. -/
def bytestreamGetBe32 (buf : Source) (i : ℕ) : ℕ :=
  (buf i).toNat * 2 ^ 24 + (buf (i + 1)).toNat * 2 ^ 16 + (buf (i + 2)).toNat * 2 ^ 8 +
    (buf (i + 3)).toNat

/-- `OSD_HALF_SIZE`. -/
def OSD_HALF_SIZE : ℕ := 1920 * 1280 / 8

/-- A segment with the header that `softDemuxParser` makes for it. -/
def packetData (pts : ℕ) (packetType : UInt8) (bytes : List UInt8) : List UInt8 :=
  [80, 71] ++ [UInt8.ofNat (pts / 2 ^ 24), UInt8.ofNat (pts / 2 ^ 16), UInt8.ofNat (pts / 2 ^ 8),
    UInt8.ofNat pts] ++ [0, 0, 0, 0] ++ [packetType] ++
    [UInt8.ofNat (bytes.length / 256), UInt8.ofNat bytes.length] ++ bytes

/-- The loop over the data of a packet: the types of the segments, and their bytes.  Each takes
three bytes at least, so that the length of the data is enough fuel. -/
def splitData (data : List UInt8) : ℕ → ℕ → List (UInt8 × List UInt8)
  | 0, _ => []
  | fuel + 1, pos =>
    if pos < data.length then
      let packetType := data.getD pos 0
      let packetLen := bytestreamGetBe16 (sourceOf data) (pos + 1)
      if packetLen = 0 ∧ packetType ≠ 0x80 then []
      else if data.length < pos + 3 + packetLen then []
      else if OSD_HALF_SIZE * 4 < 13 + packetLen then []
      else
        (packetType, (data.drop (pos + 3)).take packetLen) ::
          splitData data fuel (pos + 3 + packetLen)
    else []

/-- What `decode` reads of the header of a segment. -/
def readSegment (packet : Source) : Segment where
  pts := asSigned 32 (bytestreamGetBe32 packet 2)
  type := bytestreamGetByte packet 10
  length := bytestreamGetBe16 packet 11
  buf := fun i => packet (13 + i)

/-- A packet from the sync byte on, and the memory behind the data of each segment. -/
structure Packet where
  source : List UInt8
  behind : ℕ → Source

/-- The length of the data, as the header has it. -/
def Packet.dataLen (packet : Packet) : ℕ := subPeekAsUint32 ((packet.source.take 19).drop 3)

/-- The time stamp in the header. -/
def Packet.pts (packet : Packet) : ℕ := subPeekAsUint64 ((packet.source.take 19).drop 7)

/-- The segments that are decoded for a packet: none without a whole header, a time stamp and
the data. -/
def Packet.segments (packet : Packet) : List Segment :=
  let data := (packet.source.drop 19).take packet.dataLen
  if (packet.source.take 19).length ≠ 19 then []
  else if packet.pts = 0 then []
  else if data.length ≠ packet.dataLen then []
  else
    (splitData data data.length 0).mapIdx fun k segment =>
      readSegment (rleSource (packetData packet.pts segment.1 segment.2) (packet.behind k))

/-- `softDemuxParser`. -/
def PgsParser.softDemuxParser (parser : PgsParser) (packet : Packet) : Option PgsParser :=
  parser.decodeAll packet.segments

/-- The packets one after another decode their segments one after another. -/
theorem foldlM_softDemuxParser (parser : PgsParser) (packets : List Packet) :
    packets.foldlM PgsParser.softDemuxParser parser =
      parser.decodeAll (packets.flatMap Packet.segments) := by
  induction packets generalizing parser with
  | nil => rfl
  | cons packet packets ih =>
    rw [List.foldlM_cons, List.flatMap_cons, decodeAll_append]
    exact Option.bind_congr fun parser' _ => ih parser'

/-- **A display set**: the composition `first` in a packet, the segments `mid` up to its end in
this packet or those after it. -/
structure DisplaySet (packet : Packet) (after : List Packet) (first : Segment)
    (mid : List Segment) : Prop where
  type_first : first.type = PRESENTATION_COMPOSITION_SEGMENT
  type_mid : ∀ segment ∈ mid, segment.type ≠ PRESENTATION_COMPOSITION_SEGMENT
  segments : ∃ before rest last, last.type = END_DISPLAY_SEGMENT ∧
    packet.segments ++ after.flatMap Packet.segments = before ++ first :: mid ++ last :: rest ∧
    before.length < packet.segments.length

/-- **The time stamp is carried**: each item that is posted for a display set of a packet with
this time stamp has it. -/
def CarriesPts (pts : UInt64) : Prop :=
  ∀ parser packet after first mid parser', packet.pts = pts.toNat →
    DisplaySet packet after first mid →
    PgsParser.decodeAll parser (first :: mid) = some parser' →
    ∀ memory mPreviousObjectNum items,
      decodedItems parser'.mPgsContext memory mPreviousObjectNum = some items →
        ∀ item ∈ items, item.pts = pts.toNat

/-! ## The time stamp of a context -/

section Pts

variable {parser parser' : PgsParser} {segment : Segment} {segments : List Segment}

theorem pts_compose (buf : Source) (bufSize : ℕ) (p : PGSSubPresentation) :
    (compose buf bufSize p).presentation.pts = p.pts := by
  have hrefs : ∀ n i pos (p : PGSSubPresentation),
      (readRefs buf bufSize n i pos p).presentation.pts = p.pts := by
    intro n
    induction n with
    | zero => exact fun _ _ _ => rfl
    | succ n ih =>
      intro i pos p
      unfold readRefs
      dsimp only
      split_ifs
      · rfl
      · rfl
      · exact ih _ _ _
  unfold compose
  dsimp only
  split_ifs
  · rfl
  · exact hrefs _ _ _ _

/-- Only a composition has the time stamp of its segment. -/
theorem pts_decode (h : parser.decode segment = some parser') :
    parser'.mPgsContext.presentation.pts =
      if segment.type = PRESENTATION_COMPOSITION_SEGMENT then segment.pts
      else parser.mPgsContext.presentation.pts := by
  by_cases hcomposition : segment.type = PRESENTATION_COMPOSITION_SEGMENT
  · rw [decode_composition hcomposition] at h
    obtain rfl := Option.some_inj.mp h
    rw [if_pos hcomposition]
    exact pts_compose _ _ _
  rw [if_neg hcomposition]
  unfold PgsParser.decode at h
  dsimp only at h
  rw [if_neg hcomposition] at h
  split_ifs at h
  · obtain rfl := Option.some_inj.mp h
    exact congrArg PGSSubPresentation.pts (presentation_parsePaletteSegment _ _ _)
  · obtain ⟨parsed, hparsed, rfl⟩ := Option.map_eq_some_iff.mp h
    exact congrArg PGSSubPresentation.pts (frame_parseObjectSegment hparsed).1
  · obtain rfl := Option.some_inj.mp h
    rfl
  · obtain rfl := Option.some_inj.mp h
    rfl

theorem pts_decodeAll
    (htype : ∀ segment ∈ segments, segment.type ≠ PRESENTATION_COMPOSITION_SEGMENT)
    (h : parser.decodeAll segments = some parser') :
    parser'.mPgsContext.presentation.pts = parser.mPgsContext.presentation.pts := by
  induction segments generalizing parser with
  | nil =>
    obtain rfl := Option.some_inj.mp h
    rfl
  | cons segment segments ih =>
    rw [PgsParser.decodeAll] at h
    obtain ⟨parser'', hdecode, hrest⟩ := Option.bind_eq_some_iff.mp h
    have hpts := pts_decode hdecode
    rw [if_neg (htype segment List.mem_cons_self)] at hpts
    rw [ih (fun s hs => htype s (List.mem_cons_of_mem _ hs)) hrest, hpts]

/-- The items of a context have its time stamp. -/
theorem pts_decodedItems {ctx : PGSSubContext} {memory : ℕ → Source} {mPreviousObjectNum : ℕ}
    {items : List DecodedItem} (h : decodedItems ctx memory mPreviousObjectNum = some items) :
    ∀ item ∈ items, item.pts = ctx.presentation.pts := by
  obtain ⟨rects, -, rfl⟩ := Option.map_eq_some_iff.mp h
  intro item hitem
  rcases List.mem_append.mp hitem with hclear | hshown
  · rw [clearItems] at hclear
    split_ifs at hclear
    · obtain ⟨i, -, rfl⟩ := List.mem_map.mp hclear
      rfl
    · exact absurd hclear List.not_mem_nil
  · obtain ⟨i, -, hsome⟩ := List.mem_filterMap.mp hshown
    split at hsome
    · exact absurd hsome.symm (Option.some_ne_none _)
    · split_ifs at hsome
      obtain rfl := Option.some_inj.mp hsome
      rfl

end Pts

/-! ## The time stamp of a packet -/

section Packets

variable {packet : Packet} {segment : Segment}

/-- The header of a segment has the low 32 bits of the time stamp. -/
theorem getBe32_packetData (pts : ℕ) (packetType : UInt8) (bytes : List UInt8) (behind : Source) :
    bytestreamGetBe32 (rleSource (packetData pts packetType bytes) behind) 2 = pts % 2 ^ 32 := by
  have hlen : 13 ≤ (packetData pts packetType bytes).length := by
    simp only [packetData, List.length_append, List.length_cons, List.length_nil]
    omega
  have hbyte : ∀ i < 13, rleSource (packetData pts packetType bytes) behind i =
      (packetData pts packetType bytes).getD i 0 := fun i hi => if_pos (hi.trans_le hlen)
  rw [bytestreamGetBe32, hbyte 2 (by decide), hbyte (2 + 1) (by decide), hbyte (2 + 2) (by decide),
    hbyte (2 + 3) (by decide)]
  show (UInt8.ofNat (pts / 2 ^ 24)).toNat * 2 ^ 24 + (UInt8.ofNat (pts / 2 ^ 16)).toNat * 2 ^ 16 +
    (UInt8.ofNat (pts / 2 ^ 8)).toNat * 2 ^ 8 + (UInt8.ofNat pts).toNat = pts % 2 ^ 32
  simp only [UInt8.toNat_ofNat']
  omega

/-- **Each segment of a packet** has its time stamp, as far as an `int` goes. -/
theorem pts_segments (h : segment ∈ packet.segments) : segment.pts = asSigned 32 packet.pts := by
  rw [Packet.segments] at h
  split_ifs at h
  · exact absurd h List.not_mem_nil
  · exact absurd h List.not_mem_nil
  · exact absurd h List.not_mem_nil
  · obtain ⟨k, hk, rfl⟩ := List.mem_mapIdx.mp h
    rw [readSegment, getBe32_packetData, asSigned_mod]

/-- **The items of a display set** have the time stamp of the packet with its composition, as
far as an `int` goes. -/
theorem pts_displaySet {parser parser' : PgsParser} {after : List Packet} {first : Segment}
    {mid : List Segment} (hset : DisplaySet packet after first mid)
    (h : parser.decodeAll (first :: mid) = some parser') :
    parser'.mPgsContext.presentation.pts = asSigned 32 packet.pts := by
  rw [PgsParser.decodeAll] at h
  obtain ⟨parser'', hdecode, hrest⟩ := Option.bind_eq_some_iff.mp h
  have hpts := pts_decode hdecode
  rw [if_pos hset.type_first] at hpts
  rw [pts_decodeAll hset.type_mid hrest, hpts]
  obtain ⟨before, rest, last, -, hsegments, hlen⟩ := hset.segments
  refine pts_segments (List.mem_of_getElem? (i := before.length) ?_)
  have hget := congrArg (fun l => l[before.length]?) hsegments
  rw [List.getElem?_append_left hlen] at hget
  rw [hget, List.append_assoc, List.getElem?_append_right le_rfl, Nat.sub_self]
  rfl

/-- A packet with a composition of no objects and its end. -/
def emptySet (pts : ℕ) : Packet where
  source := [0, 0, 0] ++ beBytes 4 17 ++ beBytes 8 pts ++ [0, 0, 0, 0] ++
    ([0x16, 0, 11, 4, 0, 4, 0, 0x10, 0, 0, 0x80, 0, 0, 0] ++ [0x80, 0, 0])
  behind := fun _ _ => 0

/-- The header of the packet. -/
theorem take_emptySet (pts : ℕ) : (emptySet pts).source.take 19 =
    [0, 0, 0] ++ beBytes 4 17 ++ beBytes 8 pts ++ [0, 0, 0, 0] :=
  List.take_left' (by simp)

theorem pts_emptySet {pts : ℕ} (h : pts < 2 ^ 64) : (emptySet pts).pts = pts := by
  rw [Packet.pts, take_emptySet, List.append_assoc, List.drop_left' (by simp)]
  exact subPeekAsUint64_beBytes h _

theorem dataLen_emptySet (pts : ℕ) : (emptySet pts).dataLen = 17 := by
  have hdrop : ([0, 0, 0] ++ beBytes 4 17 ++ beBytes 8 pts ++ [0, 0, 0, 0]).drop 3 =
      beBytes 4 17 ++ (beBytes 8 pts ++ [0, 0, 0, 0]) := by
    rw [List.append_assoc, List.append_assoc]
    exact List.drop_left' rfl
  rw [Packet.dataLen, take_emptySet, hdrop]
  exact subPeekAsUint32_beBytes (by decide) _

/-- The segments of the packet. -/
theorem segments_emptySet {pts : ℕ} (h : pts < 2 ^ 64) (hpos : pts ≠ 0) :
    (emptySet pts).segments =
      [readSegment (rleSource (packetData pts 0x16 [4, 0, 4, 0, 0x10, 0, 0, 0x80, 0, 0, 0])
        fun _ => 0), readSegment (rleSource (packetData pts 0x80 []) fun _ => 0)] := by
  have hheader : ¬ ((emptySet pts).source.take 19).length ≠ 19 := by
    rw [take_emptySet]
    simp
  have hdata : (emptySet pts).source.drop 19 =
      [0x16, 0, 11, 4, 0, 4, 0, 0x10, 0, 0, 0x80, 0, 0, 0, 0x80, 0, 0] :=
    List.drop_left' (by simp)
  have hsplit : splitData [0x16, 0, 11, 4, 0, 4, 0, 0x10, 0, 0, 0x80, 0, 0, 0, 0x80, 0, 0] 17 0 =
      [(0x16, [4, 0, 4, 0, 0x10, 0, 0, 0x80, 0, 0, 0]), (0x80, [])] := by decide
  rw [Packet.segments, if_neg hheader, pts_emptySet h, if_neg hpos, dataLen_emptySet, hdata]
  rw [List.take_of_length_le (by decide), if_neg (by decide)]
  simp only [List.length_cons, List.length_nil, Nat.zero_add, Nat.reduceAdd]
  rw [hsplit]
  rfl

/-- A display set without objects clears the screen. -/
theorem mem_decodedItems_of_zero {ctx : PGSSubContext} (h : ctx.presentation.objectCount = 0)
    (memory : ℕ → Source) (mPreviousObjectNum : ℕ) :
    ∃ items item, decodedItems ctx memory mPreviousObjectNum = some items ∧ item ∈ items := by
  have hrender : decodeRleAndRenderBitmap ctx memory = some fun _ => .zero := by
    unfold decodeRleAndRenderBitmap
    split
    · rfl
    · rw [h]
      rfl
  refine ⟨_, clearItem ctx.presentation true 0, congrArg (Option.map _) hrender, ?_⟩
  refine List.mem_append_left _ ?_
  rw [clearItems, if_pos (Or.inr h)]
  exact List.mem_map_of_mem (List.mem_range.mpr (by decide))

/-- **An item of a packet** with a time stamp: it has what an `int` has of it. -/
theorem exists_item_emptySet {pts : ℕ} (h : pts < 2 ^ 64) (hpos : pts ≠ 0) :
    ∃ first parser' items item, DisplaySet (emptySet pts) [] first [] ∧
      PgsParser.create.decodeAll [first] = some parser' ∧
      decodedItems parser'.mPgsContext (fun _ _ => 0) 0 = some items ∧ item ∈ items ∧
      item.pts = asSigned 32 pts := by
  have hsegments := segments_emptySet h hpos
  have hset : DisplaySet (emptySet pts) [] _ [] :=
    ⟨rfl, fun _ hs => absurd hs List.not_mem_nil, [], [], _, rfl, by
      rw [hsegments]
      rfl, by
      rw [hsegments]
      exact Nat.two_pos⟩
  obtain ⟨parser', hdecode, hcount⟩ : ∃ parser', PgsParser.create.decodeAll [readSegment
      (rleSource (packetData pts 0x16 [4, 0, 4, 0, 0x10, 0, 0, 0x80, 0, 0, 0])
        fun _ => 0)] = some parser' ∧ parser'.mPgsContext.presentation.objectCount = 0 :=
    ⟨_, rfl, rfl⟩
  obtain ⟨items, item, hitems, hitem⟩ := mem_decodedItems_of_zero hcount (fun _ _ => 0) 0
  refine ⟨_, parser', items, item, hset, hdecode, hitems, hitem, ?_⟩
  rw [pts_decodedItems hitems item hitem, pts_displaySet hset hdecode, pts_emptySet h]

end Packets

/-- **The time stamp is carried** exactly when it is less than `2 ^ 31`. -/
theorem carriesPts_iff (pts : UInt64) : CarriesPts pts ↔ pts.toNat < 2 ^ 31 := by
  constructor
  · intro h
    by_cases hzero : pts.toNat = 0
    · omega
    obtain ⟨first, parser', items, item, hset, hdecode, hitems, hitem, hpts⟩ :=
      exists_item_emptySet pts.toNat_lt hzero
    have hcarried := h .create _ [] _ [] parser' (pts_emptySet pts.toNat_lt) hset hdecode _ _
      items hitems item hitem
    have hbound : 2 * asSigned 32 pts.toNat < 2 ^ 32 := asSigned_lt 31 pts.toNat
    omega
  · intro h parser packet after first mid parser' hpts hset hdecode memory mPreviousObjectNum items
      hitems item hitem
    rw [pts_decodedItems hitems item hitem, pts_displaySet hset hdecode, hpts]
    exact asSigned_of_lt (by omega)

/-- After six hours and a half the time stamp of an item is negative. -/
theorem not_carriesPts_sixHours : ¬ CarriesPts 2147483648 := by
  intro h
  obtain ⟨first, parser', items, item, hset, hdecode, hitems, hitem, hpts⟩ :=
    exists_item_emptySet (show (2147483648 : ℕ) < 2 ^ 64 by decide) (by decide)
  have hcarried := h .create _ [] _ [] parser' (pts_emptySet (by decide)) hset hdecode _ _
    items hitems item hitem
  have hnegative : asSigned 32 (2147483648 : ℕ) = -2147483648 := by decide
  rw [hcarried, hnegative] at hpts
  exact absurd hpts (by decide)

end Pgs
end AmlSubtitle
