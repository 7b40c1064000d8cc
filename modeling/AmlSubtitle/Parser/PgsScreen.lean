import AmlSubtitle.Parser.PgsDisplaySet

/-!
# PGS display sets on the screen

A context at the end of a display set is rendered, and its items are posted.

* `Screen.items` are the items that show a display set.
* `decodedItems_written`: they are posted for its context, whatever is in the memory behind the
  run-length data.
* `IsPacket`: a packet of the player has the segments of a display set in its data, each with its
  type and its length.
* `shows_screen`: whatever was played before, a packet with a display set that begins an epoch
  queues a context with these items.
-/

namespace AmlSubtitle
namespace Pgs

open Words

/-! ## Items -/

namespace Screen

/-- The item that takes the image of an object off the screen. -/
def cleared (s : Screen) (pts : ℤ) (i : ℕ) : DecodedItem where
  isImmediatePresent := true
  spuStartX := 0
  spuStartY := 0
  spuWidth := 0
  spuHeight := 0
  spuOriginDisplayW := s.videoWidth
  spuOriginDisplayH := s.videoHeight
  pts := pts
  mDelay := pts
  objectSegmentId := i
  bufferSize := 0
  spuData := none

/-- **The items of a display set** behind one with `mPreviousObjectNum` objects: when there were
more of them, or there are none now, all are taken off the screen first. -/
def items (s : Screen) (pts : ℤ) (mPreviousObjectNum : ℕ) : List DecodedItem :=
  (if s.placed.length < mPreviousObjectNum ∨ s.placed = [] then
    (List.range MAX_OBJECT_REFS).map (s.cleared pts)
  else []) ++ s.placed.mapIdx (s.item pts)

end Screen

section Rendering

variable {s : Screen} {pts : ℤ} {ctx : PGSSubContext} {p : Picture} {r : Placed} {i n : ℕ}
  {argb : UInt8 → ℕ} {behind : ℕ → Source} {rects : ℕ → AVSubtitleRect}

/-- **The data of a picture** give its pixels. -/
theorem decodeRle_picture (p : Picture) (behind : Source) :
    (decodeRle p.rle behind p.w p.h).pixels = p.pixels ∧
      (decodeRle p.rle behind p.w p.h).ok = true := by
  have harea := p.area_lt
  have hrle : p.rle ≠ [] := List.append_ne_nil_of_left_ne_nil p.first_ne_nil _
  have hrun := @rleLoop_encodes p.rle p.rle p.pixels behind p.w p.h 0 0 [] 0 p.h p.w_pos (by omega)
    p.encodes List.drop_zero (Nat.zero_mul _).symm le_rfl (Nat.zero_add _)
  have heq := decodeRleInt_eq behind hrle p.w_pos (show p.w * p.h + 16383 < 2 ^ 31 by omega)
  rw [decodeRleInt, if_neg hrle] at heq
  rw [heq] at hrun
  exact ⟨hrun.1, Ending.returned.inj hrun.2⟩

/-- A rectangle shows a picture in its place. -/
structure ShowsRect (s : Screen) (pts : ℤ) (i : ℕ) (r : Placed) (rect : AVSubtitleRect) : Prop where
  isValid_eq : rect.isValid = true
  item_eq : ∀ p, Presents s pts p → shownItem p true rect = s.item pts i r

/-- **A reference is rendered.** -/
theorem showsRect_renderObject {ref : PGSSubObjectRef} {object : PGSSubObject}
    (hrefers : RefersTo r ref) (hw : object.w = r.picture.w) (hh : object.h = r.picture.h)
    (hrle : object.rle = r.picture.rle) (hleft : object.rleRemainingLen = 0)
    (hargb : ∀ c ∈ r.picture.pixels, argb c = s.colour c) (pts : ℤ) (i : ℕ) (behind : Source)
    (rect : AVSubtitleRect) :
    ∃ rect', renderObject argb i ref object behind rect = some (rect', true) ∧
      ShowsRect s pts i r rect' := by
  have harea := r.picture.area_lt
  have hne : r.picture.rle ≠ [] :=
    List.append_ne_nil_of_left_ne_nil r.picture.first_ne_nil _
  obtain ⟨hpixels, hok⟩ := decodeRle_picture r.picture behind
  have hsize : decodedRleSize object = (r.picture.w * r.picture.h : ℕ) := by
    rw [decodedRleSize, hw, hh]
    exact_mod_cast asSigned_of_lt (show 2 * (r.picture.w * r.picture.h) < 2 ^ 32 by omega)
  have hbitmap : bitmapSize object = (4 * (r.picture.w * r.picture.h) : ℕ) := by
    rw [bitmapSize, hsize]
    exact_mod_cast asSigned_of_lt (show 2 * (4 * (r.picture.w * r.picture.h)) < 2 ^ 32 by omega)
  have hrender : renderRle2Bitmap argb object r.picture.pixels =
      some (r.picture.pixels.flatMap fun c => leBytes 4 (s.colour c)) := by
    rw [renderRle2Bitmap, if_neg (by omega)]
    exact congrArg some (List.flatMap_congr fun c hc => by rw [hargb c hc])
  unfold renderObject
  dsimp only
  rw [hrle, if_neg hne, if_neg (not_not.mpr hleft), if_neg (by omega), hw, hh, hok, if_pos rfl,
    hpixels, hrender, hbitmap]
  refine ⟨_, rfl, rfl, fun p hp => ?_⟩
  rw [shownItem, hp.videoWidth_eq, hp.videoHeight_eq, hp.pts_eq]
  dsimp only
  rw [hrefers.x_eq, hrefers.y_eq, Screen.item]
  push_cast
  rfl

/-- The object of a picture that was read to its end. -/
theorem exists_object (h : Stored ctx.objects p p.rle) :
    ∃ k, findObject p.id ctx.objects = some k ∧ (ctx.objects.object k).w = p.w ∧
      (ctx.objects.object k).h = p.h ∧ (ctx.objects.object k).rle = p.rle ∧
        (ctx.objects.object k).rleRemainingLen = 0 := by
  obtain ⟨object, hobject, hw, hh, hrle, -, hleft⟩ := h
  obtain ⟨k, hfind, rfl⟩ := Option.map_eq_some_iff.mp hobject
  exact ⟨k, hfind, hw, hh, hrle, hleft.trans (Nat.sub_self _)⟩

/-- **All references are rendered**, one after another. -/
theorem renderObjects_written (h : Written s pts ctx)
    (hargb : ∀ c ∈ s.entries.map Entry.colorId, argb c = s.colour c)
    (hn : i + n = s.placed.length) :
    ∃ rects', renderObjects ctx argb behind n i rects = some rects' ∧
      (∀ k < i, rects' k = rects k) ∧
      ∀ k r, i ≤ k → s.placed[k]? = some r → ShowsRect s pts k r (rects' k) := by
  induction n generalizing i rects with
  | zero =>
    refine ⟨rects, rfl, fun _ _ => rfl, fun k r hk hr => ?_⟩
    rw [List.getElem?_eq_none (by omega)] at hr
    exact absurd hr.symm (Option.some_ne_none r)
  | succ n ih =>
    have hi : i < s.placed.length := by omega
    obtain ⟨r, hr⟩ : ∃ r, s.placed[i]? = some r := ⟨s.placed[i], List.getElem?_eq_getElem hi⟩
    have hrefers := h.presents.refers i r hr
    have hpicture := s.pictured r (List.mem_of_getElem? hr)
    obtain ⟨k, hfind, hw, hh, hrle, hleft⟩ := exists_object (h.stored r.picture hpicture)
    obtain ⟨rect, hrender, hshows⟩ := showsRect_renderObject hrefers hw hh hrle hleft
      (fun c hc => hargb c (s.coloured r.picture hpicture c hc)) pts i (behind k) (rects i)
    rw [← hrefers.id_eq] at hfind
    obtain ⟨rects', hrest, hbefore, hall⟩ :=
      @ih (i + 1) (Function.update rects i rect) (by omega)
    refine ⟨rects', ?_, fun k hk => ?_, fun k r' hk hr' => ?_⟩
    · rw [renderObjects, hfind]
      dsimp only
      rw [hrender]
      exact hrest
    · rw [hbefore k (by omega)]
      exact Function.update_of_ne (by omega) _ _
    · rcases hk.eq_or_lt with rfl | hk
      · rw [hbefore i (Nat.lt_succ_self i), Function.update_self]
        exact Option.some_inj.mp (hr.symm.trans hr') ▸ hshows
      · exact hall k r' hk hr'

/-- A list with indices, from a range. -/
theorem filterMap_range_mapIdx {α β : Type} (l : List α) (g : ℕ → α → β) :
    (List.range l.length).filterMap (fun i => l[i]?.map (g i)) = l.mapIdx g := by
  induction l using List.reverseRecOn with
  | nil => rfl
  | append_singleton l a ih =>
    have hinit : (List.range l.length).filterMap (fun i => (l ++ [a])[i]?.map (g i)) =
        (List.range l.length).filterMap fun i => l[i]?.map (g i) :=
      List.filterMap_congr fun i hi => by rw [List.getElem?_append_left (List.mem_range.mp hi)]
    rw [List.length_append, List.length_singleton, List.range_succ, List.filterMap_append, hinit,
      ih, List.mapIdx_concat, List.filterMap_cons_some (by
        rw [List.getElem?_append_right le_rfl, Nat.sub_self]
        rfl), List.filterMap_nil]

/-- **The items of a context** at the end of a display set. -/
theorem decodedItems_written (h : Written s pts ctx) (behind : ℕ → Source)
    (mPreviousObjectNum : ℕ) :
    decodedItems ctx behind mPreviousObjectNum = some (s.items pts mPreviousObjectNum) := by
  obtain ⟨j, hfind, hargb⟩ := h.coloured
  obtain ⟨rects, hrender, -, hshows⟩ := @renderObjects_written s pts ctx 0 s.placed.length _ behind
    (fun _ => .zero) h hargb (Nat.zero_add _)
  have hp := h.presents
  have hclear : clearItems ctx.presentation mPreviousObjectNum true =
      if s.placed.length < mPreviousObjectNum ∨ s.placed = [] then
        (List.range MAX_OBJECT_REFS).map (s.cleared pts)
      else [] := by
    rw [clearItems, hp.objectCount_eq]
    refine if_congr (or_congr Iff.rfl List.length_eq_zero_iff)
      (List.map_congr_left fun i _ => ?_) rfl
    rw [clearItem, hp.videoWidth_eq, hp.videoHeight_eq, hp.pts_eq, Screen.cleared]
  have hshown : shownItems ctx rects true = s.placed.mapIdx (s.item pts) := by
    rw [shownItems, hp.objectCount_eq, ← filterMap_range_mapIdx]
    refine List.filterMap_congr fun i hi => ?_
    obtain ⟨r, hr⟩ : ∃ r, s.placed[i]? = some r :=
      ⟨_, List.getElem?_eq_getElem (List.mem_range.mp hi)⟩
    obtain ⟨k, hfind, -⟩ :=
      exists_object (h.stored r.picture (s.pictured r (List.mem_of_getElem? hr)))
    have hrect := hshows i r (Nat.zero_le i) hr
    rw [(hp.refers i r hr).id_eq, hfind, hr, Option.map_some]
    dsimp only
    rw [if_pos hrect.isValid_eq, hrect.item_eq _ hp]
  rw [decodedItems, decodeRleAndRenderBitmap, hfind]
  dsimp only
  rw [hp.objectCount_eq, hrender, Option.map_some, postDecodedItem, hclear, hshown]
  rfl

end Rendering

/-! ## Packets -/

/-- A segment in the data of a packet. -/
def chunkBytes (chunk : UInt8 × List UInt8) : List UInt8 :=
  chunk.1 :: (beBytes 2 chunk.2.length ++ chunk.2)

/-- **A packet of the player** with these segments, from its sync byte on. -/
def IsPacket (pts : ℕ) (chunks : List (UInt8 × List UInt8)) (packet : Packet) : Prop :=
  ∃ sync reserved behind, sync.length = 3 ∧ reserved.length = 4 ∧
    packet.source = (sync ++ (beBytes 4 (chunks.flatMap chunkBytes).length ++
      (beBytes 8 pts ++ reserved))) ++ (chunks.flatMap chunkBytes ++ behind)

section Packets

variable {pts : ℕ} {chunk : UInt8 × List UInt8} {chunks : List (UInt8 × List UInt8)}
  {packet : Packet} {fuel : ℕ}

/-- Bytes of some data are in its source. -/
theorem holds_rleSource (before data rest : List UInt8) (behind : Source) :
    Holds (rleSource (before ++ (data ++ rest)) behind) before.length data := by
  refine List.ext_getElem (length_bytes _ _ _) fun k _ hk => ?_
  have hlt : before.length + k < (before ++ (data ++ rest)).length := by
    rw [List.length_append, List.length_append]
    omega
  simp only [bytes, List.getElem_map, List.getElem_range]
  rw [rleSource, if_pos hlt, List.getD_append_right _ _ _ _ (Nat.le_add_right _ _),
    Nat.add_sub_cancel_left, List.getD_append _ _ _ _ hk, List.getD_eq_getElem _ _ hk]

theorem sourceOf_eq (data : List UInt8) : sourceOf data = rleSource data fun _ => 0 := by
  funext i
  rw [rleSource, sourceOf]
  split_ifs with hi
  · rfl
  · exact List.getD_eq_default _ _ (not_lt.mp hi)

theorem length_chunkBytes (chunk : UInt8 × List UInt8) :
    (chunkBytes chunk).length = 3 + chunk.2.length := by
  rw [chunkBytes, List.length_cons, List.length_append, length_beBytes]
  omega

/-- A segment that is split off: it has a length for which there is memory, and is not empty or
the end. -/
def Splits (chunk : UInt8 × List UInt8) : Prop :=
  chunk.2.length < 2 ^ 16 ∧ (chunk.2 = [] → chunk.1 = 0x80)

/-- **The segments are split off**, behind those before. -/
theorem splitData_chunks (hsplits : ∀ chunk ∈ chunks, Splits chunk) (before : List UInt8)
    (hfuel : chunks.length ≤ fuel) :
    splitData (before ++ chunks.flatMap chunkBytes) fuel before.length = chunks := by
  induction chunks generalizing before fuel with
  | nil =>
    cases fuel with
    | zero => rfl
    | succ fuel =>
      rw [splitData, if_neg (by rw [List.flatMap_nil, List.append_nil]; exact lt_irrefl _)]
  | cons chunk chunks ih =>
    obtain ⟨fuel, rfl⟩ := Nat.exists_eq_add_of_le' (show 1 ≤ fuel from
      (Nat.le_add_left 1 chunks.length).trans hfuel)
    obtain ⟨hlt, hempty⟩ := hsplits chunk List.mem_cons_self
    have hlength := length_chunkBytes chunk
    rw [List.flatMap_cons]
    have hholds := holds_rleSource before (chunkBytes chunk) (chunks.flatMap chunkBytes) fun _ => 0
    rw [← sourceOf_eq] at hholds
    have htype : (before ++ (chunkBytes chunk ++ chunks.flatMap chunkBytes)).getD before.length 0 =
        chunk.1 := hholds.byte
    have hlen := (holds_cons.mp hholds).2.left.be16 hlt
    have hheader : before ++ (chunkBytes chunk ++ chunks.flatMap chunkBytes) =
        (before ++ chunk.1 :: beBytes 2 chunk.2.length) ++
          (chunk.2 ++ chunks.flatMap chunkBytes) := by
      simp only [chunkBytes, List.cons_append, List.append_assoc]
    have hdata : ((before ++ (chunkBytes chunk ++ chunks.flatMap chunkBytes)).drop
        (before.length + 3)).take chunk.2.length = chunk.2 := by
      rw [hheader, List.drop_left' (by rw [List.length_append, List.length_cons, length_beBytes]),
        List.take_left' rfl]
    have hall : (before ++ (chunkBytes chunk ++ chunks.flatMap chunkBytes)).length =
        before.length + (3 + chunk.2.length + (chunks.flatMap chunkBytes).length) := by
      rw [List.length_append, List.length_append, hlength]
    rw [splitData, if_pos (by omega)]
    dsimp only
    rw [htype, hlen, if_neg (fun h => h.2 (hempty (List.eq_nil_of_length_eq_zero h.1))),
      if_neg (by omega), if_neg (by rw [OSD_HALF_SIZE]; omega), hdata]
    have hrest := ih (fun chunk h => hsplits chunk (List.mem_cons_of_mem _ h))
      (before ++ chunkBytes chunk) (Nat.le_of_succ_le_succ hfuel)
    rw [List.length_append, hlength, ← Nat.add_assoc, List.append_assoc] at hrest
    rw [hrest]

/-- **The segments of a packet** are those in its data. -/
theorem segments_packet (hpacket : IsPacket pts chunks packet)
    (hsplits : ∀ chunk ∈ chunks, Splits chunk) (hpos : pts ≠ 0) (hpts : pts < 2 ^ 64)
    (hlen : (chunks.flatMap chunkBytes).length < 2 ^ 32) :
    packet.segments = chunks.mapIdx fun k chunk =>
      readSegment (rleSource (packetData pts chunk.1 chunk.2) (packet.behind k)) := by
  obtain ⟨sync, reserved, behind, hsync, hreserved, hsource⟩ := hpacket
  have hheader : (sync ++ (beBytes 4 (chunks.flatMap chunkBytes).length ++
      (beBytes 8 pts ++ reserved))).length = 19 := by
    simp only [List.length_append, length_beBytes, hsync, hreserved]
  have htake := congrArg (List.take 19) hsource
  rw [List.take_left' hheader] at htake
  have hdrop := congrArg (List.drop 19) hsource
  rw [List.drop_left' hheader] at hdrop
  have hdataLen : packet.dataLen = (chunks.flatMap chunkBytes).length := by
    rw [Packet.dataLen, htake, List.drop_left' hsync]
    exact subPeekAsUint32_beBytes hlen _
  have hstamp : packet.pts = pts := by
    rw [Packet.pts, htake, ← List.append_assoc, List.drop_left' (by
      rw [List.length_append, length_beBytes, hsync])]
    exact subPeekAsUint64_beBytes hpts _
  have hsplit := splitData_chunks hsplits [] (show chunks.length ≤
    (chunks.flatMap chunkBytes).length by
      rw [List.length_flatMap]
      have hle := List.length_le_sum_of_one_le (chunks.map fun chunk => (chunkBytes chunk).length)
        (by
          intro n hn
          obtain ⟨chunk, -, rfl⟩ := List.mem_map.mp hn
          rw [length_chunkBytes]
          omega)
      rwa [List.length_map] at hle)
  rw [Packet.segments, htake, if_neg (not_not.mpr hheader), hstamp, if_neg hpos, hdrop, hdataLen,
    List.take_left' rfl, if_neg (not_not.mpr rfl)]
  rw [List.nil_append, List.length_nil] at hsplit
  rw [hsplit]

/-- **A segment is read again** behind the header that was made for it. -/
theorem isSegment_readSegment (hlt : chunk.2.length < 2 ^ 16) (pts : ℕ) (behind : Source) :
    IsSegment (asSigned 32 pts) chunk
      (readSegment (rleSource (packetData pts chunk.1 chunk.2) behind)) := by
  have hheader := holds_rleSource [80, 71, UInt8.ofNat (pts / 2 ^ 24), UInt8.ofNat (pts / 2 ^ 16),
    UInt8.ofNat (pts / 2 ^ 8), UInt8.ofNat pts, 0, 0, 0, 0]
    (chunk.1 :: (beBytes 2 chunk.2.length ++ chunk.2)) [] behind
  rw [List.append_nil] at hheader
  obtain ⟨htype, hrest⟩ := holds_cons.mp hheader
  refine ⟨?_, congrArg UInt8.toNat htype, hrest.left.be16 hlt, ?_⟩
  · rw [readSegment, getBe32_packetData, asSigned_mod]
  · have hdata : Holds (rleSource (packetData pts chunk.1 chunk.2) behind) 13 chunk.2 :=
      hrest.right rfl
    rw [Holds, readSegment, bytes]
    simp only [Nat.zero_add]
    exact hdata

end Packets

/-! ## From a packet to the screen -/

namespace Picture

theorem length_moreBytes (p : Picture) {rest : List (List UInt8)} {bytes : List UInt8}
    (h : bytes ∈ p.moreBytes rest) : ∃ data ∈ rest, bytes.length = 4 + data.length := by
  induction rest with
  | nil => exact absurd h List.not_mem_nil
  | cons data rest ih =>
    rcases List.mem_cons.mp h with rfl | h
    · refine ⟨data, List.mem_cons_self, ?_⟩
      simp only [List.length_append, length_beBytes, List.length_cons, List.length_nil]
      omega
    · obtain ⟨data, hmem, hlength⟩ := ih h
      exact ⟨data, List.mem_cons_of_mem _ hmem, hlength⟩

/-- The segments of a picture are split off. -/
theorem splits_chunks (p : Picture) : ∀ chunk ∈ p.chunks, Splits chunk := by
  intro chunk hchunk
  obtain ⟨bytes, hbytes, rfl⟩ := List.mem_map.mp hchunk
  rcases List.mem_cons.mp hbytes with rfl | hbytes
  · have hlength : p.startBytes.length = 11 + p.first.length := by
      simp only [startBytes, List.length_append, length_beBytes, List.length_cons, List.length_nil]
      omega
    exact ⟨hlength.trans_lt p.first_lt,
      fun h => absurd h (List.ne_nil_of_length_pos (by dsimp only; omega))⟩
  · obtain ⟨data, hmem, hlength⟩ := p.length_moreBytes hbytes
    exact ⟨hlength.trans_lt (p.more_lt data hmem),
      fun h => absurd h (List.ne_nil_of_length_pos (by dsimp only; omega))⟩

end Picture

namespace Screen

/-- **The segments of a display set** are split off. -/
theorem splits_chunks (s : Screen) : ∀ chunk ∈ s.chunks, Splits chunk := by
  have hplaced : s.placed.length ≤ 2 := s.placed_le
  have hentries := s.entries_le
  intro chunk hchunk
  rcases List.mem_cons.mp hchunk with rfl | hchunk
  · have hlength : s.compositionBytes.length = 11 + 8 * s.placed.length := by
      simp only [compositionBytes, List.length_append, length_beBytes, List.length_cons,
        List.length_nil, length_flatMap_placed]
      omega
    exact ⟨by dsimp only; omega,
      fun h => absurd h (List.ne_nil_of_length_pos (by dsimp only; omega))⟩
  rcases List.mem_cons.mp hchunk with rfl | hchunk
  · exact ⟨s.windows_lt, fun h => absurd h s.windows_ne_nil⟩
  rcases List.mem_cons.mp hchunk with rfl | hchunk
  · refine ⟨?_, fun h => absurd h (List.cons_ne_nil _ _)⟩
    rw [paletteBytes, List.length_append, length_flatMap_entries]
    simp only [List.length_cons, List.length_nil]
    omega
  rcases List.mem_append.mp hchunk with hchunk | hchunk
  · obtain ⟨p, -, hp⟩ := List.mem_flatMap.mp hchunk
    exact p.splits_chunks chunk hp
  · obtain rfl := List.mem_singleton.mp hchunk
    exact ⟨by decide, fun _ => rfl⟩

end Screen

/-- **A display set is shown.**  Whatever was played before, the packet of a display set that
begins an epoch queues one context, and the items that are posted for it have the pictures in their
places, each pixel with the colour of its entry. -/
theorem shows_screen (s : Screen) {pts : ℕ} {packet : Packet}
    (hpacket : IsPacket pts s.chunks packet) (hpos : pts ≠ 0) (hpts : pts < 2 ^ 64)
    (hlen : (s.chunks.flatMap chunkBytes).length < 2 ^ 32) (before : List Packet) :
    ∃ parser parser' ctx, before.foldlM PgsParser.softDemuxParser .create = some parser ∧
      parser.softDemuxParser packet = some parser' ∧
      parser'.mPgsContextList = parser.mPgsContextList ++ [ctx] ∧
      ∀ behind mPreviousObjectNum, decodedItems ctx behind mPreviousObjectNum =
        some (s.items (asSigned 32 pts) mPreviousObjectNum) := by
  obtain ⟨parser, hbefore, -⟩ := sound_decodeAll sound_create (before.flatMap Packet.segments)
  have hsegments : List.Forall₂ (IsSegment (asSigned 32 pts)) s.chunks packet.segments := by
    rw [segments_packet hpacket s.splits_chunks hpos hpts hlen]
    refine List.forall₂_iff_get.mpr ⟨(List.length_mapIdx).symm, fun i hi hi' => ?_⟩
    rw [List.get_eq_getElem, List.get_eq_getElem, List.getElem_mapIdx]
    exact isSegment_readSegment (s.splits_chunks _ (List.getElem_mem hi)).1 _ _
  obtain ⟨parser', hrun, hlist, hwritten⟩ := written_decodeAll hsegments parser
  exact ⟨parser, parser', parser'.mPgsContext, (foldlM_softDemuxParser _ _).trans hbefore, hrun,
    hlist, decodedItems_written hwritten⟩

/-- A picture of two pixels, in two fragments. -/
def twoPixels : Picture where
  id := 0x1a5
  w := 2
  h := 1
  pixels := [0x2b, 0x4d]
  version := 0
  first := [0x2b]
  more := [[0x4d, 0, 0]]
  encodes := @Encodes.line 2 0 [0x2b, 0x4d] [0x2b, 0x4d] [0, 0] [] [] rfl
    (Runs.cons (RleCode.pixel (by decide)) one_pos (Runs.cons (RleCode.pixel (by decide)) one_pos
      Runs.nil)) (Or.inl rfl) Encodes.nil
  id_lt := by decide
  w_pos := by decide
  h_pos := Nat.one_pos
  area_lt := by decide
  declared_lt := by decide
  first_ne_nil := by decide
  more_ne_nil := by decide
  first_lt := by decide
  more_lt := by decide

/-- A display set with it. -/
def twoPixelsScreen : Screen where
  videoWidth := 1920
  videoHeight := 1080
  frameRate := 0x10
  idNumber := 0x1b7
  state := 0x80
  paletteUpdate := 0
  paletteId := 3
  paletteVersion := 0
  entries := [⟨0x2b, 235, 128, 128, 255⟩, ⟨0x4d, 16, 128, 128, 255⟩]
  windows := [1, 0, 0, 100, 3, 132, 0, 2, 0, 1]
  pictures := [twoPixels]
  placed := [⟨twoPixels, 0, 0, 100, 900, rfl⟩]
  width_lt := by decide
  height_lt := by decide
  id_lt := by decide
  begins := by decide
  placed_le := by decide
  inside := by decide
  pictured := by simp
  pictures_le := by decide
  entries_le := by decide
  windows_ne_nil := by decide
  windows_lt := by decide
  nodup := by decide
  fits := by simp [twoPixels]
  coloured := by simp [twoPixels]

/-- The packet of the display set. -/
def twoPixelsPacket : Packet where
  source := ([0, 0, 0] ++ (beBytes 4 (twoPixelsScreen.chunks.flatMap chunkBytes).length ++
    (beBytes 8 900000 ++ [0, 0, 0, 0]))) ++ (twoPixelsScreen.chunks.flatMap chunkBytes ++ [])
  behind := fun _ _ => 0

theorem shows_twoPixels : ∃ parser parser' ctx,
    [].foldlM PgsParser.softDemuxParser .create = some parser ∧
      parser.softDemuxParser twoPixelsPacket = some parser' ∧
      parser'.mPgsContextList = parser.mPgsContextList ++ [ctx] ∧
      ∀ behind mPreviousObjectNum, decodedItems ctx behind mPreviousObjectNum =
        some (twoPixelsScreen.items (asSigned 32 (900000 : ℕ)) mPreviousObjectNum) :=
  shows_screen twoPixelsScreen ⟨[0, 0, 0], [0, 0, 0, 0], [], rfl, rfl, rfl⟩ (by decide) (by decide)
    (by decide) []

end Pgs
end AmlSubtitle
