import AmlSubtitle.Parser.PgsRle
import AmlSubtitle.Parser.PgsSoftDemux

/-!
# PGS display sets, from their segments to the context

A display set that begins an epoch: the composition with its references, the windows, the palette,
each picture in fragments, and the end.

* `Picture` has its pixels with run-length data for them, and the data are cut into fragments.
* `Screen` is what a display set is to show, and `Screen.chunks` are the bytes of its segments.
* `Stored`: a picture is among the objects, with the data that were read of it.
* `Written`: the context at the end of the display set.
* `written_decodeAll`: segments with these bytes put such a context into the list, whatever was
  decoded before.
-/

namespace AmlSubtitle
namespace Pgs

open Words

/-! ## Bytes in a buffer -/

/-- A buffer has these bytes from a position on. -/
def Holds (buf : Source) (i : ℕ) (data : List UInt8) : Prop := bytes buf i data.length = data

section Holding

variable {buf : Source} {i n : ℕ} {a b data : List UInt8} {c : UInt8}

theorem bytes_succ (buf : Source) (i n : ℕ) :
    bytes buf i (n + 1) = buf i :: bytes buf (i + 1) n := by
  rw [bytes, List.range_succ_eq_map, List.map_cons, List.map_map, bytes, Nat.add_zero]
  refine congrArg _ (List.map_congr_left fun k _ => congrArg buf ?_)
  omega

theorem holds_cons : Holds buf i (c :: data) ↔ buf i = c ∧ Holds buf (i + 1) data := by
  rw [Holds, List.length_cons, bytes_succ, List.cons.injEq, Holds]

theorem holds_append : Holds buf i (a ++ b) ↔ Holds buf i a ∧ Holds buf (i + a.length) b := by
  induction a generalizing i with
  | nil => exact (and_iff_right rfl).symm
  | cons c a ih =>
    rw [List.cons_append, holds_cons, ih, holds_cons, and_assoc, List.length_cons, Nat.add_assoc,
      Nat.add_comm 1]

theorem Holds.be16 (h : Holds buf i (beBytes 2 n)) (hn : n < 2 ^ 16) :
    bytestreamGetBe16 buf i = n := by
  obtain ⟨hhigh, hlow⟩ := holds_cons.mp h
  rw [bytestreamGetBe16, hhigh, (holds_cons.mp hlow).1, UInt8.toNat_ofNat', UInt8.toNat_ofNat']
  omega

theorem Holds.be24 (h : Holds buf i (beBytes 3 n)) (hn : n < 2 ^ 24) :
    bytestreamGetBe24 buf i = n := by
  obtain ⟨hhigh, hrest⟩ := holds_cons.mp h
  obtain ⟨hmid, hlow⟩ := holds_cons.mp hrest
  rw [bytestreamGetBe24, hhigh, hmid, (holds_cons.mp hlow).1, UInt8.toNat_ofNat',
    UInt8.toNat_ofNat', UInt8.toNat_ofNat']
  omega

theorem Holds.byte (h : Holds buf i (c :: data)) : buf i = c := (holds_cons.mp h).1

theorem Holds.left (h : Holds buf i (a ++ b)) : Holds buf i a := (holds_append.mp h).1

/-- What is behind the first bytes. -/
theorem Holds.right (h : Holds buf i (a ++ b)) (hn : i + a.length = n) : Holds buf n b :=
  hn ▸ (holds_append.mp h).2

end Holding

/-! ## What a display set shows -/

/-- An entry of a palette. -/
structure Entry where
  colorId : UInt8
  y : UInt8
  cr : UInt8
  cb : UInt8
  alpha : UInt8

/-- The bytes of an entry. -/
def Entry.bytes (e : Entry) : List UInt8 := [e.colorId, e.y, e.cr, e.cb, e.alpha]

/-- **A picture**: its pixels, and run-length data for them that are cut into fragments. -/
structure Picture where
  id : ℕ
  w : ℕ
  h : ℕ
  pixels : List UInt8
  version : UInt8
  first : List UInt8
  more : List (List UInt8)
  encodes : Encodes w h pixels (first ++ more.flatten)
  id_lt : id < 2 ^ 16
  w_pos : 0 < w
  h_pos : 0 < h
  area_lt : w * h < 2 ^ 29
  declared_lt : (first ++ more.flatten).length + 4 < 2 ^ 24
  first_ne_nil : first ≠ []
  more_ne_nil : ∀ data ∈ more, data ≠ []
  first_lt : 11 + first.length < 2 ^ 16
  more_lt : ∀ data ∈ more, 4 + data.length < 2 ^ 16

namespace Picture

/-- The run-length data. -/
def rle (p : Picture) : List UInt8 := p.first ++ p.more.flatten

/-- The bit of the last fragment. -/
def lastFlag (rest : List (List UInt8)) : UInt8 := if rest = [] then 0x40 else 0

/-- The segment that starts the object. -/
def startBytes (p : Picture) : List UInt8 :=
  beBytes 2 p.id ++ ([p.version, 0x80 ||| lastFlag p.more] ++ (beBytes 3 (p.rle.length + 4) ++
    (beBytes 2 p.w ++ (beBytes 2 p.h ++ p.first))))

/-- The segments that continue it. -/
def moreBytes (p : Picture) : List (List UInt8) → List (List UInt8)
  | [] => []
  | data :: rest => (beBytes 2 p.id ++ ([p.version, lastFlag rest] ++ data)) :: p.moreBytes rest

/-- The segments of the object. -/
def chunks (p : Picture) : List (UInt8 × List UInt8) :=
  (p.startBytes :: p.moreBytes p.more).map fun data => (0x15, data)

end Picture

/-- A picture in its place. -/
structure Placed where
  picture : Picture
  windowId : UInt8
  compositionFlag : UInt8
  x : ℕ
  y : ℕ
  uncropped : compositionFlag &&& 0x80 = 0

/-- The bytes of the reference. -/
def Placed.bytes (r : Placed) : List UInt8 :=
  beBytes 2 r.picture.id ++ ([r.windowId, r.compositionFlag] ++ (beBytes 2 r.x ++ beBytes 2 r.y))

/-- **A display set that begins an epoch.**  Each pixel has a colour of the palette. -/
structure Screen where
  videoWidth : ℕ
  videoHeight : ℕ
  frameRate : UInt8
  idNumber : ℕ
  state : UInt8
  paletteUpdate : UInt8
  paletteId : UInt8
  paletteVersion : UInt8
  entries : List Entry
  windows : List UInt8
  pictures : List Picture
  placed : List Placed
  width_lt : videoWidth < 2 ^ 16
  height_lt : videoHeight < 2 ^ 16
  id_lt : idNumber < 2 ^ 16
  begins : state.toNat / 64 ≠ 0
  placed_le : placed.length ≤ MAX_OBJECT_REFS
  inside : ∀ r ∈ placed, r.x ≤ videoWidth ∧ r.y ≤ videoHeight
  pictured : ∀ r ∈ placed, r.picture ∈ pictures
  pictures_le : pictures.length ≤ MAX_EPOCH_OBJECTS
  entries_le : entries.length ≤ 256
  windows_ne_nil : windows ≠ []
  windows_lt : windows.length < 2 ^ 16
  nodup : (pictures.map Picture.id).Nodup
  fits : ∀ p ∈ pictures, p.w ≤ videoWidth ∧ p.h ≤ videoHeight
  coloured : ∀ p ∈ pictures, ∀ c ∈ p.pixels, c ∈ entries.map Entry.colorId

namespace Screen

/-- The bytes of the composition. -/
def compositionBytes (s : Screen) : List UInt8 :=
  beBytes 2 s.videoWidth ++ (beBytes 2 s.videoHeight ++ ([s.frameRate] ++ (beBytes 2 s.idNumber ++
    ([s.state, s.paletteUpdate, s.paletteId, UInt8.ofNat s.placed.length] ++
      s.placed.flatMap Placed.bytes))))

/-- The bytes of the palette. -/
def paletteBytes (s : Screen) : List UInt8 :=
  [s.paletteId, s.paletteVersion] ++ s.entries.flatMap Entry.bytes

/-- The segments, with their types. -/
def chunks (s : Screen) : List (UInt8 × List UInt8) :=
  (0x16, s.compositionBytes) :: (0x17, s.windows) :: (0x14, s.paletteBytes) ::
    (s.pictures.flatMap Picture.chunks ++ [(0x80, [])])

/-- The colours of the entries. -/
def colours (s : Screen) : List (UInt8 × ℕ) :=
  s.entries.map fun e => (e.colorId, yuvToArgb (s.videoHeight = 0 ∨ s.videoHeight > 576) e.y.toNat
    e.cr.toNat e.cb.toNat e.alpha.toNat)

/-- The colour of a pixel: the last entry for it counts. -/
def colour (s : Screen) : UInt8 → ℕ := writeColours (fun _ => 0) s.colours

/-- The item of a picture in its place. -/
def item (s : Screen) (pts : ℤ) (i : ℕ) (r : Placed) : DecodedItem where
  isImmediatePresent := true
  spuStartX := r.x
  spuStartY := r.y
  spuWidth := r.picture.w
  spuHeight := r.picture.h
  spuOriginDisplayW := s.videoWidth
  spuOriginDisplayH := s.videoHeight
  pts := pts
  mDelay := pts + DEFAULT_DURATION
  objectSegmentId := i
  bufferSize := 4 * (r.picture.w * r.picture.h)
  spuData := some (r.picture.pixels.flatMap fun c => leBytes 4 (s.colour c))

end Screen

/-! ## Segments -/

/-- A segment has these bytes. -/
structure IsSegment (pts : ℤ) (chunk : UInt8 × List UInt8) (segment : Segment) : Prop where
  pts_eq : segment.pts = pts
  type_eq : segment.type = chunk.1.toNat
  length_eq : segment.length = chunk.2.length
  holds : Holds segment.buf 0 chunk.2

/-- A picture is among the objects, with the data that were read of it. -/
def Stored (objects : PGSSubObjects) (p : Picture) (data : List UInt8) : Prop :=
  ∃ object, lookup objects p.id = some object ∧ object.w = p.w ∧ object.h = p.h ∧
    object.rle = data ∧ object.rleDataLen = data.length ∧
      object.rleRemainingLen = p.rle.length - data.length

section Objects

variable {ctx : PGSSubContext} {buf : Source} {n i : ℕ} {p q : Picture} {data : List UInt8}

theorem parseObjectSegment_of_define {objects : PGSSubObjects} {object : PGSSubObject}
    (hn : 4 < n) (hslot : objectSlot ctx.objects (bytestreamGetBe16 buf 0) = some (i, objects))
    (hdefine : defineObject ctx.presentation (objects.object i) buf n = some (some object)) :
    ∃ r ctx', parseObjectSegment ctx buf n = some (r, ctx') ∧
      lookup ctx'.objects (bytestreamGetBe16 buf 0) = some object ∧
        ctx'.objects.count = objects.count := by
  refine ⟨object.id, { ctx with objects := objects.modify i fun _ => object }, ?_, ?_, rfl⟩
  · unfold parseObjectSegment
    rw [if_neg (not_le.mpr hn), hslot]
    dsimp only
    rw [hdefine]
  · exact lookup_modify_self (objectSlot_spec hslot).1 (id_defineObject hdefine)

/-- A slot that is given away is one more. -/
theorem count_objectSlot {objects objects' : PGSSubObjects} {id : ℕ}
    (h : objectSlot objects id = some (i, objects')) : objects'.count ≤ objects.count + 1 := by
  unfold objectSlot at h
  split at h
  · obtain ⟨-, rfl⟩ := Prod.mk.inj (Option.some_inj.mp h)
    exact Nat.le_succ _
  · split_ifs at h
    obtain ⟨-, rfl⟩ := Prod.mk.inj (Option.some_inj.mp h)
    exact le_rfl

theorem exists_objectSlot {objects : PGSSubObjects} (hroom : objects.count < MAX_EPOCH_OBJECTS)
    (id : ℕ) : ∃ i objects', objectSlot objects id = some (i, objects') := by
  unfold objectSlot
  split
  · exact ⟨_, _, rfl⟩
  · rw [if_neg (not_le.mpr hroom)]
    exact ⟨_, _, rfl⟩

theorem continuation_flag (rest : List (List UInt8)) :
    (0x80 ||| Picture.lastFlag rest) &&& 0x80 ≠ 0 ∧ Picture.lastFlag rest &&& 0x80 = 0 := by
  unfold Picture.lastFlag
  split_ifs <;> decide

/-- **The first fragment** of a picture that is not larger than the video. -/
theorem stored_start (hbuf : Holds buf 0 p.startBytes) (hn : n = p.startBytes.length)
    (hwidth : p.w ≤ ctx.presentation.videoWidth) (hheight : p.h ≤ ctx.presentation.videoHeight)
    (hwidth_lt : p.w < 2 ^ 16) (hheight_lt : p.h < 2 ^ 16)
    (hroom : ctx.objects.count < MAX_EPOCH_OBJECTS) :
    ∃ r ctx', parseObjectSegment ctx buf n = some (r, ctx') ∧ Stored ctx'.objects p p.first ∧
      ctx'.objects.count ≤ ctx.objects.count + 1 := by
  have hlength : n = 11 + p.first.length := by
    rw [hn, Picture.startBytes]
    simp only [List.length_append, length_beBytes, List.length_cons, List.length_nil]
    omega
  have hpos := List.length_pos_iff.mpr p.first_ne_nil
  have hrle : p.rle.length = p.first.length + p.more.flatten.length := List.length_append
  have hdeclared : p.rle.length + 4 < 2 ^ 24 := p.declared_lt
  have hid := hbuf.left.be16 p.id_lt
  have hdesc := (hbuf.right (n := 2) rfl).left
  have hcount := ((hbuf.right (n := 2) rfl).right (n := 4) rfl).left.be24 hdeclared
  have hdims := ((hbuf.right (n := 2) rfl).right (n := 4) rfl).right (n := 7) rfl
  have hw := hdims.left.be16 hwidth_lt
  have hh := (hdims.right (n := 9) rfl).left.be16 hheight_lt
  have hdata : bytes buf 11 p.first.length = p.first := (hdims.right (n := 9) rfl).right rfl
  have hstarts : ¬ isContinuation buf := by
    rw [isContinuation, (holds_cons.mp hdesc).2.byte]
    exact (continuation_flag p.more).1
  have hbitmap : rleBitmapLen buf = p.rle.length := by
    rw [rleBitmapLen, hcount]
    omega
  obtain ⟨i, objects, hslot⟩ := exists_objectSlot hroom (bytestreamGetBe16 buf 0)
  have hdefine : defineObject ctx.presentation (objects.object i) buf n =
      some (some { objects.object i with
        w := p.w
        h := p.h
        rle := p.first
        rleDataLen := p.first.length
        rleRemainingLen := p.rle.length - p.first.length }) := by
    have hsub : n - 11 = p.first.length := by omega
    have hw_pos := p.w_pos
    have hh_pos := p.h_pos
    rw [defineObject, if_neg hstarts, startObject, if_neg (by omega), if_neg (by omega)]
    dsimp only
    rw [hw, hh, if_neg (by omega), hsub, hdata, hbitmap]
  obtain ⟨r, ctx', hparse, hlookup, hcount'⟩ :=
    parseObjectSegment_of_define (by omega) hslot hdefine
  rw [hid] at hlookup
  exact ⟨r, ctx', hparse, ⟨_, hlookup, rfl, rfl, rfl, rfl, rfl⟩,
    hcount'.trans_le (count_objectSlot hslot)⟩

/-- **A fragment behind it.** -/
theorem stored_more {rest : List (List UInt8)} {more : List UInt8}
    (h : Stored ctx.objects p data)
    (hbuf : Holds buf 0 (beBytes 2 p.id ++ ([p.version, Picture.lastFlag rest] ++ more)))
    (hn : n = 4 + more.length) (hne : more ≠ []) (hdata : data ≠ [])
    (hle : data.length + more.length ≤ p.rle.length) :
    ∃ r ctx', parseObjectSegment ctx buf n = some (r, ctx') ∧
      Stored ctx'.objects p (data ++ more) ∧ ctx'.objects.count = ctx.objects.count := by
  obtain ⟨object, hobject, hw, hh, hrle, hlen, hleft⟩ := h
  obtain ⟨i, hfind, rfl⟩ := Option.map_eq_some_iff.mp hobject
  have hdeclared : p.rle.length + 4 < 2 ^ 24 := p.declared_lt
  have hpos := List.length_pos_iff.mpr hne
  have hdata_pos := List.length_pos_iff.mpr hdata
  have hid := hbuf.left.be16 p.id_lt
  have hcontinues : isContinuation buf := by
    rw [isContinuation, (holds_cons.mp (hbuf.right (n := 2) rfl).left).2.byte]
    exact (continuation_flag rest).2
  have hbytes : bytes buf 4 (n - 4) = more := by
    rw [hn, Nat.add_sub_cancel_left]
    exact (hbuf.right (n := 2) rfl).right rfl
  have hslot : objectSlot ctx.objects (bytestreamGetBe16 buf 0) = some (i, ctx.objects) := by
    rw [hid, objectSlot, hfind]
  have hsound : Sound (ctx.objects.object i) := by
    intro _
    rw [hrle, hlen, hleft]
    omega
  rcases continueObject_cases buf hsound (show 4 < n by omega) with ⟨-, hlong⟩ | ⟨happend, -⟩
  · omega
  · obtain ⟨r, ctx', hparse, hlookup, hcount⟩ :=
      parseObjectSegment_of_define (by omega) hslot ((if_pos hcontinues).trans happend)
    rw [hid] at hlookup
    refine ⟨r, ctx', hparse, ⟨_, hlookup, hw, hh, ?_, ?_, ?_⟩, hcount⟩
    · dsimp only
      rw [hrle, hbytes]
    · dsimp only
      rw [hlen, List.length_append]
      omega
    · dsimp only
      rw [hleft, List.length_append]
      omega

/-- The segments of another picture. -/
theorem stored_other {ctx' : PGSSubContext} {r : ℤ} (h : Stored ctx.objects q data)
    (hparse : parseObjectSegment ctx buf n = some (r, ctx'))
    (hid : bytestreamGetBe16 buf 0 ≠ q.id) : Stored ctx'.objects q data := by
  obtain ⟨object, hobject, hrest⟩ := h
  exact ⟨object, (lookup_parseObjectSegment hparse fun _ => hid.symm).trans hobject, hrest⟩

end Objects

/-! ## Pictures -/

/-- Segments for an object leave the rest as it is. -/
structure Frame (id : ℕ) (parser parser' : PgsParser) : Prop where
  presentation_eq : parser'.mPgsContext.presentation = parser.mPgsContext.presentation
  palettes_eq : parser'.mPgsContext.palettes = parser.mPgsContext.palettes
  list_eq : parser'.mPgsContextList = parser.mPgsContextList
  others : ∀ q data, q.id ≠ id → Stored parser.mPgsContext.objects q data →
    Stored parser'.mPgsContext.objects q data

section Pictures

variable {parser parser' parser'' : PgsParser} {segment : Segment} {segments : List Segment}
  {pts : ℤ} {id : ℕ} {p : Picture} {data : List UInt8}

theorem forall₂_append_left {α β : Type} {R : α → β → Prop} {a b : List α} {l : List β}
    (h : List.Forall₂ R (a ++ b) l) :
    ∃ la lb, l = la ++ lb ∧ List.Forall₂ R a la ∧ List.Forall₂ R b lb :=
  ⟨l.take a.length, l.drop a.length, (List.take_append_drop _ _).symm,
    (List.forall₂_take_append _ _ _ h.flip).flip, (List.forall₂_drop_append _ _ _ h.flip).flip⟩

theorem Frame.refl (id : ℕ) (parser : PgsParser) : Frame id parser parser :=
  ⟨rfl, rfl, rfl, fun _ _ _ h => h⟩

theorem Frame.trans (h : Frame id parser parser') (h' : Frame id parser' parser'') :
    Frame id parser parser'' :=
  ⟨h'.presentation_eq.trans h.presentation_eq, h'.palettes_eq.trans h.palettes_eq,
    h'.list_eq.trans h.list_eq, fun q data hq hstored => h'.others q data hq (h.others q data hq
      hstored)⟩

/-- A segment for an object is decoded. -/
theorem frame_object {ctx' : PGSSubContext} {r : ℤ}
    (htype : segment.type = OBJECT_DEFINITION_SEGMENT) (hid : bytestreamGetBe16 segment.buf 0 = id)
    (hparse : parseObjectSegment parser.mPgsContext segment.buf segment.length = some (r, ctx')) :
    parser.decode segment = some { parser with mPgsContext := ctx' } ∧
      Frame id parser { parser with mPgsContext := ctx' } := by
  obtain ⟨hpresentation, hpalettes⟩ := frame_parseObjectSegment hparse
  refine ⟨?_, hpresentation, hpalettes, rfl, fun q data hq hstored => ?_⟩
  · unfold PgsParser.decode
    dsimp only
    rw [if_neg (by rw [htype]; decide), if_neg (by rw [htype]; decide), if_pos htype, hparse]
    rfl
  · exact stored_other hstored hparse (by rw [hid]; exact hq.symm)

/-- **The fragments behind the first** complete the data. -/
theorem stored_moreBytes {rest : List (List UInt8)} (h : Stored parser.mPgsContext.objects p data)
    (hdata : data ≠ []) (hrle : data ++ rest.flatten = p.rle) (hne : ∀ more ∈ rest, more ≠ [])
    (hsegments : List.Forall₂ (IsSegment pts)
      ((p.moreBytes rest).map fun bytes => ((0x15 : UInt8), bytes)) segments) :
    ∃ parser', parser.decodeAll segments = some parser' ∧ Frame p.id parser parser' ∧
      Stored parser'.mPgsContext.objects p p.rle ∧
        parser'.mPgsContext.objects.count = parser.mPgsContext.objects.count := by
  induction rest generalizing parser data segments with
  | nil =>
    obtain rfl := List.forall₂_nil_left_iff.mp hsegments
    rw [List.flatten_nil, List.append_nil] at hrle
    exact ⟨parser, rfl, Frame.refl _ _, hrle ▸ h, rfl⟩
  | cons more rest ih =>
    obtain ⟨segment, segments, hsegment, hrest, rfl⟩ := List.forall₂_cons_left_iff.mp hsegments
    have hmore := hne more List.mem_cons_self
    rw [List.flatten_cons, ← List.append_assoc] at hrle
    have hle : data.length + more.length ≤ p.rle.length := by
      rw [← hrle, List.length_append, List.length_append]
      exact Nat.le_add_right _ _
    have hlength : segment.length = 4 + more.length := by
      rw [hsegment.length_eq]
      simp only [List.length_append, length_beBytes, List.length_cons, List.length_nil]
      omega
    obtain ⟨r, ctx', hparse, hstored, hcount⟩ :=
      stored_more h hsegment.holds hlength hmore hdata hle
    obtain ⟨hdecode, hframe⟩ :=
      frame_object hsegment.type_eq (hsegment.holds.left.be16 p.id_lt) hparse
    obtain ⟨parser', hrun, hframe', hstored', hcount'⟩ := @ih { parser with
      mPgsContext := ctx' } segments _ hstored (List.append_ne_nil_of_left_ne_nil hdata _) hrle
      (fun data hmem => hne data (List.mem_cons_of_mem _ hmem)) hrest
    refine ⟨parser', ?_, hframe.trans hframe', hstored', hcount'.trans hcount⟩
    rw [PgsParser.decodeAll, hdecode]
    exact hrun

/-- **The segments of a picture** that is not larger than the video. -/
theorem stored_picture
    (hsegments : List.Forall₂ (IsSegment pts) p.chunks segments)
    (hwidth : p.w ≤ parser.mPgsContext.presentation.videoWidth)
    (hheight : p.h ≤ parser.mPgsContext.presentation.videoHeight)
    (hwidth_lt : p.w < 2 ^ 16) (hheight_lt : p.h < 2 ^ 16)
    (hroom : parser.mPgsContext.objects.count < MAX_EPOCH_OBJECTS) :
    ∃ parser', parser.decodeAll segments = some parser' ∧ Frame p.id parser parser' ∧
      Stored parser'.mPgsContext.objects p p.rle ∧
        parser'.mPgsContext.objects.count ≤ parser.mPgsContext.objects.count + 1 := by
  obtain ⟨segment, segments, hsegment, hrest, rfl⟩ := List.forall₂_cons_left_iff.mp hsegments
  obtain ⟨r, ctx', hparse, hstored, hcount⟩ := stored_start hsegment.holds hsegment.length_eq
    hwidth hheight hwidth_lt hheight_lt hroom
  obtain ⟨hdecode, hframe⟩ :=
    frame_object hsegment.type_eq (hsegment.holds.left.be16 p.id_lt) hparse
  obtain ⟨parser', hrun, hframe', hstored', hcount'⟩ := @stored_moreBytes { parser with
    mPgsContext := ctx' } _ _ _ _ _ hstored p.first_ne_nil rfl p.more_ne_nil hrest
  refine ⟨parser', ?_, hframe.trans hframe', hstored', hcount'.trans_le hcount⟩
  rw [PgsParser.decodeAll, hdecode]
  exact hrun

/-- **The segments of all pictures**, behind those of the pictures `done`. -/
theorem stored_pictures {pictures done : List Picture}
    (hsegments : List.Forall₂ (IsSegment pts) (pictures.flatMap Picture.chunks) segments)
    (hdone : ∀ q ∈ done, Stored parser.mPgsContext.objects q q.rle)
    (hcount : parser.mPgsContext.objects.count ≤ done.length)
    (hle : (done ++ pictures).length ≤ MAX_EPOCH_OBJECTS)
    (hnodup : ((done ++ pictures).map Picture.id).Nodup)
    (hfits : ∀ p ∈ pictures, p.w ≤ parser.mPgsContext.presentation.videoWidth ∧
      p.h ≤ parser.mPgsContext.presentation.videoHeight)
    (hlt : ∀ p ∈ pictures, p.w < 2 ^ 16 ∧ p.h < 2 ^ 16) :
    ∃ parser', parser.decodeAll segments = some parser' ∧
      parser'.mPgsContext.presentation = parser.mPgsContext.presentation ∧
      parser'.mPgsContext.palettes = parser.mPgsContext.palettes ∧
      parser'.mPgsContextList = parser.mPgsContextList ∧
      ∀ q ∈ done ++ pictures, Stored parser'.mPgsContext.objects q q.rle := by
  induction pictures generalizing parser done segments with
  | nil =>
    obtain rfl := List.forall₂_nil_left_iff.mp hsegments
    exact ⟨parser, rfl, rfl, rfl, rfl, by rwa [List.append_nil]⟩
  | cons p pictures ih =>
    rw [List.flatMap_cons] at hsegments
    obtain ⟨own, others, rfl, hown, hothers⟩ := forall₂_append_left hsegments
    obtain ⟨hw, hh⟩ := hfits p List.mem_cons_self
    obtain ⟨hw_lt, hh_lt⟩ := hlt p List.mem_cons_self
    have hroom : parser.mPgsContext.objects.count < MAX_EPOCH_OBJECTS := by
      rw [List.length_append, List.length_cons] at hle
      omega
    obtain ⟨parser', hrun, hframe, hstored, hcount'⟩ :=
      stored_picture hown hw hh hw_lt hh_lt hroom
    rw [List.append_cons] at hle hnodup ⊢
    have hkept : ∀ q ∈ done ++ [p], Stored parser'.mPgsContext.objects q q.rle := by
      intro q hq
      rcases List.mem_append.mp hq with hq | hq
      · refine hframe.others q _ (fun heq => ?_) (hdone q hq)
        have hdisjoint := List.disjoint_of_nodup_append
          (List.map_append ▸ (List.map_append ▸ hnodup).of_append_left)
        exact hdisjoint (List.mem_map_of_mem hq) (heq ▸ List.mem_map_of_mem List.mem_cons_self)
      · obtain rfl := List.mem_singleton.mp hq
        exact hstored
    obtain ⟨parser'', hrun', hpresentation, hpalettes, hlist, hall⟩ := ih hothers hkept
      (by rw [List.length_append]; exact hcount'.trans (Nat.succ_le_succ hcount)) hle hnodup
      (by
        rw [hframe.presentation_eq]
        exact fun q hq => hfits q (List.mem_cons_of_mem _ hq))
      (fun q hq => hlt q (List.mem_cons_of_mem _ hq))
    refine ⟨parser'', ?_, hpresentation.trans hframe.presentation_eq,
      hpalettes.trans hframe.palettes_eq, hlist.trans hframe.list_eq, hall⟩
    rw [decodeAll_append, hrun]
    exact hrun'

end Pictures

/-! ## The composition -/

/-- A reference to a picture in its place. -/
structure RefersTo (r : Placed) (ref : PGSSubObjectRef) : Prop where
  id_eq : ref.id = r.picture.id
  x_eq : ref.x = r.x
  y_eq : ref.y = r.y

/-- A presentation is that of a display set. -/
structure Presents (s : Screen) (pts : ℤ) (p : PGSSubPresentation) : Prop where
  videoWidth_eq : p.videoWidth = s.videoWidth
  videoHeight_eq : p.videoHeight = s.videoHeight
  paletteId_eq : p.paletteId = s.paletteId.toNat
  objectCount_eq : p.objectCount = s.placed.length
  pts_eq : p.pts = pts
  refers : ∀ i r, s.placed[i]? = some r → RefersTo r (p.objects i)

section Composition

variable {buf : Source} {pos n i : ℕ} {r : Placed} {s : Screen} {p : PGSSubPresentation}

@[simp] theorem length_bytes_placed (r : Placed) : r.bytes.length = 8 := by
  simp [Placed.bytes]

/-- **A reference is read.** -/
theorem readRef_placed (hbuf : Holds buf pos r.bytes) (hx : r.x < 2 ^ 16) (hy : r.y < 2 ^ 16)
    (old : PGSSubObjectRef) :
    (readRef buf pos old).2 = pos + 8 ∧ RefersTo r (readRef buf pos old).1 := by
  have hid := hbuf.left.be16 r.picture.id_lt
  have hrest := hbuf.right (n := pos + 2) rfl
  have hflag := (holds_cons.mp hrest.left).2.byte
  have hplace := hrest.right (n := pos + 4) rfl
  unfold readRef
  dsimp only
  rw [if_neg (by rw [hflag]; exact not_not.mpr r.uncropped)]
  exact ⟨rfl, hid, hplace.left.be16 hx, (hplace.right (n := pos + 6) rfl).be16 hy⟩

/-- **The references are read**, each inside the video. -/
theorem readRefs_placed {placed : List Placed} (hbuf : Holds buf pos (placed.flatMap Placed.bytes))
    (hn : n = pos + 8 * placed.length)
    (hinside : ∀ r ∈ placed, r.x ≤ p.videoWidth ∧ r.y ≤ p.videoHeight)
    (hlt : ∀ r ∈ placed, r.x < 2 ^ 16 ∧ r.y < 2 ^ 16) :
    ∃ objects, (readRefs buf n placed.length i pos p).presentation = { p with objects := objects } ∧
      (∀ k < i, objects k = p.objects k) ∧
      ∀ k r, placed[k]? = some r → RefersTo r (objects (i + k)) := by
  induction placed generalizing i pos p with
  | nil => exact ⟨p.objects, rfl, fun _ _ => rfl, fun _ _ h => by cases h⟩
  | cons r placed ih =>
    rw [List.flatMap_cons] at hbuf
    rw [List.length_cons] at hn
    obtain ⟨hx, hy⟩ := hinside r List.mem_cons_self
    obtain ⟨hx_lt, hy_lt⟩ := hlt r List.mem_cons_self
    obtain ⟨hnext, hrefers⟩ := readRef_placed hbuf.left hx_lt hy_lt (p.objects i)
    have hplace : ¬ ((readRef buf pos (p.objects i)).1.x > p.videoWidth ∨
        (readRef buf pos (p.objects i)).1.y > p.videoHeight) := by
      rw [hrefers.x_eq, hrefers.y_eq]
      omega
    rw [List.length_cons, readRefs, if_neg (by omega)]
    dsimp only
    rw [if_neg hplace, hnext]
    obtain ⟨objects, hread, hbefore, hall⟩ := @ih (pos + 8) (i + 1) { p with
      objects := Function.update p.objects i (readRef buf pos (p.objects i)).1 }
      (hbuf.right (by rw [length_bytes_placed])) (by omega)
      (fun r hr => hinside r (List.mem_cons_of_mem _ hr))
      (fun r hr => hlt r (List.mem_cons_of_mem _ hr))
    refine ⟨objects, hread, fun k hk => ?_, fun k r' hk => ?_⟩
    · rw [hbefore k (by omega)]
      exact Function.update_of_ne (by omega) _ _
    · cases k with
      | zero =>
        obtain rfl := Option.some_inj.mp hk
        have hfirst := hbefore i (Nat.lt_succ_self i)
        dsimp only at hfirst
        rw [Function.update_self] at hfirst
        exact hfirst ▸ hrefers
      | succ k =>
        rw [← Nat.add_assoc, Nat.add_right_comm]
        exact hall k r' hk

theorem length_flatMap_placed (placed : List Placed) :
    (placed.flatMap Placed.bytes).length = 8 * placed.length := by
  rw [List.length_flatMap, List.map_congr_left fun r _ => length_bytes_placed r, List.map_const',
    List.sum_replicate, smul_eq_mul, Nat.mul_comm]

/-- **The composition of a display set.** -/
theorem presents_compose {pts : ℤ} (hbuf : Holds buf 0 s.compositionBytes)
    (hn : n = s.compositionBytes.length) (hpts : p.pts = pts) :
    Presents s pts (compose buf n p).presentation := by
  have hlength : n = 11 + 8 * s.placed.length := by
    rw [hn, Screen.compositionBytes]
    simp only [List.length_append, length_beBytes, List.length_cons, List.length_nil,
      length_flatMap_placed]
    omega
  have hcount_le := s.placed_le
  have hwidth := hbuf.left.be16 s.width_lt
  have hrest := hbuf.right (n := 2) rfl
  have hheight := hrest.left.be16 s.height_lt
  have hhead := ((hrest.right (n := 4) rfl).right (n := 5) rfl).right (n := 7) rfl
  have hpalette := (holds_cons.mp (holds_cons.mp hhead.left).2).2
  have hrefs := hhead.right (n := 11) rfl
  have hcount : bytestreamGetByte buf 10 = s.placed.length := by
    rw [bytestreamGetByte, (holds_cons.mp hpalette).2.byte, UInt8.toNat_ofNat']
    exact Nat.mod_eq_of_lt (hcount_le.trans_lt (by decide))
  have hhead_count : (readHead buf p).objectCount = s.placed.length := hcount
  have hinside : ∀ r ∈ s.placed, r.x ≤ (readHead buf p).videoWidth ∧
      r.y ≤ (readHead buf p).videoHeight := by
    intro r hr
    rw [readHead]
    dsimp only
    rw [hwidth, hheight]
    exact s.inside r hr
  obtain ⟨objects, hread, -, hrefers⟩ := @readRefs_placed buf 11 n 0 (readHead buf p) s.placed hrefs
    hlength hinside fun r hr => ⟨(s.inside r hr).1.trans_lt s.width_lt,
      (s.inside r hr).2.trans_lt s.height_lt⟩
  have hcomposed : (compose buf n p).presentation = { readHead buf p with objects := objects } := by
    unfold compose
    dsimp only
    rw [if_neg (not_lt.mpr (hhead_count.trans_le hcount_le))]
    exact (congrArg (fun k => (readRefs buf n k 0 11 (readHead buf p)).presentation)
      hcount).trans hread
  rw [hcomposed]
  refine ⟨hwidth, hheight, congrArg UInt8.toNat hpalette.byte, hcount, hpts, fun i r hr => ?_⟩
  rw [← Nat.zero_add i]
  exact hrefers i r hr

end Composition

/-! ## The palette -/

section Palette

variable {buf : Source} {pos n fuel : ℕ} {s : Screen} {ctx : PGSSubContext}

theorem length_flatMap_entries (entries : List Entry) :
    (entries.flatMap Entry.bytes).length = 5 * entries.length := by
  rw [List.length_flatMap, List.map_congr_left fun e _ => (rfl : e.bytes.length = 5),
    List.map_const', List.sum_replicate, smul_eq_mul, Nat.mul_comm]

/-- **The entries are read.** -/
theorem readColours_entries {entries : List Entry} (bt709 : Bool)
    (hbuf : Holds buf pos (entries.flatMap Entry.bytes)) (hn : n = pos + 5 * entries.length)
    (hfuel : entries.length ≤ fuel) :
    readColours buf n bt709 fuel pos = entries.map fun e => (e.colorId,
      yuvToArgb bt709 e.y.toNat e.cr.toNat e.cb.toNat e.alpha.toNat) := by
  induction entries generalizing pos fuel with
  | nil => exact readColours_of_le buf bt709 hn.le
  | cons e entries ih =>
    rw [List.flatMap_cons] at hbuf
    rw [List.length_cons] at hn hfuel
    obtain ⟨hid, hrest⟩ := holds_cons.mp hbuf.left
    obtain ⟨hy, hrest⟩ := holds_cons.mp hrest
    obtain ⟨hcr, hrest⟩ := holds_cons.mp hrest
    obtain ⟨hcb, hrest⟩ := holds_cons.mp hrest
    obtain ⟨fuel, rfl⟩ := Nat.exists_eq_add_of_le' (show 1 ≤ fuel by omega)
    have hbehind := hbuf.right (n := pos + 5) rfl
    rw [readColours, if_pos (by omega), ih hbehind (by omega) (by omega), List.map_cons, hid,
      bytestreamGetByte, hy, bytestreamGetByte, show buf (pos + 2) = e.cr from hcr,
      bytestreamGetByte, show buf (pos + 3) = e.cb from hcb, bytestreamGetByte,
      show buf (pos + 4) = e.alpha from hrest.byte]

/-- What was there before does not matter for a colour that is written. -/
theorem writeColours_of_mem (argb argb' : UInt8 → ℕ) {colours : List (UInt8 × ℕ)} {c : UInt8}
    (hc : c ∈ colours.map Prod.fst) :
    writeColours argb colours c = writeColours argb' colours c := by
  obtain ⟨colour, hmem, rfl⟩ := List.mem_map.mp hc
  refine @writeColours_same (fun _ => false) argb argb' (fun c hc => absurd hc Bool.false_ne_true)
    colours colour.1 ?_
  rw [Bool.false_or, List.any_eq_true]
  exact ⟨colour, hmem, decide_eq_true rfl⟩

/-- **The palette of a display set**: its entries have their colours. -/
theorem argb_parsePaletteSegment (hbuf : Holds buf 0 s.paletteBytes)
    (hn : n = s.paletteBytes.length) (hcount : ctx.palettes.count = 0)
    (hheight : ctx.presentation.videoHeight = s.videoHeight) :
    ∃ j, findPalette s.paletteId.toNat (parsePaletteSegment ctx buf n).palettes = some j ∧
      ∀ c ∈ s.entries.map Entry.colorId,
        ((parsePaletteSegment ctx buf n).palettes.palette j).argb c = s.colour c := by
  have hlength : n = 2 + 5 * s.entries.length := by
    rw [hn, Screen.paletteBytes, List.length_append, length_flatMap_entries]
    rfl
  have hid : bytestreamGetByte buf 0 = s.paletteId.toNat := congrArg UInt8.toNat hbuf.byte
  have hbt : isBt709 ctx.presentation =
      decide (s.videoHeight = 0 ∨ s.videoHeight > 576) := by rw [isBt709, hheight]
  have hcolours : readColours buf n (isBt709 ctx.presentation) n 2 = s.colours := by
    rw [hbt]
    exact readColours_entries _ (hbuf.right rfl) hlength (by omega)
  have hslot : paletteSlot ctx.palettes s.paletteId.toNat = some (0,
      { ctx.palettes.modify 0 ({ · with id := s.paletteId.toNat }) with count := 1 }) := by
    rw [paletteSlot, findPalette, hcount]
    rfl
  have hparse : (parsePaletteSegment ctx buf n).palettes =
      ({ ctx.palettes.modify 0 ({ · with id := s.paletteId.toNat }) with count := 1 } :
        PGSSubPalettes).modify 0 fun palette =>
          { palette with argb := writeColours palette.argb s.colours } := by
    rw [parsePaletteSegment, hid, hslot]
    dsimp only
    rw [hcolours]
  rw [hparse]
  refine ⟨0, ?_, fun c hc => ?_⟩
  · simp [findPalette, find, PGSSubPalettes.modify]
  · rw [PGSSubPalettes.modify]
    dsimp only
    rw [Function.update_self]
    refine writeColours_of_mem _ _ ?_
    rw [Screen.colours, List.map_map]
    exact hc

end Palette

/-! ## The display set -/

/-- **The context at the end of a display set.** -/
structure Written (s : Screen) (pts : ℤ) (ctx : PGSSubContext) : Prop where
  presents : Presents s pts ctx.presentation
  coloured : ∃ j, findPalette ctx.presentation.paletteId ctx.palettes = some j ∧
    ∀ c ∈ s.entries.map Entry.colorId, (ctx.palettes.palette j).argb c = s.colour c
  stored : ∀ p ∈ s.pictures, Stored ctx.objects p p.rle

/-- The windows are not looked at. -/
theorem decode_windows {parser : PgsParser} {segment : Segment} (h : segment.type = 0x17) :
    parser.decode segment = some parser := by
  unfold PgsParser.decode
  dsimp only
  rw [if_neg (by rw [h]; decide), if_neg (by rw [h]; decide), if_neg (by rw [h]; decide),
    if_neg (by rw [h]; decide)]

/-- **The segments of a display set** put its context into the list. -/
theorem written_decodeAll {s : Screen} {pts : ℤ} {segments : List Segment}
    (hsegments : List.Forall₂ (IsSegment pts) s.chunks segments) (parser : PgsParser) :
    ∃ parser', parser.decodeAll segments = some parser' ∧
      parser'.mPgsContextList = parser.mPgsContextList ++ [parser'.mPgsContext] ∧
      Written s pts parser'.mPgsContext := by
  obtain ⟨composition, behind, hcomposition, hbehind, rfl⟩ :=
    List.forall₂_cons_left_iff.mp hsegments
  obtain ⟨windows, colours, hwindows, hcolours, rfl⟩ := List.forall₂_cons_left_iff.mp hbehind
  obtain ⟨palette, objects, hpalette, hobject, rfl⟩ := List.forall₂_cons_left_iff.mp hcolours
  obtain ⟨own, ending, rfl, hown, hending⟩ := forall₂_append_left hobject
  obtain ⟨last, rest, hlast, hnil, rfl⟩ := List.forall₂_cons_left_iff.mp hending
  obtain rfl := List.forall₂_nil_left_iff.mp hnil
  have hstate : compositionState composition.buf ≠ 0 := by
    have hhead := (((hcomposition.holds.right (n := 2) rfl).right (n := 4) rfl).right (n := 5)
      rfl).right (n := 7) rfl
    rw [compositionState, bytestreamGetByte, hhead.byte]
    exact s.begins
  -- The composition flushes the context.
  have hcomposed := @decode_composition parser _ hcomposition.type_eq
  rw [parsePresentationSegment, if_pos hstate] at hcomposed
  have hpresents := @presents_compose _ _ _ (stamped parser.mPgsContext composition).presentation _
    hcomposition.holds hcomposition.length_eq hcomposition.pts_eq
  generalize hctx : ({ flushPgsContext (stamped parser.mPgsContext composition) with
    presentation := (compose composition.buf composition.length
      (stamped parser.mPgsContext composition).presentation).presentation } : PGSSubContext) = ctx
    at hcomposed
  have hpresentation : ctx.presentation = (compose composition.buf composition.length
      (stamped parser.mPgsContext composition).presentation).presentation := by rw [← hctx]
  have hobjects : ctx.objects.count = 0 := by rw [← hctx]; rfl
  have hpalettes : ctx.palettes.count = 0 := by rw [← hctx]; rfl
  rw [← hpresentation] at hpresents
  -- The palette is the first one of the epoch.
  obtain ⟨j, hfind, hargb⟩ := argb_parsePaletteSegment hpalette.holds hpalette.length_eq hpalettes
    hpresents.videoHeight_eq
  have hkept := presentation_parsePaletteSegment ctx palette.buf palette.length
  obtain ⟨parser', hrun, hpresentation', hpalettes', hlist, hstored⟩ := @stored_pictures
    { parser with mPgsContext := parsePaletteSegment ctx palette.buf palette.length } own pts
    s.pictures [] hown (fun q hq => absurd hq List.not_mem_nil)
    (by rw [objects_parsePaletteSegment, hobjects]; exact le_rfl) s.pictures_le s.nodup
    (by
      dsimp only
      rw [hkept, hpresents.videoWidth_eq, hpresents.videoHeight_eq]
      exact s.fits)
    (fun p hp => ⟨(s.fits p hp).1.trans_lt s.width_lt, (s.fits p hp).2.trans_lt s.height_lt⟩)
  refine ⟨{ parser' with mPgsContextList := parser'.mPgsContextList ++ [parser'.mPgsContext] },
    ?_, ?_, ?_, ?_, hstored⟩
  · rw [PgsParser.decodeAll, hcomposed, Option.bind_some, PgsParser.decodeAll,
      decode_windows hwindows.type_eq, Option.bind_some, PgsParser.decodeAll,
      decode_palette hpalette.type_eq, Option.bind_some, decodeAll_append, hrun, Option.bind_some,
      PgsParser.decodeAll, decode_end hlast.type_eq]
    rfl
  · dsimp only
    rw [hlist]
  · dsimp only
    rw [hpresentation', hkept]
    exact hpresents
  · dsimp only
    rw [hpresentation', hpalettes', hkept, hpresents.paletteId_eq]
    exact ⟨j, hfind, hargb⟩

end Pgs
end AmlSubtitle
