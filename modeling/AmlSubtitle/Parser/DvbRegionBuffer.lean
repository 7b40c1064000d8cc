import AmlSubtitle.Parser.DvbParser

/-!
# The region buffers of the DVB context

What holds of every region of the context, whatever its display list: a property `P`
of regions that new regions have, that a region segment keeps and that storing a
block keeps is kept by every event (`regions_exec`).  There are two such properties.

* `Sized`: the buffer is as large as the region.  With it every string that the pixel
  readers store lies in the buffer, `region_writes_run`.
* `InDepth`: the buffer holds values the region's depth has room for.  A region segment
  that keeps the buffer can break it, by lowering the depth; in a run where none does,
  every index looked up in a CLUT is inside the table, `clut_lookups_run`.
-/

namespace AmlSubtitle
namespace Dvb

open DVBSubContext DVBSubRegion

/-- Every region of the context satisfies `P`. -/
def AllRegions (P : DVBSubRegion → Prop) (ctx : DVBSubContext) : Prop :=
  ∀ region ∈ ctx.regionList, P region

/-! ## Display lists do not matter -/

theorem regionList_unlinkFromObject (ctx : DVBSubContext) (p : ℕ)
    (display : DVBSubObjectDisplay) :
    (ctx.unlinkFromObject p display).regionList = ctx.regionList := by
  have hdrop : ∀ (ctx : DVBSubContext) k, (ctx.dropEmptyObject k).regionList = ctx.regionList := by
    intro ctx k
    rw [dropEmptyObject]
    split
    · rfl
    · split <;> rfl
  rw [unlinkFromObject]
  split
  · rfl
  · split
    · rename_i link _
      rw [hdrop]
      cases link <;> rfl
    · rfl
    · rfl

theorem regionList_deleteRegionDisplayList (fuel : ℕ) (ctx : DVBSubContext) (q : Option ℕ) :
    (deleteRegionDisplayList fuel ctx q).regionList = ctx.regionList := by
  induction fuel generalizing ctx q with
  | zero => cases q <;> rfl
  | succ fuel ih =>
    cases q with
    | none => rfl
    | some p =>
      rw [deleteRegionDisplayList]
      split
      · rfl
      · rw [ih]
        exact regionList_unlinkFromObject _ _ _

theorem regionList_deleteRegionsLoop (regions : List DVBSubRegion) (ctx : DVBSubContext) :
    (deleteRegionsLoop regions ctx).regionList = [] := by
  induction regions generalizing ctx with
  | nil => rfl
  | cons region rest ih => exact ih _

theorem regionList_pageRegions (buf : Source) (bufEnd fuel i : ℕ)
    (tmp : List DVBSubRegionDisplay) (ctx : DVBSubContext) :
    (pageRegions buf bufEnd fuel i tmp ctx).regionList = ctx.regionList := by
  induction fuel generalizing i tmp ctx with
  | zero => rfl
  | succ fuel ih =>
    rw [pageRegions]
    split
    · exact ih _ _ _
    · rfl

/-- A page segment deletes all regions or none. -/
theorem regionList_parsePageSegment (ctx : DVBSubContext) (buf : Source) (bufSize : ℕ) :
    (ctx.parsePageSegment buf bufSize).regionList = ctx.regionList ∨
      (ctx.parsePageSegment buf bufSize).regionList = [] := by
  rw [parsePageSegment]
  split
  · exact Or.inl rfl
  · have hpage := regionList_pageRegions buf bufSize bufSize 2 (ctx.startPage buf).displayList
      { ctx.startPage buf with displayList := [], displayListSize := 0 }
    rw [hpage]
    show (ctx.startPage buf).regionList = _ ∨ (ctx.startPage buf).regionList = _
    rw [startPage]
    split
    · exact Or.inr (regionList_deleteRegionsLoop _ _)
    · exact Or.inl rfl

section Regions

variable {P : DVBSubRegion → Prop} {ctx : DVBSubContext}

/-- A write to a region. -/
theorem AllRegions.modifyRegion (h : AllRegions P ctx) {regionId : ℕ}
    {f : DVBSubRegion → DVBSubRegion}
    (hf : ∀ region, ctx.getRegion regionId = some region → P region → P (f region)) :
    AllRegions P (ctx.modifyRegion regionId f) := by
  intro region hmem
  rcases Keyed.mem_modify hmem with hmem | ⟨region', hget, rfl⟩
  · exact h region hmem
  · exact hf region' hget (h region' (Keyed.mem_of_get hget))

theorem AllRegions.addRegion (h : AllRegions P ctx)
    (hnew : ∀ regionId, P (DVBSubRegion.new regionId)) (regionId : ℕ) :
    AllRegions P (ctx.addRegion regionId) := by
  rw [DVBSubContext.addRegion]
  split
  · intro region hmem
    rcases List.mem_cons.mp hmem with rfl | hmem
    · exact hnew regionId
    · exact h region hmem
  · exact h

variable (hlist : ∀ region displays, P region → P { region with displayList := displays })

include hlist

theorem AllRegions.regionDisplays (h : AllRegions P ctx) (buf : Source)
    (bufEnd regionId fuel i : ℕ) :
    AllRegions P (DVBSubContext.regionDisplays buf bufEnd regionId fuel i ctx) := by
  induction fuel generalizing ctx i with
  | zero => exact h
  | succ fuel ih =>
    rw [DVBSubContext.regionDisplays]
    split
    · refine ih ?_ _
      have hadd : ∀ objectId type, (ctx.addObject objectId type).regionList = ctx.regionList := by
        intro objectId type
        rw [addObject]
        split <;> rfl
      have hobject : ∀ objectId type, AllRegions P (ctx.addObject objectId type) := by
        intro objectId type
        rw [AllRegions, hadd]
        exact h
      exact (hobject _ _).modifyRegion fun region _ hregion => hlist region _ hregion
    · exact h

/-- A region segment. -/
theorem AllRegions.parseRegionSegment (h : AllRegions P ctx)
    (hnew : ∀ regionId, P (DVBSubRegion.new regionId)) (buf : Source) (bufSize : ℕ)
    (hparse : ∀ region, (ctx.addRegion (buf 0).toNat).getRegion (buf 0).toNat = some region →
      10 ≤ bufSize → P region → P (regionOf region buf).1) :
    AllRegions P (ctx.parseRegionSegment buf bufSize) := by
  have hadd := h.addRegion hnew (buf 0).toNat
  by_cases hsize : bufSize < 10
  · rw [DVBSubContext.parseRegionSegment, if_pos hsize]
    exact h
  · cases hregion : (ctx.addRegion (buf 0).toNat).getRegion (buf 0).toNat with
    | none =>
      rw [DVBSubContext.parseRegionSegment, if_neg hsize]
      dsimp only
      rw [hregion]
      exact hadd
    | some region =>
      rw [parseRegionSegment_eq hsize hregion]
      have hP := hparse region hregion (not_lt.mp hsize)
        (hadd region (Keyed.mem_of_get hregion))
      obtain ⟨parsed, hparsed⟩ : ∃ parsed, regionOf region buf = parsed := ⟨_, rfl⟩
      rw [hparsed] at hP ⊢
      split
      · refine AllRegions.regionDisplays hlist ?_ _ _ _ _ _
        rw [AllRegions, regionList_deleteRegionDisplayList]
        exact hadd.modifyRegion fun _ _ _ => hlist _ _ hP
      · exact hadd.modifyRegion fun _ _ _ => hP

end Regions

/-! ## Blocks -/

/-- Storing any block keeps `P`, and what is stored satisfies `S`. -/
def KeptByBlocks (P : DVBSubRegion → Prop) (S : RegionStore → Prop) : Prop :=
  ∀ region display source buf bufSize top_bottom nonMod, P region →
    P { region with
      pbuf := storeAll region.pbuf
        (pixelBlock region display source buf bufSize top_bottom nonMod).1 } ∧
    ∀ store ∈ (pixelBlock region display source buf bufSize top_bottom nonMod).1,
      S { region := region, store := store }

section Blocks

variable {P : DVBSubRegion → Prop} {S : RegionStore → Prop} {ctx : DVBSubContext}

theorem AllRegions.parsePixelDataBlock (h : AllRegions P ctx) (hblock : KeptByBlocks P S)
    (display : DVBSubObjectDisplay) (source : Source) (buf bufSize top_bottom nonMod : ℕ) :
    AllRegions P (Dvb.parsePixelDataBlock ctx display source buf bufSize top_bottom nonMod).ctx ∧
      ∀ s ∈ (Dvb.parsePixelDataBlock ctx display source buf bufSize top_bottom nonMod).stores,
        S s := by
  rw [Dvb.parsePixelDataBlock]
  cases hregion : ctx.getRegion display.regionId with
  | none => exact ⟨h, fun _ hs => by cases hs⟩
  | some region =>
    have hP := h region (Keyed.mem_of_get hregion)
    obtain ⟨hstored, hS⟩ := hblock region display source buf bufSize top_bottom nonMod hP
    constructor
    · refine h.modifyRegion fun region' hregion' _ => ?_
      obtain rfl := Option.some_inj.mp (hregion.symm.trans hregion')
      exact hstored
    · intro s hs
      obtain ⟨store, hstore, rfl⟩ := List.mem_map.mp hs
      exact hS store hstore

theorem AllRegions.objectFields (h : AllRegions P ctx) (hblock : KeptByBlocks P S)
    (source : Source) (buf topFieldLen nonMod fuel : ℕ) (q : Option ℕ) (bottomFieldLen : ℕ) :
    AllRegions P
        (Dvb.objectFields source buf topFieldLen nonMod fuel ctx q bottomFieldLen).ctx ∧
      ∀ s ∈ (Dvb.objectFields source buf topFieldLen nonMod fuel ctx q bottomFieldLen).stores,
        S s := by
  have hnone : ∀ s ∈ ([] : List RegionStore), S s := fun _ hs => by cases hs
  induction fuel generalizing ctx q bottomFieldLen with
  | zero => cases q <;> exact ⟨h, hnone⟩
  | succ fuel ih =>
    cases q with
    | none => exact ⟨h, hnone⟩
    | some p =>
      rw [Dvb.objectFields]
      cases ctx.displays p with
      | none => exact ⟨h, hnone⟩
      | some display =>
        dsimp only
        obtain ⟨htop, htopS⟩ := h.parsePixelDataBlock hblock display source buf topFieldLen
          TOP_FIELD nonMod
        split
        · exact ⟨htop, htopS⟩
        · obtain ⟨hbottom, hbottomS⟩ := htop.parsePixelDataBlock hblock display source
            (bottomField buf topFieldLen bottomFieldLen).1
            (bottomField buf topFieldLen bottomFieldLen).2 BOTTOM_FIELD nonMod
          have hboth := List.forall_mem_append.mpr ⟨htopS, hbottomS⟩
          split
          · exact ⟨hbottom, hboth⟩
          · obtain ⟨hrest, hrestS⟩ := ih hbottom display.objectListNext
              (bottomField buf topFieldLen bottomFieldLen).2
            exact ⟨hrest, List.forall_mem_append.mpr ⟨hboth, hrestS⟩⟩

theorem AllRegions.parseObjectSegment (h : AllRegions P ctx) (hblock : KeptByBlocks P S)
    (source : Source) (bufSize : ℕ) :
    AllRegions P (Dvb.parseObjectSegment ctx source bufSize).ctx ∧
      ∀ s ∈ (Dvb.parseObjectSegment ctx source bufSize).stores, S s := by
  have hnone : ∀ s ∈ ([] : List RegionStore), S s := fun _ hs => by cases hs
  rw [Dvb.parseObjectSegment]
  cases ctx.getObject (AV_RB16 source 0) with
  | none => exact ⟨h, hnone⟩
  | some object =>
    dsimp only
    split_ifs
    · exact ⟨h, hnone⟩
    · exact h.objectFields hblock _ _ _ _ _ _ _
    · exact ⟨h, hnone⟩

end Blocks

/-! ## Events -/

/-- The segment is decoded as a region segment, for that region. -/
structure ParsesRegion (ctx : DVBSubContext) (segment : Segment) (region : DVBSubRegion) :
    Prop where
  isRegion : segment.segmentType = DVBSUB_REGION_SEGMENT
  follows : followsPage ctx segment.pageId
  whole : 10 ≤ segment.segmentLength
  get : (ctx.addRegion (segment.buf 0).toNat).getRegion (segment.buf 0).toNat = some region

/-- **What every event keeps.**  A property of regions that does not see the display list,
that new regions have and that storing blocks keeps is kept by an event, if a region
segment among the events keeps it. -/
theorem AllRegions.exec {P : DVBSubRegion → Prop} {S : RegionStore → Prop}
    (hlist : ∀ region displays, P region → P { region with displayList := displays })
    (hnew : ∀ regionId, P (DVBSubRegion.new regionId)) (hblock : KeptByBlocks P S)
    {ctx : DVBSubContext} (h : AllRegions P ctx) (event : Event)
    (hparse : ∀ spu segment region, event = .segment spu segment →
      ParsesRegion ctx segment region → P region → P (regionOf region segment.buf).1) :
    AllRegions P (Dvb.exec ctx event) := by
  cases event with
  | updateParameter compositionId ancillaryId =>
    rw [Dvb.exec, updateParameter]
    split <;> exact h
  | segment spu segment =>
    rw [Dvb.exec]
    rcases decodeSegment_cases ctx spu segment with
      ⟨displays, heq⟩ | ⟨displays, heq⟩ | ⟨htype, hpage, heq⟩ | heq | heq | heq
    · rw [heq]
      exact h
    · rw [heq]
      show ∀ region ∈ (ctx.parsePageSegment segment.buf segment.segmentLength).regionList, P region
      rcases regionList_parsePageSegment ctx segment.buf segment.segmentLength with hall | hnil
      · rw [hall]
        exact h
      · rw [hnil]
        exact fun _ hmem => by cases hmem
    · rw [heq]
      refine h.parseRegionSegment hlist hnew _ _ fun region hget hsize hP => ?_
      exact hparse spu segment region rfl ⟨htype, hpage, hsize, hget⟩ hP
    · rw [heq, parseClutSegment]
      exact h
    · rw [heq, parseDisplayDefinitionSegment]
      dsimp only
      split_ifs <;> exact h
    · rw [heq]
      exact (h.parseObjectSegment hblock _ _).1

/-! ## Buffers of the right size -/

/-- The buffer is as large as the region. -/
structure Sized (region : DVBSubRegion) : Prop where
  bufSize : region.bufSize = region.width * region.height
  pbuf : region.pbuf.length = region.width * region.height
  width : region.width < 2 ^ 16

@[simp] theorem length_storeBytes (pbuf : List UInt8) (offset : ℤ) (bytes : List UInt8) :
    (storeBytes pbuf offset bytes).length = pbuf.length := by
  induction bytes generalizing pbuf offset with
  | nil => rfl
  | cons v bytes ih =>
    rw [storeBytes, ih]
    split
    · exact List.length_set
    · rfl

@[simp] theorem length_storeAll (pbuf : List UInt8) (stores : List PixelStore) :
    (storeAll pbuf stores).length = pbuf.length := by
  induction stores generalizing pbuf with
  | nil => rfl
  | cons store stores ih =>
    rw [storeAll, List.foldl_cons]
    exact (ih _).trans (length_storeBytes _ _ _)

/-- The string lies in the buffer of a region of the right size. -/
structure SafeStore (s : RegionStore) : Prop where
  sized : Sized s.region
  within : s.store.Within s.region.bufSize

theorem sized_new (regionId : ℕ) : Sized (DVBSubRegion.new regionId) :=
  ⟨rfl, rfl, by show 0 < 2 ^ 16; decide⟩

theorem sized_blocks : KeptByBlocks Sized SafeStore := by
  intro region display source buf bufSize top_bottom nonMod h
  refine ⟨⟨h.bufSize, (length_storeAll _ _).trans h.pbuf, h.width⟩, fun store hstore => ?_⟩
  exact ⟨h, pixelBlock_within h.bufSize (h.width.trans (by decide)) store hstore⟩

/-- The area of a region segment is an `int`. -/
theorem area_setSize (region : DVBSubRegion) {buf : Source}
    (harea : AV_RB16 buf 2 * AV_RB16 buf 4 < 2 ^ 31) :
    (region.setSize buf).area = (AV_RB16 buf 2 : ℤ) * AV_RB16 buf 4 := by
  have hint : ∀ n < 2 ^ 31, Words.asSigned 32 (n : ℕ) = n :=
    fun n hn => Words.asSigned_of_lt (by omega)
  have hsigned := hint _ harea
  push_cast at hsigned
  exact (area_eq _).trans hsigned

/-- A filled buffer of the size of the region's area. -/
theorem sized_fill {region : DVBSubRegion} (hsize : region.bufSize = region.width * region.height)
    (hwidth : region.width < 2 ^ 16) : Sized region.fill := by
  refine ⟨hsize, ?_, hwidth⟩
  show (List.replicate region.bufSize.toNat _).length = _
  rw [List.length_replicate, hsize]
  exact_mod_cast Int.toNat_natCast (region.width * region.height)

theorem sized_regionOf {region : DVBSubRegion} {buf : Source} (h : Sized region)
    (harea : AV_RB16 buf 2 * AV_RB16 buf 4 < 2 ^ 31) : Sized (regionOf region buf).1 := by
  have harea' := area_setSize region harea
  have hwidth : AV_RB16 buf 2 < 2 ^ 16 := AV_RB16_lt buf 2
  have hnonneg : ¬ (region.setSize buf).area < 0 := by
    rw [harea', not_lt]
    exact_mod_cast Nat.zero_le _
  rw [regionOf, if_neg hnonneg]
  split_ifs with hsame hfill
  · refine sized_fill ?_ hwidth
    rw [setHeader_bufSize, reallocate_bufSize, harea']
    rfl
  · rw [ne_eq, not_not, harea'] at hsame
    exact sized_fill hsame.symm hwidth
  · -- the buffer stays, and so does its size
    rw [ne_eq, not_not, harea'] at hsame
    have hlen : (region.pbuf.length : ℤ) = AV_RB16 buf 2 * AV_RB16 buf 4 := by
      rw [hsame, h.pbuf]
      push_cast
      exact h.bufSize.symm
    exact ⟨hsame.symm, by exact_mod_cast hlen, hwidth⟩

/-- The area of the region of a region segment is an `int`. -/
def IntArea : Event → Prop
  | .segment _ segment => segment.segmentType = DVBSUB_REGION_SEGMENT →
      AV_RB16 segment.buf 2 * AV_RB16 segment.buf 4 < 2 ^ 31
  | .updateParameter _ _ => True

theorem sized_exec (ctx : DVBSubContext) (event : Event) (h : AllRegions Sized ctx)
    (harea : IntArea event) : AllRegions Sized (exec ctx event) := by
  refine h.exec (fun _ _ hsized => ⟨hsized.bufSize, hsized.pbuf, hsized.width⟩) sized_new
    sized_blocks event ?_
  rintro spu segment region rfl hparses hsized
  exact sized_regionOf hsized (harea hparses.isRegion)

/-- **Every byte the pixel readers store lies in the region's buffer.**  In every context
that a run reaches whose region segments all have an area that is an `int`, every region's
buffer has the size of its area; and whatever block is decoded next, for whatever display,
and whatever object segment, each string stored lies in `[0, bufSize)` of its region. -/
theorem region_writes_run (events : List Event) (harea : ∀ event ∈ events, IntArea event) :
    AllRegions Sized (events.foldl exec init) ∧
      (∀ display source buf bufSize top_bottom nonMod,
        ∀ s ∈ (parsePixelDataBlock (events.foldl exec init) display source buf bufSize top_bottom
          nonMod).stores, SafeStore s) ∧
      ∀ source bufSize,
        ∀ s ∈ (parseObjectSegment (events.foldl exec init) source bufSize).stores,
          SafeStore s := by
  have hinit : AllRegions Sized init := fun _ hmem => by cases hmem
  have hsized : AllRegions Sized (events.foldl exec init) :=
    Run.invariant_of_meets (C := fun _ event => IntArea event) sized_exec hinit
      (Run.meets_of_forall harea) (Run.reached_last init events)
  refine ⟨hsized, fun display source buf bufSize top_bottom nonMod => ?_, fun source bufSize => ?_⟩
  · exact (hsized.parsePixelDataBlock sized_blocks _ _ _ _ _ _).2
  · exact (hsized.parseObjectSegment sized_blocks _ _).2

/-- A segment of page 1 with a payload. -/
def segmentOf (segmentType : ℕ) (payload : List UInt8) : Segment where
  segmentType := segmentType
  pageId := 1
  segmentLength := payload.length
  buf := sourceOf payload

/-- An item nothing has been put into. -/
def emptySpu : DvbSpu := {}

/-- A region of four by two pixels of depth 8 that shows object 7. -/
def oneObject : List Event :=
  [.segment emptySpu (segmentOf DVBSUB_REGION_SEGMENT
    [1, 8, 0, 4, 0, 2, 0x0c, 0, 0x11, 0, 0, 7, 0, 1, 0, 0])]

/-- Object 7 with a 2-bit string of three pixels in both fields. -/
def threePixels : List UInt8 := [0, 7, 0, 0, 4, 0, 0, 0x10, 0x6c, 0x00, 0xf0]

/-- Two strings are stored for the object, and both lie in the region's buffer. -/
theorem region_writes_run_one_object :
    (parseObjectSegment (oneObject.foldl exec init) (sourceOf threePixels) 11).stores.map
        RegionStore.store = [⟨1, [0x77, 0x88, 0xff]⟩, ⟨5, [0x77, 0x88, 0xff]⟩] ∧
      ∀ s ∈ (parseObjectSegment (oneObject.foldl exec init) (sourceOf threePixels) 11).stores,
        SafeStore s :=
  ⟨by decide +kernel, (region_writes_run oneObject (by
    intro event hmem
    rw [List.mem_singleton.mp hmem]
    intro _
    decide +kernel)).2.2 (sourceOf threePixels) 11⟩

/-! ## Values of the right depth -/

/-- The buffer holds values the depth has room for; it is only without a depth while it
is empty. -/
structure InDepth (region : DVBSubRegion) : Prop where
  pixels : ∀ v ∈ region.pbuf, v.toNat < 2 ^ region.depth
  depth : region.pbuf = [] ∨ IsDepth region.depth

theorem inDepth_of_nil {region : DVBSubRegion} (h : region.pbuf = []) : InDepth region :=
  ⟨fun v hv => absurd hv (by rw [h]; exact List.not_mem_nil), Or.inl h⟩

/-- What is in a buffer after a string was there before, or is of the string. -/
theorem mem_storeBytes {pbuf bytes : List UInt8} {offset : ℤ} {v : UInt8}
    (h : v ∈ storeBytes pbuf offset bytes) : v ∈ pbuf ∨ v ∈ bytes := by
  induction bytes generalizing pbuf offset with
  | nil => exact Or.inl h
  | cons b bytes ih =>
    rw [storeBytes] at h
    rcases ih h with h | h
    · split at h
      · rcases List.mem_or_eq_of_mem_set h with h | rfl
        · exact Or.inl h
        · exact Or.inr List.mem_cons_self
      · exact Or.inl h
    · exact Or.inr (List.mem_cons_of_mem _ h)

theorem mem_storeAll {pbuf : List UInt8} {stores : List PixelStore} {v : UInt8}
    (h : v ∈ storeAll pbuf stores) : v ∈ pbuf ∨ ∃ store ∈ stores, v ∈ store.bytes := by
  induction stores generalizing pbuf with
  | nil => exact Or.inl h
  | cons store stores ih =>
    rw [storeAll, List.foldl_cons] at h
    rcases ih h with h | ⟨store', hmem, hv⟩
    · rcases mem_storeBytes h with h | h
      · exact Or.inl h
      · exact Or.inr ⟨store, List.mem_cons_self, h⟩
    · exact Or.inr ⟨store', List.mem_cons_of_mem _ hmem, hv⟩

theorem inDepth_blocks : KeptByBlocks InDepth fun _ => True := by
  intro region display source buf bufSize top_bottom nonMod h
  refine ⟨?_, fun _ _ => trivial⟩
  rcases h.depth with hnil | hdepth
  · refine inDepth_of_nil (List.length_eq_zero_iff.mp ?_)
    rw [length_storeAll, hnil, List.length_nil]
  · refine ⟨fun v hv => ?_, Or.inr hdepth⟩
    rcases mem_storeAll hv with hv | ⟨store, hstore, hv⟩
    · exact h.pixels v hv
    · exact pixelBlock_colours hdepth store hstore v hv

theorem inDepth_fill (region : DVBSubRegion) (buf : Source) :
    InDepth (region.setHeader buf).fill := by
  refine ⟨fun v hv => ?_, Or.inr (isDepth_depthOf buf)⟩
  rw [List.eq_of_mem_replicate hv, UInt8.toNat_ofNat']
  exact lt_of_le_of_lt (Nat.mod_le _ _) (bgcolorOf_lt buf)

/-- A region segment that keeps the buffer of its region keeps to a depth that has room
for the values in it. -/
def KeepsDepth (ctx : DVBSubContext) : Event → Prop
  | .segment _ segment => ∀ region, ParsesRegion ctx segment region →
      (region.setSize segment.buf).area = region.bufSize → fillFlag segment.buf = false →
        ∀ v ∈ region.pbuf, v.toNat < 2 ^ depthOf segment.buf
  | .updateParameter _ _ => True

theorem inDepth_regionOf {region : DVBSubRegion} {buf : Source}
    (hkeep : (region.setSize buf).area = region.bufSize → fillFlag buf = false →
      ∀ v ∈ region.pbuf, v.toNat < 2 ^ depthOf buf) : InDepth (regionOf region buf).1 := by
  rw [regionOf]
  split_ifs with hsame hneg hfill
  · refine inDepth_of_nil ?_
    show List.replicate (region.setSize buf).area.toNat 0 = []
    rw [Int.toNat_of_nonpos hneg.le, List.replicate_zero]
  · exact inDepth_fill _ _
  · exact inDepth_fill _ _
  · rw [ne_eq, not_not] at hsame
    rw [Bool.not_eq_true] at hfill
    exact ⟨hkeep hsame hfill, Or.inr (isDepth_depthOf buf)⟩

theorem inDepth_exec (ctx : DVBSubContext) (event : Event) (h : AllRegions InDepth ctx)
    (hkeep : KeepsDepth ctx event) : AllRegions InDepth (exec ctx event) := by
  refine h.exec (fun _ _ hdepth => ⟨hdepth.pixels, hdepth.depth⟩) (fun _ => inDepth_of_nil rfl)
    inDepth_blocks event ?_
  rintro spu segment region rfl hparses _
  exact inDepth_regionOf (hkeep region hparses)

/-- A region of values within its depth is looked up inside the table of that depth. -/
theorem lookup_lt {c : Composition} (h : InDepth c.region) {index : ℕ} (hmem : index ∈ c.lookups) :
    index < (clutTable c.region.depth).size := by
  obtain ⟨cell, _, rfl⟩ := List.mem_map.mp hmem
  have hpositive : 0 < (clutTable c.region.depth).size := by
    rw [clutTable]
    split_ifs <;> decide
  rw [Composition.pixel, List.getD_eq_getElem?_getD]
  cases hget : c.region.pbuf[cell.1 * c.region.width + cell.2]? with
  | none => exact hpositive
  | some v =>
    have hv := List.mem_of_getElem? hget
    have hlt := h.pixels v hv
    rcases h.depth with hnil | hdepth | hdepth | hdepth
    · rw [hnil] at hv
      cases hv
    all_goals
      rw [hdepth] at hlt ⊢
      exact hlt

/-- **The CLUT is looked up inside its tables.**  In a run in which no region segment keeps
the buffer of its region and sets a depth that has no room for a value in it, whatever
segment comes next: every region that is composed holds values below `2 ^ depth` only, and
each of them is an index of the table of that depth. -/
theorem clut_lookups_run {events : List Event} (hkeep : Run.Meets exec KeepsDepth init events)
    {ctx : DVBSubContext} (hctx : Run.Reached exec init events ctx) (spu : DvbSpu)
    (segment : Segment) :
    ∀ c ∈ (decodeSegment ctx spu segment).composed,
      (∀ v ∈ c.region.pbuf, v.toNat < 2 ^ c.region.depth) ∧
        ∀ index ∈ c.lookups, index < (clutTable c.region.depth).size := by
  have hinit : AllRegions InDepth init := fun _ hmem => by cases hmem
  have hdepth : AllRegions InDepth ctx := Run.invariant_of_meets inDepth_exec hinit hkeep hctx
  intro c hc
  have hregion : InDepth c.region := by
    rcases decodeSegment_composed ctx spu segment with hnone | ⟨ctx', spu', hctx', heq⟩
    · rw [hnone] at hc
      cases hc
    · rw [heq] at hc
      have hmem := (mem_composed hc).1
      rcases hctx' with rfl | rfl
      · exact hdepth _ hmem
      · rcases regionList_parsePageSegment ctx segment.buf segment.segmentLength with hall | hnil
        · rw [hall] at hmem
          exact hdepth _ hmem
        · rw [hnil] at hmem
          cases hmem
  exact ⟨hregion.pixels, fun index hindex => lookup_lt hregion hindex⟩

/-- A page that shows region 1. -/
def showRegion : Segment := segmentOf DVBSUB_PAGE_SEGMENT [5, 0, 1, 0, 0, 0, 0, 0]

/-- A region of one pixel of depth 8 and value 255, and its CLUT. -/
def brightPixel : List Event :=
  [.segment emptySpu (segmentOf DVBSUB_REGION_SEGMENT [1, 8, 0, 1, 0, 1, 0x0c, 0, 0xff, 0]),
    .segment emptySpu (segmentOf DVBSUB_CLUT_SEGMENT [0, 0])]

theorem brightPixel_keepsDepth : Run.Meets exec KeepsDepth init brightPixel := by
  refine ⟨?_, ?_, trivial⟩
  · intro region _ _ hfill
    exact absurd hfill (by decide)
  · intro region hparses
    exact absurd hparses.isRegion (by decide)

/-- The region is composed, and its pixel is looked up in the table of 256 colours. -/
theorem clut_lookups_run_bright_pixel :
    (decodeSegment (brightPixel.foldl exec init) emptySpu showRegion).composed.map
        (fun c => (c.region.depth, c.lookups)) = [(8, [255])] ∧
      ∀ c ∈ (decodeSegment (brightPixel.foldl exec init) emptySpu showRegion).composed,
        (∀ v ∈ c.region.pbuf, v.toNat < 2 ^ c.region.depth) ∧
          ∀ index ∈ c.lookups, index < (clutTable c.region.depth).size :=
  ⟨by decide +kernel, clut_lookups_run brightPixel_keepsDepth (Run.reached_last _ _) emptySpu
    showRegion⟩

/-- The same, with the depth lowered to 2 afterwards; the buffer is kept. -/
def loweredDepth : List Event :=
  brightPixel ++
    [.segment emptySpu (segmentOf DVBSUB_REGION_SEGMENT [1, 0, 0, 1, 0, 1, 0x04, 0, 0, 0])]

/-- The pixel of value 255 is looked up in the table of four colours. -/
theorem not_clut_lookups_lowered_depth :
    ¬ ∀ (events : List Event) (spu : DvbSpu) (segment : Segment),
      ∀ c ∈ (decodeSegment (events.foldl exec init) spu segment).composed,
        (∀ v ∈ c.region.pbuf, v.toNat < 2 ^ c.region.depth) ∧
          ∀ index ∈ c.lookups, index < (clutTable c.region.depth).size := by
  intro h
  have hrun := h loweredDepth emptySpu showRegion
  have hcomposed : (decodeSegment (loweredDepth.foldl exec init) emptySpu
      showRegion).composed.map (fun c => ((clutTable c.region.depth).size, c.lookups)) =
        [(4, [255])] := by decide +kernel
  obtain ⟨c, hc, hlookup⟩ := List.mem_map.mp (hcomposed ▸ List.mem_singleton.mpr rfl :
    (4, [255]) ∈ (decodeSegment (loweredDepth.foldl exec init) emptySpu
      showRegion).composed.map fun c => ((clutTable c.region.depth).size, c.lookups))
  rw [Prod.mk.injEq] at hlookup
  have hlt := (hrun c hc).2 255 (by rw [hlookup.2]; exact List.mem_singleton.mpr rfl)
  rw [hlookup.1] at hlt
  omega

end Dvb
end AmlSubtitle
