import AmlSubtitle.Lib.Lockstep
import AmlSubtitle.Parser.PgsRender
import AmlSubtitle.Parser.PgsShared

/-!
# PGS epochs

A presentation composition with a state other than normal flushes the context.  Two parsers
that flush at the same segment and read the same segments afterwards are compared.

* `Epoch`: what was defined since the flush, the colours of each palette slot and the
  references.
* `Agree`: two contexts agree on what was defined since the flush.
* `Defined`: a segment is not read past its end, and at the end of a display set only what
  was defined since the flush is rendered.
* `epoch_run`: in runs that meet this the display sets have the same items, whatever the
  parsers have read before.
-/

namespace AmlSubtitle
namespace Pgs

/-! ## What was defined since the flush -/

/-- The colours of each palette slot and the references that were defined. -/
structure Epoch where
  colours : ℕ → UInt8 → Bool
  refs : ℕ → Bool

/-- After a flush nothing is defined. -/
def Epoch.empty : Epoch := ⟨fun _ _ => false, fun _ => false⟩

/-- The composition of a segment. -/
def composed (ctx : PGSSubContext) (segment : Segment) : Composed :=
  compose segment.buf segment.length { ctx.presentation with pts := segment.pts }

/-- What is still defined when a composition starts. -/
def Epoch.begin (epoch : Epoch) (segment : Segment) : Epoch :=
  if compositionState segment.buf ≠ 0 then .empty else epoch

/-- What is defined after a segment. -/
def Epoch.next (epoch : Epoch) (parser : PgsParser) (segment : Segment) : Epoch :=
  let ctx := parser.mPgsContext
  if segment.type = PRESENTATION_COMPOSITION_SEGMENT then
    let epoch := epoch.begin segment
    { epoch with refs := withFirst epoch.refs (composed ctx segment).refs }
  else if segment.type = PALETTE_DEFINITION_SEGMENT then
    { epoch with colours := coloursAfter epoch.colours ctx segment.buf segment.length }
  else
    epoch

/-- Two contexts agree on what was defined. -/
structure Agree (epoch : Epoch) (ctx ctx' : PGSSubContext) : Prop where
  presentation : SamePresentation epoch.refs ctx.presentation ctx'.presentation
  palettes : SamePalettes epoch.colours ctx.palettes ctx'.palettes
  objects : SameObjects ctx.objects ctx'.objects

/-! ## Rendering -/

/-- The data of an object is complete, and there is memory for its pixels. -/
def Decodable (object : PGSSubObject) : Prop :=
  object.rle ≠ [] ∧ object.rleRemainingLen = 0 ∧ 0 ≤ decodedRleSize object

instance (object : PGSSubObject) : Decidable (Decodable object) :=
  inferInstanceAs (Decidable (_ ∧ _ ∧ _))

/-- The data is not read past its end, and the colours of the pixels are among `colours`. -/
def Rendered (colours : UInt8 → Bool) (object : PGSSubObject) : Prop :=
  let decoded := decodeRle object.rle (fun _ => 0) object.w object.h
  decoded.reach ≤ object.rle.length ∧
    (decoded.ok → 0 ≤ bitmapSize object → ∀ c ∈ decoded.pixels, colours c)

instance (colours : UInt8 → Bool) (object : PGSSubObject) : Decidable (Rendered colours object) :=
  inferInstanceAs (Decidable (_ ∧ (_ → _ → ∀ c ∈ _, _)))

/-- The references from the `i`th on, `n` of them, are rendered with the palette in the slot
`j` from what was defined.  Where an object is not decodable nothing further is rendered. -/
def RendersFrom (epoch : Epoch) (ctx : PGSSubContext) (j : ℕ) : ℕ → ℕ → Prop
  | 0, _ => True
  | n + 1, i =>
    epoch.refs i = true ∧
      (∀ k ∈ findObject (ctx.presentation.objects i).id ctx.objects,
        Decodable (ctx.objects.object k) →
          Rendered (epoch.colours j) (ctx.objects.object k)) ∧
      ((∀ k ∈ findObject (ctx.presentation.objects i).id ctx.objects,
        Decodable (ctx.objects.object k)) → RendersFrom epoch ctx j n (i + 1))

instance decidableRendersFrom (epoch : Epoch) (ctx : PGSSubContext) (j : ℕ) :
    ∀ n i, Decidable (RendersFrom epoch ctx j n i)
  | 0, _ => inferInstanceAs (Decidable True)
  | n + 1, i =>
    have := decidableRendersFrom epoch ctx j n (i + 1)
    inferInstanceAs (Decidable (_ ∧ (∀ k ∈ findObject _ _, _) ∧ (_ → _)))

/-- A display set is rendered from what was defined. -/
def Renders (epoch : Epoch) (ctx : PGSSubContext) : Prop :=
  ∀ j ∈ findPalette ctx.presentation.paletteId ctx.palettes,
    RendersFrom epoch ctx j ctx.presentation.objectCount 0

instance (epoch : Epoch) (ctx : PGSSubContext) : Decidable (Renders epoch ctx) :=
  inferInstanceAs (Decidable (∀ j ∈ findPalette _ _, _))

/-- Two display sets have the same items, whatever is in the memory behind the data.  How
many objects were on the screen before has no effect on the images that are shown, but
decides whether items that clear the screen are posted in front of them. -/
structure SameItems (ctx ctx' : PGSSubContext) : Prop where
  shown : ∀ behind behind',
    (decodeRleAndRenderBitmap ctx behind).map (fun rects => shownItems ctx rects true) =
      (decodeRleAndRenderBitmap ctx' behind').map (fun rects => shownItems ctx' rects true)
  posted : ∀ behind behind' mPreviousObjectNum,
    decodedItems ctx behind mPreviousObjectNum = decodedItems ctx' behind' mPreviousObjectNum

section Render

variable {epoch : Epoch} {ctx ctx' : PGSSubContext} {argb argb' : UInt8 → ℕ}
  {colours : UInt8 → Bool} {ref ref' : PGSSubObjectRef} {object object' : PGSSubObject}
  {rect rect' : AVSubtitleRect} {i j n : ℕ}

/-- The next reference is rendered when an object was decodable. -/
theorem decodable_of_renderObject {behind : Source}
    (h : renderObject argb i ref object behind rect = some (rect', true)) : Decodable object := by
  unfold renderObject at h
  dsimp only at h
  split_ifs at h with hrle hleft hsize
  · cases h
  · cases h
  · exact ⟨hrle, not_not.mp hleft, not_lt.mp hsize⟩
  · exact ⟨hrle, not_not.mp hleft, not_lt.mp hsize⟩

theorem renderRle2Bitmap_same (hargb : ∀ c, colours c → argb c = argb' c) {pixels : List UInt8}
    (hpixels : 0 ≤ bitmapSize object → ∀ c ∈ pixels, colours c) :
    renderRle2Bitmap argb object pixels = renderRle2Bitmap argb' object pixels := by
  unfold renderRle2Bitmap
  split_ifs with hsize
  · rfl
  · refine congrArg some (List.flatMap_congr fun c hc => ?_)
    rw [hargb c (hpixels (not_lt.mp hsize) c hc)]

/-- **One object** is rendered alike from the same reference, data and colours. -/
theorem renderObject_same (i : ℕ) (rect : AVSubtitleRect) (href : SameRef ref ref')
    (hobject : SameObject object object') (hargb : ∀ c, colours c → argb c = argb' c)
    (hrendered : Decodable object → Rendered colours object) (behind behind' : Source) :
    renderObject argb i ref object behind rect =
      renderObject argb' i ref' object' behind' rect := by
  unfold renderObject
  dsimp only
  rw [← href.x_eq, ← href.y_eq, ← hobject.rle_eq, ← hobject.rleRemainingLen_eq]
  by_cases hrle : object.rle = []
  · rw [if_pos hrle, if_pos hrle]
  obtain ⟨hw, hh, -⟩ := hobject.size_eq hrle
  have hsizes : decodedRleSize object' = decodedRleSize object := by
    rw [decodedRleSize, decodedRleSize, hw, hh]
  have hbitmaps : bitmapSize object' = bitmapSize object := by
    rw [bitmapSize, bitmapSize, hsizes]
  have hrender : ∀ pixels, renderRle2Bitmap argb' object' pixels =
      renderRle2Bitmap argb' object pixels := by
    intro pixels
    rw [renderRle2Bitmap, renderRle2Bitmap, hbitmaps]
  rw [if_neg hrle, if_neg hrle, ← hw, ← hh, hsizes, hbitmaps, hrender]
  by_cases hleft : object.rleRemainingLen ≠ 0
  · rw [if_pos hleft, if_pos hleft]
  rw [if_neg hleft, if_neg hleft]
  by_cases hsize : decodedRleSize object < 0
  · rw [if_pos hsize, if_pos hsize]
  rw [if_neg hsize, if_neg hsize]
  -- the object is decodable, and its data is not read past the end
  obtain ⟨hreach, hpixels⟩ := hrendered ⟨hrle, not_not.mp hleft, not_lt.mp hsize⟩
  rw [decodeRle_congr behind hreach, decodeRle_congr behind' hreach]
  split_ifs with hok
  · rw [renderRle2Bitmap_same hargb (hpixels hok), href.compositionFlag_eq]
  · rfl

/-- **The loop over the references.** -/
theorem renderObjects_same (h : Agree epoch ctx ctx')
    (hargb : ∀ c, epoch.colours j c → argb c = argb' c) (behind behind' : ℕ → Source)
    (hrenders : RendersFrom epoch ctx j n i) (rects : ℕ → AVSubtitleRect) :
    renderObjects ctx argb behind n i rects = renderObjects ctx' argb' behind' n i rects := by
  induction n generalizing i rects with
  | zero => rfl
  | succ n ih =>
    obtain ⟨hknown, hrendered, hnext⟩ := hrenders
    have href := h.presentation.refs_same i hknown
    unfold renderObjects
    rw [← href.id_eq, ← findObject_same h.objects]
    cases hfind : findObject (ctx.presentation.objects i).id ctx.objects with
    | none =>
      refine ih (hnext fun k hk => ?_) rects
      rw [hfind] at hk
      cases hk
    | some k =>
      have hsame := renderObject_same i (rects i) href
        (h.objects.object_same k (find_eq_some hfind).1) hargb (hrendered k hfind) (behind k)
        (behind' k)
      dsimp only
      rw [← hsame]
      cases hrender : renderObject argb i (ctx.presentation.objects i) (ctx.objects.object k)
          (behind k) (rects i) with
      | none => rfl
      | some rendered =>
        obtain ⟨rect, goesOn⟩ := rendered
        dsimp only
        cases goesOn with
        | false => rw [if_neg Bool.false_ne_true, if_neg Bool.false_ne_true]
        | true =>
          rw [if_pos rfl, if_pos rfl]
          refine ih (hnext fun m hm => ?_) _
          rw [hfind, Option.mem_some_iff] at hm
          exact hm ▸ decodable_of_renderObject hrender

/-- A rectangle that is valid is that of an object. -/
theorem isValid_renderObjects {behind : ℕ → Source} {rects rects' : ℕ → AVSubtitleRect}
    (hvalid : ∀ m, (rects m).isValid →
      findObject (ctx.presentation.objects m).id ctx.objects ≠ none)
    (h : renderObjects ctx argb behind n i rects = some rects') (m : ℕ)
    (hm : (rects' m).isValid) : findObject (ctx.presentation.objects m).id ctx.objects ≠ none := by
  induction n generalizing i rects with
  | zero =>
    rw [← Option.some_inj.mp h] at hm
    exact hvalid m hm
  | succ n ih =>
    unfold renderObjects at h
    cases hfind : findObject (ctx.presentation.objects i).id ctx.objects with
    | none =>
      rw [hfind] at h
      exact ih hvalid h
    | some k =>
      rw [hfind] at h
      dsimp only at h
      have hupdate : ∀ rect m, (Function.update rects i rect m).isValid →
          findObject (ctx.presentation.objects m).id ctx.objects ≠ none := by
        intro rect m hm
        by_cases hmi : m = i
        · rw [hmi, hfind]
          exact Option.some_ne_none k
        · rw [Function.update_of_ne hmi] at hm
          exact hvalid m hm
      split at h
      · cases h
      · split_ifs at h
        · exact ih (hupdate _) h
        · rw [← Option.some_inj.mp h] at hm
          exact hupdate _ m hm

/-- No rectangle is valid without its object. -/
theorem isValid_decodeRleAndRenderBitmap {behind : ℕ → Source} {rects : ℕ → AVSubtitleRect}
    (h : decodeRleAndRenderBitmap ctx behind = some rects) (m : ℕ) (hm : (rects m).isValid) :
    findObject (ctx.presentation.objects m).id ctx.objects ≠ none := by
  unfold decodeRleAndRenderBitmap at h
  split at h
  · rw [← Option.some_inj.mp h] at hm
    exact absurd hm Bool.false_ne_true
  · exact isValid_renderObjects (fun _ hzero => absurd hzero Bool.false_ne_true) h m hm

/-- The items are made from the valid rectangles. -/
theorem shownItems_eq {rects : ℕ → AVSubtitleRect} {isImmediatePresent : Bool}
    (h : ∀ m, (rects m).isValid →
      findObject (ctx.presentation.objects m).id ctx.objects ≠ none) :
    shownItems ctx rects isImmediatePresent =
      (List.range ctx.presentation.objectCount).filterMap fun i =>
        if (rects i).isValid then
          some (shownItem ctx.presentation isImmediatePresent (rects i))
        else none := by
  refine List.filterMap_congr fun i _ => ?_
  cases hfind : findObject (ctx.presentation.objects i).id ctx.objects with
  | some k => rfl
  | none =>
    rw [if_neg]
    exact fun hvalid => h i hvalid hfind

/-- **The rectangles** of a display set that is rendered from what was defined. -/
theorem decodeRleAndRenderBitmap_same (h : Agree epoch ctx ctx') (hrenders : Renders epoch ctx)
    (behind behind' : ℕ → Source) :
    decodeRleAndRenderBitmap ctx behind = decodeRleAndRenderBitmap ctx' behind' := by
  have hp := h.presentation
  unfold decodeRleAndRenderBitmap
  rw [← hp.paletteId_eq, ← findPalette_same h.palettes, ← hp.objectCount_eq]
  cases hfind : findPalette ctx.presentation.paletteId ctx.palettes with
  | none => rfl
  | some j => exact renderObjects_same h (h.palettes.argb_eq j) behind behind' (hrenders j hfind) _

theorem shownItems_same (h : Agree epoch ctx ctx') (hrenders : Renders epoch ctx)
    {behind : ℕ → Source} {rects : ℕ → AVSubtitleRect}
    (hrects : decodeRleAndRenderBitmap ctx behind = some rects) :
    shownItems ctx rects true = shownItems ctx' rects true := by
  have hp := h.presentation
  have hrects' := (decodeRleAndRenderBitmap_same h hrenders behind behind).symm.trans hrects
  have hshown : shownItem ctx'.presentation true = shownItem ctx.presentation true := by
    funext rect
    rw [shownItem, shownItem, hp.videoWidth_eq, hp.videoHeight_eq, hp.pts_eq]
  rw [shownItems_eq (isValid_decodeRleAndRenderBitmap hrects),
    shownItems_eq (isValid_decodeRleAndRenderBitmap hrects'), ← hp.objectCount_eq, hshown]

theorem clearItems_same (h : Agree epoch ctx ctx') (mPreviousObjectNum : ℕ) :
    clearItems ctx.presentation mPreviousObjectNum true =
      clearItems ctx'.presentation mPreviousObjectNum true := by
  have hp := h.presentation
  have hclear : clearItem ctx'.presentation true = clearItem ctx.presentation true := by
    funext i
    rw [clearItem, clearItem, hp.videoWidth_eq, hp.videoHeight_eq, hp.pts_eq]
  rw [clearItems, clearItems, hclear, hp.objectCount_eq]

/-- **A display set** that is rendered from what was defined has the same items in both. -/
theorem sameItems_of_renders (h : Agree epoch ctx ctx') (hrenders : Renders epoch ctx) :
    SameItems ctx ctx' := by
  constructor
  · intro behind behind'
    rw [← decodeRleAndRenderBitmap_same h hrenders behind behind']
    exact Option.map_congr fun rects hrects => shownItems_same h hrenders hrects
  · intro behind behind' mPreviousObjectNum
    rw [decodedItems, decodedItems, ← decodeRleAndRenderBitmap_same h hrenders behind behind']
    refine Option.map_congr fun rects hrects => ?_
    rw [postDecodedItem, postDecodedItem, clearItems_same h, shownItems_same h hrenders hrects]

end Render

/-! ## Runs -/

/-- Two segments with the same bytes.  What is behind them may differ. -/
structure SameSegment (segment segment' : Segment) : Prop where
  pts_eq : segment.pts = segment'.pts
  type_eq : segment.type = segment'.type
  length_eq : segment.length = segment'.length
  agreeTo : AgreeTo segment.length segment.buf segment'.buf

/-- A segment is not read past its end, and at the end of a display set only what was
defined since the flush is rendered. -/
def Defined (state : Epoch × PgsParser) (segment : Segment) : Prop :=
  let ctx := state.2.mPgsContext
  if segment.type = PRESENTATION_COMPOSITION_SEGMENT then
    (composed ctx segment).reach ≤ segment.length
  else if segment.type = PALETTE_DEFINITION_SEGMENT then
    paletteReach ctx.palettes segment.buf segment.length ≤ segment.length
  else if segment.type = END_DISPLAY_SEGMENT then
    Renders state.1 ctx
  else
    True

instance (state : Epoch × PgsParser) (segment : Segment) : Decidable (Defined state segment) :=
  inferInstanceAs (Decidable (if segment.type = PRESENTATION_COMPOSITION_SEGMENT then
      (composed state.2.mPgsContext segment).reach ≤ segment.length
    else if segment.type = PALETTE_DEFINITION_SEGMENT then
      paletteReach state.2.mPgsContext.palettes segment.buf segment.length ≤ segment.length
    else if segment.type = END_DISPLAY_SEGMENT then Renders state.1 state.2.mPgsContext
    else True))

/-- The parser and what was defined since the flush. -/
def stepEpoch : Epoch × PgsParser → Segment → Option (Epoch × PgsParser) :=
  Lockstep.recorded Epoch.next PgsParser.decode

/-- The second parser follows the first: the contexts agree, and the display sets that were
queued behind the old ones have the same items. -/
structure Follows (old old' : List PGSSubContext) (state : Epoch × PgsParser)
    (parser' : PgsParser) : Prop where
  agree : Agree state.1 state.2.mPgsContext parser'.mPgsContext
  queued : ∃ added added', state.2.mPgsContextList = old ++ added ∧
    parser'.mPgsContextList = old' ++ added' ∧ List.Forall₂ SameItems added added'

section Step

variable {epoch : Epoch} {parser parser' : PgsParser} {ctx ctx' : PGSSubContext}
  {segment segment' : Segment} {old old' : List PGSSubContext}

/-- The context with the time stamp of a segment. -/
def stamped (ctx : PGSSubContext) (segment : Segment) : PGSSubContext :=
  { ctx with presentation := { ctx.presentation with pts := segment.pts } }

theorem decode_composition (h : segment.type = PRESENTATION_COMPOSITION_SEGMENT) :
    parser.decode segment = some { parser with
      mPgsContext := parsePresentationSegment (stamped parser.mPgsContext segment) segment.buf
        segment.length } := by
  unfold PgsParser.decode
  rw [if_pos h]
  rfl

theorem decode_palette (h : segment.type = PALETTE_DEFINITION_SEGMENT) :
    parser.decode segment = some { parser with
      mPgsContext := parsePaletteSegment parser.mPgsContext segment.buf segment.length } := by
  unfold PgsParser.decode
  rw [if_neg (by rw [h]; decide), if_pos h]

theorem decode_end (h : segment.type = END_DISPLAY_SEGMENT) :
    parser.decode segment = some { parser with
      mPgsContextList := parser.mPgsContextList ++ [parser.mPgsContext] } := by
  unfold PgsParser.decode
  rw [if_neg (by rw [h]; decide), if_neg (by rw [h]; decide), if_neg (by rw [h]; decide),
    if_pos h]

/-- **A composition** is shared; one that flushes needs nothing shared before. -/
theorem agree_composition (hfresh : Fresh ctx.objects) (hfresh' : Fresh ctx'.objects)
    (h : compositionState segment.buf = 0 → Agree epoch ctx ctx') :
    (composed ctx segment).reach = (composed ctx' segment).reach ∧
      Agree ⟨(epoch.begin segment).colours,
          withFirst (epoch.begin segment).refs (composed ctx segment).refs⟩
        (parsePresentationSegment (stamped ctx segment) segment.buf segment.length)
        (parsePresentationSegment (stamped ctx' segment) segment.buf segment.length) := by
  unfold parsePresentationSegment Epoch.begin
  by_cases hstate : compositionState segment.buf = 0
  · have hagree := h hstate
    obtain ⟨-, hreach, hpresentation⟩ := compose_same segment.buf segment.length
      (show (stamped ctx segment).presentation.pts = (stamped ctx' segment).presentation.pts
        from rfl) hagree.presentation.refs_same
    simp only [if_neg (not_not.mpr hstate)]
    exact ⟨hreach, hpresentation, hagree.palettes, hagree.objects⟩
  · obtain ⟨-, hreach, hpresentation⟩ := compose_same segment.buf segment.length
      (show (stamped ctx segment).presentation.pts = (stamped ctx' segment).presentation.pts
        from rfl) (fun m (hm : Epoch.empty.refs m = true) => absurd hm Bool.false_ne_true)
    simp only [if_pos hstate]
    refine ⟨hreach, hpresentation, ⟨rfl, ?_, ?_⟩, flushPgsContext_same hfresh hfresh'⟩
    · exact fun _ hj => absurd hj (Nat.not_lt_zero _)
    · exact fun _ _ hc => absurd hc Bool.false_ne_true

/-- The bytes of a segment that is not read past its end say what it does. -/
theorem decode_congr (hsame : SameSegment segment segment')
    (hcomposition : segment.type = PRESENTATION_COMPOSITION_SEGMENT →
      (composed parser.mPgsContext segment).reach ≤ segment.length)
    (hpalette : segment.type = PALETTE_DEFINITION_SEGMENT →
      paletteReach parser.mPgsContext.palettes segment.buf segment.length ≤ segment.length) :
    parser.decode segment = parser.decode segment' := by
  unfold PgsParser.decode
  rw [← hsame.type_eq, ← hsame.length_eq, ← hsame.pts_eq]
  dsimp only
  by_cases hpcs : segment.type = PRESENTATION_COMPOSITION_SEGMENT
  · have hreach := hcomposition hpcs
    have hn := le_reach_compose.trans hreach
    rw [if_pos hpcs, if_pos hpcs, parsePresentationSegment, parsePresentationSegment,
      compositionState_congr hsame.agreeTo (by omega), compose_congr hsame.agreeTo hreach]
  rw [if_neg hpcs, if_neg hpcs]
  by_cases hpds : segment.type = PALETTE_DEFINITION_SEGMENT
  · rw [if_pos hpds, if_pos hpds, parsePaletteSegment_congr hsame.agreeTo (hpalette hpds)]
  · rw [if_neg hpds, if_neg hpds, parseObjectSegment_congr hsame.agreeTo]

theorem next_composition (h : segment.type = PRESENTATION_COMPOSITION_SEGMENT) :
    epoch.next parser segment = ⟨(epoch.begin segment).colours,
      withFirst (epoch.begin segment).refs (composed parser.mPgsContext segment).refs⟩ := by
  unfold Epoch.next
  rw [if_pos h]

theorem next_palette (h : segment.type = PALETTE_DEFINITION_SEGMENT) :
    epoch.next parser segment =
      ⟨coloursAfter epoch.colours parser.mPgsContext segment.buf segment.length, epoch.refs⟩ := by
  unfold Epoch.next
  rw [if_neg (by rw [h]; decide), if_pos h]

theorem next_other (hcomposition : segment.type ≠ PRESENTATION_COMPOSITION_SEGMENT)
    (hpalette : segment.type ≠ PALETTE_DEFINITION_SEGMENT) :
    epoch.next parser segment = epoch := by
  unfold Epoch.next
  rw [if_neg hcomposition, if_neg hpalette]

/-- **A composition that flushes** in both parsers. -/
theorem follows_composition (hfresh : Fresh parser.mPgsContext.objects)
    (hfresh' : Fresh parser'.mPgsContext.objects)
    (h : compositionState segment.buf = 0 →
      Agree epoch parser.mPgsContext parser'.mPgsContext)
    (hqueued : ∃ added added', parser.mPgsContextList = old ++ added ∧
      parser'.mPgsContextList = old' ++ added' ∧ List.Forall₂ SameItems added added')
    (hsame : SameSegment segment segment')
    (htype : segment.type = PRESENTATION_COMPOSITION_SEGMENT)
    (hdefined : Defined (epoch, parser) segment) :
    ∃ state after', stepEpoch (epoch, parser) segment = some state ∧
      parser'.decode segment' = some after' ∧ Follows old old' state after' := by
  obtain ⟨hreach, hagree⟩ := agree_composition hfresh hfresh' h
  unfold Defined at hdefined
  rw [if_pos htype] at hdefined
  have hcongr : parser'.decode segment = parser'.decode segment' := by
    refine decode_congr hsame (fun _ => hreach ▸ hdefined) fun hpalette => ?_
    exact absurd (htype.symm.trans hpalette) (by decide)
  refine ⟨_, _, Lockstep.recorded_eq_some (decode_composition htype),
    hcongr.symm.trans (decode_composition htype), ?_, hqueued⟩
  dsimp only
  rw [next_composition htype]
  exact hagree

theorem paletteReach_same {colours : ℕ → UInt8 → Bool} {palettes palettes' : PGSSubPalettes}
    (h : SamePalettes colours palettes palettes') (buf : Source) (n : ℕ) :
    paletteReach palettes buf n = paletteReach palettes' buf n := by
  unfold paletteReach
  rcases paletteSlot_same h (bytestreamGetByte buf 0) with
    ⟨hnone, hnone'⟩ | ⟨j, after, after', hslot, hslot', -, -⟩
  · rw [hnone, hnone']
  · rw [hslot, hslot']

theorem follows_palette (h : Follows old old' (epoch, parser) parser')
    (hsame : SameSegment segment segment') (htype : segment.type = PALETTE_DEFINITION_SEGMENT)
    (hdefined : Defined (epoch, parser) segment) :
    ∃ state after', stepEpoch (epoch, parser) segment = some state ∧
      parser'.decode segment' = some after' ∧ Follows old old' state after' := by
  have hne : segment.type ≠ PRESENTATION_COMPOSITION_SEGMENT := by rw [htype]; decide
  unfold Defined at hdefined
  rw [if_neg hne, if_pos htype] at hdefined
  have hcongr : parser'.decode segment = parser'.decode segment' :=
    decode_congr hsame (fun hcomposition => absurd hcomposition hne)
      fun _ => paletteReach_same h.agree.palettes _ _ ▸ hdefined
  refine ⟨_, _, Lockstep.recorded_eq_some (decode_palette htype),
    hcongr.symm.trans (decode_palette htype), ?_, h.queued⟩
  dsimp only
  rw [next_palette htype]
  refine ⟨?_, ?_, ?_⟩
  · dsimp only
    rw [presentation_parsePaletteSegment, presentation_parsePaletteSegment]
    exact h.agree.presentation
  · exact parsePaletteSegment_same h.agree.palettes h.agree.presentation.videoHeight_eq _ _
  · rw [objects_parsePaletteSegment, objects_parsePaletteSegment]
    exact h.agree.objects

theorem follows_object (h : Follows old old' (epoch, parser) parser')
    (hsame : SameSegment segment segment') (htype : segment.type = OBJECT_DEFINITION_SEGMENT) :
    ∃ state after', stepEpoch (epoch, parser) segment = some state ∧
      parser'.decode segment' = some after' ∧ Follows old old' state after' := by
  have hcomposition : segment.type ≠ PRESENTATION_COMPOSITION_SEGMENT := by rw [htype]; decide
  have hpalette : segment.type ≠ PALETTE_DEFINITION_SEGMENT := by rw [htype]; decide
  have hcongr : parser'.decode segment = parser'.decode segment' :=
    decode_congr hsame (fun hne => absurd hne hcomposition) fun hne => absurd hne hpalette
  have hpresentation := h.agree.presentation
  obtain ⟨r, r', hparse, hparse', hobjects⟩ := parseObjectSegment_same h.agree.objects
    hpresentation.videoWidth_eq hpresentation.videoHeight_eq segment.buf segment.length
  obtain ⟨hp, hq⟩ := frame_parseObjectSegment hparse
  obtain ⟨hp', hq'⟩ := frame_parseObjectSegment hparse'
  have hdecode : parser.decode segment = some { parser with mPgsContext := r.2 } := by
    unfold PgsParser.decode
    rw [if_neg hcomposition, if_neg hpalette, if_pos htype, hparse, Option.map_some]
  have hdecode' : parser'.decode segment = some { parser' with mPgsContext := r'.2 } := by
    unfold PgsParser.decode
    rw [if_neg hcomposition, if_neg hpalette, if_pos htype, hparse', Option.map_some]
  refine ⟨_, _, Lockstep.recorded_eq_some hdecode, hcongr.symm.trans hdecode', ?_, h.queued⟩
  dsimp only
  rw [next_other hcomposition hpalette]
  refine ⟨?_, ?_, hobjects⟩
  · rw [hp, hp']
    exact hpresentation
  · rw [hq, hq']
    exact h.agree.palettes

theorem follows_end (h : Follows old old' (epoch, parser) parser')
    (hsame : SameSegment segment segment') (htype : segment.type = END_DISPLAY_SEGMENT)
    (hdefined : Defined (epoch, parser) segment) :
    ∃ state after', stepEpoch (epoch, parser) segment = some state ∧
      parser'.decode segment' = some after' ∧ Follows old old' state after' := by
  have hcomposition : segment.type ≠ PRESENTATION_COMPOSITION_SEGMENT := by rw [htype]; decide
  have hpalette : segment.type ≠ PALETTE_DEFINITION_SEGMENT := by rw [htype]; decide
  unfold Defined at hdefined
  rw [if_neg hcomposition, if_neg hpalette, if_pos htype] at hdefined
  obtain ⟨added, added', hlist, hlist', hadded⟩ := h.queued
  refine ⟨_, _, Lockstep.recorded_eq_some (decode_end htype),
    decode_end (hsame.type_eq ▸ htype), ?_, ?_⟩
  · dsimp only
    rw [next_other hcomposition hpalette]
    exact h.agree
  · refine ⟨added ++ [parser.mPgsContext], added' ++ [parser'.mPgsContext], ?_, ?_, ?_⟩
    · dsimp only
      rw [hlist, List.append_assoc]
    · dsimp only
      rw [hlist', List.append_assoc]
    · exact List.rel_append hadded (.cons (sameItems_of_renders h.agree hdefined) .nil)

/-- **One segment.** -/
theorem follows_step (h : Follows old old' (epoch, parser) parser')
    (hsame : SameSegment segment segment') (hdefined : Defined (epoch, parser) segment) :
    ∃ state after', stepEpoch (epoch, parser) segment = some state ∧
      parser'.decode segment' = some after' ∧ Follows old old' state after' := by
  by_cases hcomposition : segment.type = PRESENTATION_COMPOSITION_SEGMENT
  · exact follows_composition h.agree.objects.fresh h.agree.objects.fresh' (fun _ => h.agree)
      h.queued hsame hcomposition hdefined
  by_cases hpalette : segment.type = PALETTE_DEFINITION_SEGMENT
  · exact follows_palette h hsame hpalette hdefined
  by_cases hobject : segment.type = OBJECT_DEFINITION_SEGMENT
  · exact follows_object h hsame hobject
  by_cases hend : segment.type = END_DISPLAY_SEGMENT
  · exact follows_end h hsame hend hdefined
  -- a window definition or an unknown segment
  have hdecode : ∀ parser : PgsParser, parser.decode segment = some parser := by
    intro parser
    unfold PgsParser.decode
    rw [if_neg hcomposition, if_neg hpalette, if_neg hobject, if_neg hend]
  have hcongr : parser'.decode segment = parser'.decode segment' :=
    decode_congr hsame (fun hne => absurd hne hcomposition) fun hne => absurd hne hpalette
  refine ⟨_, _, Lockstep.recorded_eq_some (hdecode parser),
    hcongr.symm.trans (hdecode parser'), ?_, h.queued⟩
  dsimp only
  rw [next_other hcomposition hpalette]
  exact h.agree

/-! ### What every parser keeps -/

/-- One segment. -/
theorem fresh_decode (h : Fresh parser.mPgsContext.objects)
    (hdecode : parser.decode segment = some parser') : Fresh parser'.mPgsContext.objects := by
  by_cases hcomposition : segment.type = PRESENTATION_COMPOSITION_SEGMENT
  · rw [decode_composition hcomposition] at hdecode
    rw [← Option.some_inj.mp hdecode, parsePresentationSegment]
    dsimp only
    split_ifs
    · exact fresh_flushPgsContext h
    · exact h
  by_cases hpalette : segment.type = PALETTE_DEFINITION_SEGMENT
  · rw [decode_palette hpalette] at hdecode
    rw [← Option.some_inj.mp hdecode]
    dsimp only
    rw [objects_parsePaletteSegment]
    exact h
  by_cases hobject : segment.type = OBJECT_DEFINITION_SEGMENT
  · obtain ⟨r, hparse⟩ := decode_object hobject hdecode
    obtain ⟨r', _, hparse', -, hobjects⟩ := parseObjectSegment_same (SameObjects.of_fresh h)
      rfl rfl segment.buf segment.length
    rw [hparse, Option.some_inj] at hparse'
    rw [← hparse'] at hobjects
    exact hobjects.fresh
  unfold PgsParser.decode at hdecode
  rw [if_neg hcomposition, if_neg hpalette, if_neg hobject] at hdecode
  split_ifs at hdecode
  · rw [← Option.some_inj.mp hdecode]
    exact h
  · rw [← Option.some_inj.mp hdecode]
    exact h

/-- A run of segments from the constructor on. -/
theorem fresh_decodeAll {segments : List Segment} (h : Fresh parser.mPgsContext.objects)
    (hdecode : parser.decodeAll segments = some parser') : Fresh parser'.mPgsContext.objects := by
  induction segments generalizing parser with
  | nil =>
    rw [← Option.some_inj.mp hdecode]
    exact h
  | cons segment segments ih =>
    rw [PgsParser.decodeAll] at hdecode
    obtain ⟨parser₁, hfirst, hrest⟩ := Option.bind_eq_some_iff.mp hdecode
    exact ih (fresh_decode h hfirst) hrest

theorem fresh_create : Fresh PgsParser.create.mPgsContext.objects :=
  ⟨sound_create, fun _ _ => rfl⟩

theorem decodeAll_eq_run (parser : PgsParser) (segments : List Segment) :
    parser.decodeAll segments = Lockstep.run PgsParser.decode parser segments := by
  induction segments generalizing parser with
  | nil => rfl
  | cons segment segments ih =>
    rw [PgsParser.decodeAll, Lockstep.run]
    simp only [ih]

/-- **Epochs are independent of what was before**, as long as each segment is not read past
its end and each display set is rendered from what was defined in the epoch.  Two parsers
that have read anything read the same segments from a composition on whose state is not
normal: the display sets that they queue have the same items. -/
theorem epoch_run {before before' rest rest' : List Segment} {first first' : Segment}
    (hbefore : PgsParser.create.decodeAll before = some parser)
    (hbefore' : PgsParser.create.decodeAll before' = some parser')
    (htype : first.type = PRESENTATION_COMPOSITION_SEGMENT)
    (hstate : compositionState first.buf ≠ 0)
    (hsame : List.Forall₂ SameSegment (first :: rest) (first' :: rest'))
    (hdefined : Lockstep.Meets stepEpoch Defined (.empty, parser) (first :: rest)) :
    ∃ ctx ctx' added added',
      parser.decodeAll (first :: rest) = some ⟨ctx, parser.mPgsContextList ++ added⟩ ∧
      parser'.decodeAll (first' :: rest') = some ⟨ctx', parser'.mPgsContextList ++ added'⟩ ∧
      List.Forall₂ SameItems added added' := by
  obtain ⟨hfirst, hrest⟩ := List.forall₂_cons.mp hsame
  -- the first composition makes the contexts agree, and the other segments keep it so
  obtain ⟨state, after', hstep, hstep', hfollows⟩ := follows_composition
    (fresh_decodeAll fresh_create hbefore) (fresh_decodeAll fresh_create hbefore')
    (fun hzero => absurd hzero hstate)
    ⟨[], [], (List.append_nil _).symm, (List.append_nil _).symm, .nil⟩ hfirst htype hdefined.1
  obtain ⟨⟨epoch, last⟩, last', hrun, hrun', hlast⟩ := Lockstep.related
    (R := Follows parser.mPgsContextList parser'.mPgsContextList) (E := SameSegment)
    (fun ⟨_, _⟩ _ _ _ hR hE hC => follows_step hR hE hC) hrest hfollows (hdefined.2 state hstep)
  obtain ⟨added, added', hlist, hlist', hadded⟩ := hlast.queued
  refine ⟨last.mPgsContext, last'.mPgsContext, added, added', ?_, ?_, hadded⟩
  · have hrecord : Lockstep.run stepEpoch (.empty, parser) (first :: rest) =
        some (epoch, last) := by
      rw [Lockstep.run, hstep, Option.bind_some, hrun]
    rw [decodeAll_eq_run, ← Lockstep.run_recorded Epoch.next PgsParser.decode (.empty, parser),
      ← stepEpoch, hrecord, Option.map_some, ← hlist]
  · rw [decodeAll_eq_run, Lockstep.run, hstep', Option.bind_some, hrun', ← hlist']

/-- A palette for the palette id 0 with one colour. -/
def onePalette (colour : UInt8) : Segment :=
  segmentOf PALETTE_DEFINITION_SEGMENT [0, 0, colour, 100, 128, 128, 255]

/-- An epoch start that refers to the object 1 at the given place. -/
def oneRef (x : UInt8) : Segment :=
  segmentOf PRESENTATION_COMPOSITION_SEGMENT
    [0, 4, 0, 4, 0x10, 0, 0, 0x80, 0, 0, 1, 0, 1, 0, 0, 0, x, 0, 0]

/-- An epoch start that announces three objects. -/
def threeRefs : Segment :=
  segmentOf PRESENTATION_COMPOSITION_SEGMENT [0, 4, 0, 4, 0x10, 0, 0, 0x80, 0, 0, 3]

/-- The object 1, one pixel of the colour 5. -/
def onePixel : Segment :=
  segmentOf OBJECT_DEFINITION_SEGMENT [0, 1, 0, 0x80, 0, 0, 7, 0, 1, 0, 1, 5, 0, 0]

/-- The end of a display set. -/
def endDisplay : Segment := segmentOf END_DISPLAY_SEGMENT []

theorem sameSegment_refl (segment : Segment) : SameSegment segment segment :=
  ⟨rfl, rfl, rfl, fun _ _ => rfl⟩

/-- A parser that has read a palette and one that has read nothing, with an epoch whose
display set is rendered from what it defines. -/
theorem epoch_run_onePixel : ∃ parser parser' ctx ctx' added added',
    PgsParser.create.decodeAll [epochStart, onePalette 6] = some parser ∧
    PgsParser.create.decodeAll [] = some parser' ∧
    parser.decodeAll [oneRef 0, onePalette 5, onePixel, endDisplay] =
      some ⟨ctx, parser.mPgsContextList ++ added⟩ ∧
    parser'.decodeAll [oneRef 0, onePalette 5, onePixel, endDisplay] =
      some ⟨ctx', parser'.mPgsContextList ++ added'⟩ ∧
    List.Forall₂ SameItems added added' := by
  have hdefined : ∀ parser, PgsParser.create.decodeAll [epochStart, onePalette 6] = some parser →
      Lockstep.Meets stepEpoch Defined (.empty, parser)
        [oneRef 0, onePalette 5, onePixel, endDisplay] := by
    intro parser hparser
    rw [← Option.some_inj.mp hparser]
    decide +kernel
  obtain ⟨ctx, ctx', added, added', hrun, hrun', hadded⟩ :=
    @epoch_run _ _ [epochStart, onePalette 6] [] _ _ (oneRef 0) _ rfl rfl rfl (by decide)
      (List.forall₂_same.mpr fun segment _ => sameSegment_refl segment) (hdefined _ rfl)
  exact ⟨_, _, ctx, ctx', added, added', rfl, rfl, hrun, hrun', hadded⟩

/-- The items of the display sets that a run queues behind those that were queued before. -/
def itemsAfter (before segments : List Segment) : Option (List (Option (List DecodedItem))) :=
  (PgsParser.create.decodeAll before).bind fun parser =>
    (parser.decodeAll segments).map fun after =>
      (after.mPgsContextList.drop parser.mPgsContextList.length).map fun ctx =>
        decodedItems ctx (fun _ _ => 0) 0

/-- Two epochs whose display sets show what was defined before.  In the first the palette has
no colour for the pixel, and the slot keeps the colour of the palette that had it before.  In
the second the composition announces three objects, which counts as two that are not read. -/
theorem not_independent :
    (oneRef 0).type = PRESENTATION_COMPOSITION_SEGMENT ∧ compositionState (oneRef 0).buf ≠ 0 ∧
    itemsAfter [epochStart, onePalette 5] [oneRef 0, onePalette 6, onePixel, endDisplay] ≠
      itemsAfter [] [oneRef 0, onePalette 6, onePixel, endDisplay] ∧
    threeRefs.type = PRESENTATION_COMPOSITION_SEGMENT ∧ compositionState threeRefs.buf ≠ 0 ∧
    itemsAfter [oneRef 2] [threeRefs, onePalette 5, onePixel, endDisplay] ≠
      itemsAfter [] [threeRefs, onePalette 5, onePixel, endDisplay] :=
  ⟨rfl, by decide, by decide +kernel, rfl, by decide, by decide +kernel⟩

end Step

end Pgs
end AmlSubtitle
