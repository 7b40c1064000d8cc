import AmlSubtitle.Parser.PgsEpoch
import AmlSubtitle.Parser.PgsRle

/-!
# Bitmaps of PGS objects

`renderRle2Bitmap` allocates four bytes for each pixel of an image and asserts that there is one.
The size is an `int`.

* `allObjects_decodeAll` is the induction over a run for a property of all objects.
* `RendersSafely` says that no assertion fails and that every bitmap fits in its memory.
* `rendersSafely_iff`: that holds of a display set exactly when each object it renders has data,
  and none has from `2 ^ 30` to `3 * 2 ^ 29` pixels.
-/

namespace AmlSubtitle
namespace Pgs

open Words

/-! ## What holds of all objects -/

/-- A property of an object that a segment keeps. -/
structure Kept (P : PGSSubObject → Prop) (segment : Segment) : Prop where
  id : ∀ object id, P object → P { object with id := id }
  flush : ∀ object, P object →
    P { object with rle := [], rleBufferSize := 0, rleRemainingLen := 0 }
  define : segment.type = OBJECT_DEFINITION_SEGMENT → ∀ p object object', P object →
    defineObject p object segment.buf segment.length = some (some object') → P object'

/-- The objects of the context and of those that are queued have a property. -/
def AllObjects (P : PGSSubObject → Prop) (parser : PgsParser) : Prop :=
  (∀ k, P (parser.mPgsContext.objects.object k)) ∧
    ∀ ctx ∈ parser.mPgsContextList, ∀ k, P (ctx.objects.object k)

section AllObjects

variable {P : PGSSubObject → Prop} {parser parser' : PgsParser} {segment : Segment}
  {ctx ctx' : PGSSubContext}

theorem forall_objectSlot {objects objects' : PGSSubObjects} {id i : ℕ}
    (hkept : Kept P segment) (h : ∀ k, P (objects.object k))
    (hslot : objectSlot objects id = some (i, objects')) : ∀ k, P (objects'.object k) := by
  unfold objectSlot at hslot
  split at hslot
  · rw [Option.some_inj, Prod.mk.injEq] at hslot
    rw [← hslot.2]
    exact h
  · split at hslot
    · cases hslot
    · rw [Option.some_inj, Prod.mk.injEq] at hslot
      rw [← hslot.2]
      exact forall_modify (P := P) (f := ({ · with id := id })) h (hkept.id _ _ (h _))

theorem forall_parseObjectSegment {r : ℤ} (hkept : Kept P segment)
    (htype : segment.type = OBJECT_DEFINITION_SEGMENT) (h : ∀ k, P (ctx.objects.object k))
    (hparse : parseObjectSegment ctx segment.buf segment.length = some (r, ctx')) :
    ∀ k, P (ctx'.objects.object k) := by
  unfold parseObjectSegment at hparse
  split at hparse
  · rw [Option.some_inj, Prod.mk.injEq] at hparse
    rw [← hparse.2]
    exact h
  split at hparse
  · rw [Option.some_inj, Prod.mk.injEq] at hparse
    rw [← hparse.2]
    exact h
  · rename_i i objects hslot
    have hobjects := forall_objectSlot hkept h hslot
    split at hparse
    · cases hparse
    · rw [Option.some_inj, Prod.mk.injEq] at hparse
      rw [← hparse.2]
      exact hobjects
    · rename_i object hdefine
      rw [Option.some_inj, Prod.mk.injEq] at hparse
      rw [← hparse.2]
      exact forall_modify (P := P) (f := fun _ => object) hobjects
        (hkept.define htype _ _ _ (hobjects i) hdefine)

/-- **One segment.** -/
theorem allObjects_decode (hkept : Kept P segment) (h : AllObjects P parser)
    (hdecode : parser.decode segment = some parser') : AllObjects P parser' := by
  obtain ⟨hctx, hqueue⟩ := h
  unfold PgsParser.decode at hdecode
  dsimp only at hdecode
  split_ifs at hdecode with _ _ htype
  · obtain rfl := Option.some_inj.mp hdecode
    refine ⟨fun k => ?_, hqueue⟩
    dsimp only
    rw [parsePresentationSegment]
    dsimp only
    split_ifs
    · rw [flushPgsContext]
      dsimp only
      split_ifs
      · exact hkept.flush _ (hctx k)
      · exact hctx k
    · exact hctx k
  · obtain rfl := Option.some_inj.mp hdecode
    refine ⟨fun k => ?_, hqueue⟩
    dsimp only
    rw [objects_parsePaletteSegment]
    exact hctx k
  · obtain ⟨parsed, hparsed, rfl⟩ := Option.map_eq_some_iff.mp hdecode
    exact ⟨forall_parseObjectSegment hkept htype hctx hparsed, hqueue⟩
  · obtain rfl := Option.some_inj.mp hdecode
    refine ⟨hctx, fun ctx hmem => ?_⟩
    rcases List.mem_append.mp hmem with hold | hnew
    · exact hqueue ctx hold
    · obtain rfl := List.mem_singleton.mp hnew
      exact hctx
  · obtain rfl := Option.some_inj.mp hdecode
    exact ⟨hctx, hqueue⟩

/-- **A run of segments.** -/
theorem allObjects_decodeAll {segments : List Segment}
    (hkept : ∀ segment ∈ segments, Kept P segment) (h : AllObjects P parser)
    (hrun : parser.decodeAll segments = some parser') : AllObjects P parser' := by
  induction segments generalizing parser with
  | nil =>
    obtain rfl := Option.some_inj.mp hrun
    exact h
  | cons segment segments ih =>
    rw [PgsParser.decodeAll] at hrun
    obtain ⟨parser₁, hdecode, hrest⟩ := Option.bind_eq_some_iff.mp hrun
    exact ih (fun s hs => hkept s (List.mem_cons_of_mem _ hs))
      (allObjects_decode (hkept segment List.mem_cons_self) h hdecode) hrest

/-- The width and the height of an object that is defined: those of the segment that starts
its data. -/
theorem size_defineObject {p : PGSSubPresentation} {object object' : PGSSubObject} {buf : Source}
    {n : ℕ} (h : defineObject p object buf n = some (some object')) :
    (isContinuation buf ∧ object'.w = object.w ∧ object'.h = object.h) ∨
      (¬ isContinuation buf ∧ object'.w = bytestreamGetBe16 buf 7 ∧
        object'.h = bytestreamGetBe16 buf 9) := by
  unfold defineObject at h
  split_ifs at h with hcontinues
  · unfold continueObject at h
    dsimp only at h
    split_ifs at h
    · exact absurd (Option.some_inj.mp h).symm (Option.some_ne_none _)
    · obtain rfl := Option.some_inj.mp (Option.some_inj.mp h)
      exact Or.inl ⟨hcontinues, rfl, rfl⟩
  · unfold startObject at h
    dsimp only at h
    split_ifs at h
    · exact absurd (Option.some_inj.mp h).symm (Option.some_ne_none _)
    · exact absurd (Option.some_inj.mp h).symm (Option.some_ne_none _)
    · exact absurd (Option.some_inj.mp h).symm (Option.some_ne_none _)
    · obtain rfl := Option.some_inj.mp (Option.some_inj.mp h)
      exact Or.inr ⟨hcontinues, rfl, rfl⟩

/-- A width and a height of 16 bits. -/
def SmallSize (object : PGSSubObject) : Prop := object.w < 2 ^ 16 ∧ object.h < 2 ^ 16

theorem kept_smallSize (segment : Segment) : Kept SmallSize segment := by
  refine ⟨fun _ _ h => h, fun _ h => h, fun _ p object object' h hdefine => ?_⟩
  have hbe16 : ∀ i, bytestreamGetBe16 segment.buf i < 2 ^ 16 := by
    intro i
    have h₁ : (segment.buf i).toNat < 256 := (segment.buf i).toNat_lt
    have h₂ : (segment.buf (i + 1)).toNat < 256 := (segment.buf (i + 1)).toNat_lt
    rw [bytestreamGetBe16]
    omega
  unfold SmallSize at h ⊢
  rcases size_defineObject hdefine with ⟨-, hw, hh⟩ | ⟨-, hw, hh⟩
  · rwa [hw, hh]
  · rw [hw, hh]
    exact ⟨hbe16 7, hbe16 9⟩

end AllObjects

/-! ## Rendering one object -/

/-- What is written for a bitmap fits in its memory. -/
def FitsRect (rect : AVSubtitleRect) : Prop :=
  ∀ bitmap, rect.bitmap = some bitmap → (bitmap.length : ℤ) ≤ rect.bitmapSize

/-- An object that is rendered into too little memory: four times its area is not an `int`, but
what is left of it is not negative. -/
structure Oversized (object : PGSSubObject) (behind : Source) : Prop where
  large : 2 ^ 30 ≤ object.w * object.h
  wraps : object.w * object.h < 3 * 2 ^ 29
  complete : object.rleRemainingLen = 0
  decodes : (decodeRle object.rle behind object.w object.h).ok = true

section Object

variable {argb : UInt8 → ℕ} {ref : PGSSubObjectRef} {object : PGSSubObject} {behind : Source}
  {rect rect' : AVSubtitleRect} {i : ℕ} {goesOn : Bool}

/-- The assertion that there are pixels fails for an object without data. -/
theorem renderObject_eq_none_iff :
    renderObject argb i ref object behind rect = none ↔ object.rle = [] := by
  unfold renderObject
  dsimp only
  split_ifs with hrle
  · exact iff_of_true rfl hrle
  all_goals exact iff_of_false id hrle

/-- The next reference is rendered unless data are missing or there is no memory. -/
theorem goesOn_renderObject
    (h : renderObject argb i ref object behind rect = some (rect', goesOn)) :
    goesOn = true ↔ Decodable object := by
  constructor
  · rintro rfl
    exact decodable_of_renderObject h
  · rintro ⟨hrle, hleft, hsize⟩
    unfold renderObject at h
    dsimp only at h
    rw [if_neg hrle, if_neg (not_not.mpr hleft), if_neg (not_lt.mpr hsize)] at h
    split_ifs at h <;> exact (Prod.mk.inj (Option.some_inj.mp h)).2.symm

theorem length_renderRle2Bitmap {pixels bitmap : List UInt8}
    (h : renderRle2Bitmap argb object pixels = some bitmap) :
    0 ≤ bitmapSize object ∧ bitmap.length = 4 * pixels.length := by
  unfold renderRle2Bitmap at h
  split_ifs at h with hsize
  obtain rfl := Option.some_inj.mp h
  refine ⟨not_lt.mp hsize, ?_⟩
  induction pixels with
  | nil => rfl
  | cons pixel pixels ih =>
    rw [List.flatMap_cons, List.length_append, length_leBytes, List.length_cons, ih rfl]
    ring

/-- The memory of a bitmap, where it is allocated. -/
theorem bitmapSize_cases (hsmall : SmallSize object) (hsize : 0 ≤ decodedRleSize object) :
    decodedRleSize object = (object.w * object.h : ℕ) ∧
      (bitmapSize object < 0 ∧
          (object.w * object.h < 2 ^ 30 ∨ 3 * 2 ^ 29 ≤ object.w * object.h) ∨
        bitmapSize object = (4 * (object.w * object.h) : ℕ) ∧ object.w * object.h < 2 ^ 29 ∨
        bitmapSize object = (4 * (object.w * object.h) : ℕ) - 2 ^ 32 ∧ 0 ≤ bitmapSize object ∧
          2 ^ 30 ≤ object.w * object.h ∧ object.w * object.h < 3 * 2 ^ 29) := by
  obtain ⟨hw, hh⟩ := hsmall
  have harea : object.w * object.h < 2 ^ 32 :=
    lt_of_le_of_lt (Nat.mul_le_mul (Nat.le_pred_of_lt hw) (Nat.le_pred_of_lt hh)) (by decide)
  have hlt : object.w * object.h < 2 ^ 31 := by
    by_contra hge
    have hnegative := asSigned_of_le (w := 32) (n := object.w * object.h) (by omega) harea
    rw [decodedRleSize, ← Nat.cast_mul, hnegative] at hsize
    omega
  have hdecoded : decodedRleSize object = (object.w * object.h : ℕ) := by
    rw [decodedRleSize, ← Nat.cast_mul]
    exact asSigned_of_lt (by omega)
  refine ⟨hdecoded, ?_⟩
  have hbitmap : bitmapSize object = asSigned 32 (4 * (object.w * object.h) % 2 ^ 32 : ℕ) := by
    rw [bitmapSize, hdecoded, asSigned_mod]
    push_cast
    rfl
  generalize object.w * object.h = area at *
  rcases Nat.lt_or_ge (2 * (4 * area % 2 ^ 32)) (2 ^ 32) with hpos | hneg
  · rw [asSigned_of_lt hpos] at hbitmap
    omega
  · rw [asSigned_of_le hneg (Nat.mod_lt _ (by decide))] at hbitmap
    omega

/-- **The bitmap of an object** fits unless the object is too large. -/
theorem fitsRect_renderObject (hsmall : SmallSize object) (hnone : rect.bitmap = none)
    (h : renderObject argb i ref object behind rect = some (rect', goesOn)) :
    FitsRect rect' ↔ ¬ Oversized object behind := by
  have hfits : ∀ {rect : AVSubtitleRect}, rect.bitmap = none → FitsRect rect := by
    intro rect hnone bitmap hbitmap
    exact absurd (hbitmap.symm.trans hnone) (Option.some_ne_none _)
  unfold renderObject at h
  dsimp only at h
  split_ifs at h with hrle hleft hsize hok
  · obtain ⟨rfl, -⟩ := Prod.mk.inj (Option.some_inj.mp h)
    exact iff_of_true (hfits hnone) fun hover => hleft hover.complete
  · obtain ⟨rfl, -⟩ := Prod.mk.inj (Option.some_inj.mp h)
    refine iff_of_true (hfits hnone) fun hover => ?_
    have harea : decodedRleSize object = (object.w * object.h : ℕ) := by
      rw [decodedRleSize, ← Nat.cast_mul]
      exact asSigned_of_lt (by have := hover.wraps; omega)
    omega
  · obtain ⟨rfl, -⟩ := Prod.mk.inj (Option.some_inj.mp h)
    have hpixels : (decodeRle object.rle behind object.w object.h).pixels.length =
        object.w * object.h :=
      le_antisymm (length_decodeCodes_le (Nat.zero_le _)) (le_length_decodeCodes hok)
    obtain ⟨-, hcases⟩ := bitmapSize_cases hsmall (not_lt.mp hsize)
    unfold FitsRect
    dsimp only
    rcases hcases with ⟨hnegative, hout⟩ | ⟨hexact, hlt⟩ | ⟨hshort, hpos, hge, hlt⟩
    · refine iff_of_true (fun bitmap hbitmap => ?_) fun hover => ?_
      · have := (length_renderRle2Bitmap hbitmap).1
        omega
      · have hge := hover.large
        have hlt := hover.wraps
        omega
    · refine iff_of_true (fun bitmap hbitmap => ?_) fun hover => ?_
      · have hlength := (length_renderRle2Bitmap hbitmap).2
        rw [hexact, hlength, hpixels]
      · have := hover.large
        omega
    · refine iff_of_false (fun hfit => ?_) (not_not.mpr
        ⟨hge, hlt, not_not.mp hleft, hok⟩)
      obtain ⟨bitmap, hbitmap⟩ : ∃ bitmap, renderRle2Bitmap argb object
          (decodeRle object.rle behind object.w object.h).pixels = some bitmap :=
        ⟨_, if_neg (not_lt.mpr hpos)⟩
      have hle := hfit bitmap hbitmap
      rw [(length_renderRle2Bitmap hbitmap).2, hpixels, hshort] at hle
      omega
  · obtain ⟨rfl, -⟩ := Prod.mk.inj (Option.some_inj.mp h)
    exact iff_of_true (hfits hnone) fun hover => hok hover.decodes

end Object

/-! ## Rendering a display set -/

/-- **A display set is rendered safely**: `renderRle2Bitmap` has decoded pixels, what it writes
fits in the memory it allocates, and the pixels are in the palette of `0x100` colours. -/
structure RendersSafely (ctx : PGSSubContext) (behind : ℕ → Source) : Prop where
  entered : decodeRleAndRenderBitmap ctx behind ≠ none
  fits : ∀ rects, decodeRleAndRenderBitmap ctx behind = some rects → ∀ i, FitsRect (rects i)
  palette : ∀ k, ∀ pixel ∈ (decodeRle (ctx.objects.object k).rle (behind k)
    (ctx.objects.object k).w (ctx.objects.object k).h).pixels, pixel.toNat < 0x100

/-- The references from the `i`th on, `n` of them, as far as they are rendered, have objects with
data that are not too large. -/
def RenderableFrom (ctx : PGSSubContext) (behind : ℕ → Source) : ℕ → ℕ → Prop
  | 0, _ => True
  | n + 1, i =>
    (∀ k ∈ findObject (ctx.presentation.objects i).id ctx.objects,
      (ctx.objects.object k).rle ≠ [] ∧ ¬ Oversized (ctx.objects.object k) (behind k)) ∧
      ((∀ k ∈ findObject (ctx.presentation.objects i).id ctx.objects,
        Decodable (ctx.objects.object k)) → RenderableFrom ctx behind n (i + 1))

/-- The objects that are rendered for a display set have data and are not too large.  Without
its palette none is rendered. -/
def Renderable (ctx : PGSSubContext) (behind : ℕ → Source) : Prop :=
  findPalette ctx.presentation.paletteId ctx.palettes ≠ none →
    RenderableFrom ctx behind ctx.presentation.objectCount 0

section Context

variable {ctx : PGSSubContext} {argb : UInt8 → ℕ} {behind : ℕ → Source} {n i : ℕ}
  {rects rects' : ℕ → AVSubtitleRect}

/-- The rectangles of the references before stay as they are. -/
theorem renderObjects_before (h : renderObjects ctx argb behind n i rects = some rects') :
    ∀ m < i, rects' m = rects m := by
  induction n generalizing i rects with
  | zero =>
    obtain rfl := Option.some_inj.mp h
    exact fun _ _ => rfl
  | succ n ih =>
    intro m hm
    rw [renderObjects] at h
    split at h
    · exact ih h m (by omega)
    · split at h
      · exact absurd h.symm (Option.some_ne_none _)
      · split_ifs at h
        · rw [ih h m (by omega), Function.update_of_ne hm.ne]
        · obtain rfl := Option.some_inj.mp h
          exact Function.update_of_ne hm.ne _ _

/-- **The loop over the references.** -/
theorem renderObjects_iff (hsmall : ∀ k, SmallSize (ctx.objects.object k))
    (hbefore : ∀ m < i, FitsRect (rects m)) (hnone : ∀ m, i ≤ m → (rects m).bitmap = none) :
    (∃ rects', renderObjects ctx argb behind n i rects = some rects' ∧ ∀ m, FitsRect (rects' m)) ↔
      RenderableFrom ctx behind n i := by
  have hfits : ∀ m, i ≤ m → FitsRect (rects m) := fun m hm bitmap hbitmap =>
    absurd (hbitmap.symm.trans (hnone m hm)) (Option.some_ne_none _)
  induction n generalizing i rects with
  | zero =>
    refine iff_of_true ⟨rects, rfl, fun m => ?_⟩ trivial
    rcases Nat.lt_or_ge m i with hm | hm
    · exact hbefore m hm
    · exact hfits m hm
  | succ n ih =>
    rw [renderObjects, RenderableFrom]
    cases hfind : findObject (ctx.presentation.objects i).id ctx.objects with
    | none =>
      have hupto : ∀ m < i + 1, FitsRect (rects m) := fun m hm =>
        (Nat.lt_succ_iff_lt_or_eq.mp hm).elim (hbefore m) fun hm => hfits m hm.ge
      have hskip := ih hupto (fun m hm => hnone m (by omega)) fun m hm => hfits m (by omega)
      simp only [Option.mem_def, reduceCtorEq, false_implies, implies_true, true_and, true_implies]
      exact hskip
    | some k =>
      simp only [Option.mem_def, Option.some_inj, forall_eq']
      cases hrender : renderObject argb i (ctx.presentation.objects i) (ctx.objects.object k)
        (behind k) (rects i) with
      | none =>
        refine iff_of_false ?_ fun h => h.1.1 (renderObject_eq_none_iff.mp hrender)
        rintro ⟨rects', h, -⟩
        exact Option.some_ne_none _ h.symm
      | some rendered =>
        obtain ⟨rect, goesOn⟩ := rendered
        have hrle : (ctx.objects.object k).rle ≠ [] := fun hrle =>
          Option.some_ne_none _ (hrender.symm.trans (renderObject_eq_none_iff.mpr hrle))
        have hrect := fitsRect_renderObject (hsmall k) (hnone i le_rfl) hrender
        have hgoesOn := goesOn_renderObject hrender
        dsimp only
        by_cases hover : Oversized (ctx.objects.object k) (behind k)
        · -- nothing that comes later replaces the bitmap
          refine iff_of_false ?_ fun h => h.1.2 hover
          rintro ⟨rects', hrest, hall⟩
          refine (not_iff_not.mpr hrect).mpr (not_not.mpr hover) ?_
          have hi := hall i
          split_ifs at hrest
          · rwa [renderObjects_before hrest i (Nat.lt_succ_self i), Function.update_self] at hi
          · obtain rfl := Option.some_inj.mp hrest
            rwa [Function.update_self] at hi
        have hrect := hrect.mpr hover
        have hupdate : ∀ m < i + 1, FitsRect (Function.update rects i rect m) := by
          intro m hm
          by_cases hmi : m = i
          · rw [hmi, Function.update_self]
            exact hrect
          · rw [Function.update_of_ne hmi]
            exact hbefore m (by omega)
        have hafter : ∀ m, i + 1 ≤ m → Function.update rects i rect m = rects m :=
          fun m hm => Function.update_of_ne (by omega) _ _
        by_cases hdecodable : Decodable (ctx.objects.object k)
        · have hrest := ih hupdate (fun m hm => by rw [hafter m hm]; exact hnone m (by omega))
            (fun m hm => by rw [hafter m hm]; exact hfits m (by omega))
          rw [if_pos (hgoesOn.mpr hdecodable)]
          exact hrest.trans ⟨fun h => ⟨⟨hrle, hover⟩, fun _ => h⟩, fun h => h.2 hdecodable⟩
        · rw [if_neg fun h => hdecodable (hgoesOn.mp h)]
          refine iff_of_true ⟨_, rfl, fun m => ?_⟩ ⟨⟨hrle, hover⟩, fun h => absurd h hdecodable⟩
          rcases Nat.lt_or_ge m (i + 1) with hm | hm
          · exact hupdate m hm
          · rw [hafter m hm]
            exact hfits m (by omega)

/-- **A display set** of objects with sizes of 16 bits. -/
theorem rendersSafely_iff_of_small (hsmall : ∀ k, SmallSize (ctx.objects.object k)) :
    RendersSafely ctx behind ↔ Renderable ctx behind := by
  have hloop : (∃ rects, decodeRleAndRenderBitmap ctx behind = some rects ∧
      ∀ i, FitsRect (rects i)) ↔ Renderable ctx behind := by
    unfold decodeRleAndRenderBitmap Renderable
    have hzero : FitsRect AVSubtitleRect.zero :=
      fun _ hbitmap => absurd hbitmap.symm (Option.some_ne_none _)
    cases hfind : findPalette ctx.presentation.paletteId ctx.palettes with
    | none => exact iff_of_true ⟨_, rfl, fun _ => hzero⟩ fun h => absurd rfl h
    | some j =>
      dsimp only
      rw [renderObjects_iff hsmall (fun _ _ => hzero) fun _ _ => rfl]
      exact ⟨fun h _ => h, fun h => h (Option.some_ne_none j)⟩
  rw [← hloop]
  constructor
  · rintro ⟨hentered, hfits, -⟩
    obtain ⟨rects, hrects⟩ := Option.ne_none_iff_exists'.mp hentered
    exact ⟨rects, hrects, hfits rects hrects⟩
  · rintro ⟨rects, hrects, hfits⟩
    refine ⟨hrects ▸ Option.some_ne_none rects, fun rects' hrects' => ?_,
      fun _ pixel _ => pixel.toNat_lt⟩
    obtain rfl := Option.some_inj.mp (hrects.symm.trans hrects')
    exact hfits

end Context

/-- **Every display set of every run** is rendered safely exactly when the objects it renders
have data and are not too large. -/
theorem rendersSafely_iff {segments : List Segment} {parser : PgsParser} {ctx : PGSSubContext}
    (hrun : PgsParser.create.decodeAll segments = some parser)
    (hctx : ctx ∈ parser.mPgsContextList) (behind : ℕ → Source) :
    RendersSafely ctx behind ↔ Renderable ctx behind := by
  have hcreate : AllObjects SmallSize PgsParser.create :=
    ⟨fun _ => ⟨Nat.two_pow_pos 16, Nat.two_pow_pos 16⟩, fun _ h => absurd h List.not_mem_nil⟩
  have hall := allObjects_decodeAll (fun segment _ => kept_smallSize segment) hcreate hrun
  exact rendersSafely_iff_of_small (hall.2 ctx hctx)

/-- A display set of one pixel. -/
theorem rendersSafely_iff_onePixel : ∃ parser, ∃ ctx ∈ parser.mPgsContextList,
    PgsParser.create.decodeAll [oneRef 0, onePalette 5, onePixel, endDisplay] = some parser ∧
      (RendersSafely ctx (fun _ _ => 0) ↔ Renderable ctx fun _ _ => 0) := by
  obtain ⟨ctx, hrun⟩ : ∃ ctx, PgsParser.create.decodeAll
      [oneRef 0, onePalette 5, onePixel, endDisplay] = some ⟨ctx, [ctx]⟩ := ⟨_, rfl⟩
  have hctx : ctx ∈ (PgsParser.mk ctx [ctx]).mPgsContextList := List.mem_singleton_self ctx
  exact ⟨_, ctx, hctx, hrun, rendersSafely_iff hrun hctx _⟩

/-! ## An object that is too large -/

section Large

variable {bytes bytes' : List UInt8}

theorem Runs.append {line line' : List UInt8} (hruns : Runs line bytes)
    (hruns' : Runs line' bytes') : Runs (line ++ line') (bytes ++ bytes') := by
  induction hruns with
  | nil => exact hruns'
  | cons hcode hrun _ ih =>
    rw [List.append_assoc, List.append_assoc]
    exact Runs.cons hcode hrun ih

/-- The runs of all pixels decode, without any end of a line. -/
theorem ok_decodeRle {image : List UInt8} {w h : ℕ} (behind : Source) (hw : 0 < w) (hh : 0 < h)
    (hfit : w * h + 16383 < 2 ^ 31) (hruns : Runs image bytes) (hlength : image.length = w * h) :
    (decodeRle bytes behind w h).ok = true := by
  have harea : asSigned 32 (w * h : ℕ) = (w * h : ℕ) := asSigned_of_lt (by omega)
  have hdrop : bytes.drop 0 = bytes ++ [] := List.drop_zero.trans (List.append_nil _).symm
  have hroom : (([] : List UInt8).length + image.length : ℕ) ≤ asSigned 32 (w * h : ℕ) := by
    rw [harea, List.length_nil, Nat.zero_add, hlength]
  have hloop : rleLoop (rleSource bytes behind) bytes.length w h 0 0 [] =
      rleLoop (rleSource bytes behind) bytes.length w h (0 + bytes.length) 0 ([] ++ image) :=
    rleLoop_runs hruns hdrop hh hroom
  have heq := hloop.symm.trans (rleLoop_eq hw hfit (Nat.zero_le _) (Nat.zero_add _).ge)
  rw [rleLoop_end (Nat.zero_add _).ge, List.nil_append, hlength, harea] at heq
  have hok := Ending.returned.inj (congrArg RleRun.ending heq)
  rw [decodeRle, ← hok]
  exact decide_eq_true (lt_irrefl _)

/-- A segment of an object: a header and some data. -/
def objectSegment (header data : List UInt8) : Segment :=
  segmentOf OBJECT_DEFINITION_SEGMENT (header ++ data)

theorem length_objectSegment {header data : List UInt8} {n : ℕ} (h : header.length = n) :
    (objectSegment header data).length = n + data.length := by
  rw [← h]
  exact List.length_append

theorem bytes_objectSegment (header data : List UInt8) :
    Pgs.bytes (objectSegment header data).buf header.length data.length = data := by
  refine List.ext_getElem (length_bytes _ _ _) fun i hi hi' => ?_
  simp only [Pgs.bytes, List.getElem_map, List.getElem_range]
  show (header ++ data).getD (header.length + i) 0 = data[i]
  rw [List.getD_append_right _ _ _ _ (by omega), Nat.add_sub_cancel_left,
    List.getD_eq_getElem _ _ hi']

/-- The codes of so many of the longest runs. -/
def longestRuns (n : ℕ) : List UInt8 := (List.replicate n [0, 0x7f, 0xff]).flatten

theorem length_longestRuns (n : ℕ) : (longestRuns n).length = 3 * n := by
  rw [longestRuns, List.length_flatten, List.map_replicate, List.sum_replicate, smul_eq_mul,
    Nat.mul_comm]
  rfl

theorem ne_nil_longestRuns {n : ℕ} (h : 0 < n) : longestRuns n ≠ [] := by
  refine List.ne_nil_of_length_pos ?_
  rw [length_longestRuns]
  omega

/-- A display set for a video of 32768 by 32768 pixels, whose object is as large. -/
def largeHead : List Segment :=
  [segmentOf PRESENTATION_COMPOSITION_SEGMENT
    [0x80, 0, 0x80, 0, 0x10, 0, 0, 0x80, 0, 0, 1, 0, 1, 0, 0, 0, 0, 0, 0], onePalette 5]

/-- The first segment of the object. -/
def largeFirst : Segment :=
  objectSegment [0, 1, 0, 0x80, 0x03, 0x00, 0x12, 0x80, 0, 0x80, 0] (longestRuns 21841)

/-- The other segments of the object. -/
def largeRest : List Segment :=
  [objectSegment [0, 1, 0, 0] (longestRuns 21843), objectSegment [0, 1, 0, 0] (longestRuns 21843),
    objectSegment [0, 1, 0, 0x40] (longestRuns 13 ++ [0, 4])]

theorem largeFirst_starts : Starts largeFirst 1 196622 (longestRuns 21841) where
  type_eq := rfl
  length_eq := length_objectSegment rfl
  nonempty := ne_nil_longestRuns (by decide)
  id_eq := rfl
  starts := by decide
  declared_eq := rfl
  data_eq := bytes_objectSegment _ _

/-- A segment with more data. -/
theorem continues_objectSegment {desc : UInt8} {data : List UInt8} (hdesc : desc &&& 0x80 = 0)
    (hdata : data ≠ []) : Continues (objectSegment [0, 1, 0, desc] data) 1 data where
  type_eq := rfl
  length_eq := length_objectSegment rfl
  nonempty := hdata
  id_eq := by
    rw [bytestreamGetBe16]
    show (0 : UInt8).toNat * 256 + (1 : UInt8).toNat = 1
    decide
  continues := hdesc
  data_eq := bytes_objectSegment _ _

theorem largeRest_carries : Carries 1 largeRest
    (longestRuns 21843 ++ (longestRuns 21843 ++ ((longestRuns 13 ++ [0, 4]) ++ []))) := by
  have hlong : longestRuns 21843 ≠ [] := ne_nil_longestRuns (by decide)
  exact .fragment (continues_objectSegment rfl hlong) (.fragment (continues_objectSegment rfl hlong)
    (.fragment (continues_objectSegment rfl (List.append_ne_nil_of_right_ne_nil _ nofun)) .nil))

/-- An object without data, or of 32768 by 32768 pixels. -/
def LargeOrEmpty (object : PGSSubObject) : Prop :=
  object.rle = [] ∧ object.rleRemainingLen = 0 ∨ object.w = 32768 ∧ object.h = 32768

theorem kept_largeOrEmpty {segment : Segment}
    (hsize : segment.type = OBJECT_DEFINITION_SEGMENT → ¬ isContinuation segment.buf →
      bytestreamGetBe16 segment.buf 7 = 32768 ∧ bytestreamGetBe16 segment.buf 9 = 32768)
    (hlength : segment.type = OBJECT_DEFINITION_SEGMENT → 4 < segment.length) :
    Kept LargeOrEmpty segment := by
  refine ⟨fun _ _ h => h, fun _ _ => Or.inl ⟨rfl, rfl⟩,
    fun htype p object object' h hdefine => ?_⟩
  rcases size_defineObject hdefine with ⟨hcontinues, hw, hh⟩ | ⟨hstarts, hw, hh⟩
  · rcases h with ⟨hrle, hleft⟩ | ⟨hw', hh'⟩
    · unfold defineObject continueObject at hdefine
      rw [if_pos hcontinues, if_pos (by have := hlength htype; omega)] at hdefine
      exact absurd (Option.some_inj.mp hdefine).symm (Option.some_ne_none _)
    · exact Or.inr ⟨hw.trans hw', hh.trans hh'⟩
  · obtain ⟨hw', hh'⟩ := hsize htype hstarts
    exact Or.inr ⟨hw.trans hw', hh.trans hh'⟩

/-- The segments of objects leave the presentation and the palettes alone. -/
theorem frame_decodeAll {parser parser' : PgsParser} {segments : List Segment}
    (htype : ∀ segment ∈ segments, segment.type = OBJECT_DEFINITION_SEGMENT)
    (h : parser.decodeAll segments = some parser') :
    parser'.mPgsContext.presentation = parser.mPgsContext.presentation ∧
      parser'.mPgsContext.palettes = parser.mPgsContext.palettes := by
  induction segments generalizing parser with
  | nil =>
    obtain rfl := Option.some_inj.mp h
    exact ⟨rfl, rfl⟩
  | cons segment segments ih =>
    rw [PgsParser.decodeAll] at h
    obtain ⟨parser₁, hdecode, hrest⟩ := Option.bind_eq_some_iff.mp h
    obtain ⟨r, hparse⟩ := decode_object (htype segment List.mem_cons_self) hdecode
    obtain ⟨hpresentation, hpalettes⟩ := frame_parseObjectSegment hparse
    obtain ⟨hpresentation', hpalettes'⟩ :=
      ih (fun s hs => htype s (List.mem_cons_of_mem _ hs)) hrest
    exact ⟨hpresentation'.trans hpresentation, hpalettes'.trans hpalettes⟩

/-- The data of the object. -/
theorem length_large : (longestRuns 21841).length + (longestRuns 21843 ++ (longestRuns 21843 ++
    ((longestRuns 13 ++ [0, 4]) ++ []))).length = 196622 := by
  simp only [List.length_append, length_longestRuns, List.length_cons, List.length_nil]

/-- Its pixels. -/
theorem runs_large : ∃ image, Runs image (longestRuns 21841 ++ (longestRuns 21843 ++
    (longestRuns 21843 ++ ((longestRuns 13 ++ [0, 4]) ++ [])))) ∧
      image.length = 32768 * 32768 := by
  have hfour : Runs (List.replicate 4 0) [0, 4] :=
    .cons (RleCode.zeros (show 4 < 64 by decide)) (by decide) .nil
  have hlong : ∀ n, ∃ image, Runs image (longestRuns n) ∧ image.length = n * 16383 := fun n =>
    ⟨_, runs_replicate rleCode_longest (by decide) n, List.length_replicate⟩
  obtain ⟨first, hfirst, hfirstLength⟩ := hlong 21841
  obtain ⟨more, hmore, hmoreLength⟩ := hlong 21843
  obtain ⟨last, hlast, hlastLength⟩ := hlong 13
  refine ⟨_, hfirst.append (hmore.append (hmore.append ((hlast.append hfour).append .nil))), ?_⟩
  simp only [List.length_append, hfirstLength, hmoreLength, hlastLength, List.length_replicate,
    List.length_nil]

/-- The object has its size, and the others are empty. -/
theorem kept_large : ∀ segment ∈ largeHead ++ (largeFirst :: largeRest),
    Kept LargeOrEmpty segment := by
  have hmore : ∀ desc data, desc &&& 0x80 = 0 → data ≠ [] →
      Kept LargeOrEmpty (objectSegment [0, 1, 0, desc] data) := by
    intro desc data hdesc hdata
    have hcontinues := continues_objectSegment hdesc hdata
    refine kept_largeOrEmpty (fun _ hstarts => absurd hcontinues.continues hstarts) fun _ => ?_
    rw [hcontinues.length_eq]
    have hpos := List.length_pos_of_ne_nil hdata
    omega
  have hfirst : ∀ data, data ≠ [] → Kept LargeOrEmpty
      (objectSegment [0, 1, 0, 0x80, 0x03, 0x00, 0x12, 0x80, 0, 0x80, 0] data) := by
    intro data hdata
    have hside : (0x80 : UInt8).toNat * 256 + (0 : UInt8).toNat = 32768 := by decide
    refine kept_largeOrEmpty (fun _ _ => ⟨hside, hside⟩) fun _ => ?_
    have hlength : (objectSegment [0, 1, 0, 0x80, 0x03, 0x00, 0x12, 0x80, 0, 0x80, 0]
        data).length = 11 + data.length := length_objectSegment rfl
    rw [hlength]
    omega
  have hlong : ∀ n, 0 < n → longestRuns n ≠ [] := fun _ => ne_nil_longestRuns
  simp only [largeHead, largeRest, List.mem_append, List.mem_cons, List.not_mem_nil, or_false]
  rintro segment ((rfl | rfl) | rfl | rfl | rfl | rfl)
  · exact kept_largeOrEmpty (fun h => absurd h (by decide)) fun h => absurd h (by decide)
  · exact kept_largeOrEmpty (fun h => absurd h (by decide)) fun h => absurd h (by decide)
  · exact hfirst _ (hlong 21841 (by decide))
  · exact hmore _ _ rfl (hlong 21843 (by decide))
  · exact hmore _ _ rfl (hlong 21843 (by decide))
  · exact hmore _ _ rfl (List.append_ne_nil_of_right_ne_nil _ nofun)

/-- A display set with four bytes for each of `2 ^ 30` pixels, whose memory has no byte. -/
theorem not_rendersSafely_large : ∃ parser ctx,
    PgsParser.create.decodeAll (largeHead ++ (largeFirst :: largeRest) ++ [endDisplay]) =
      some parser ∧ ctx ∈ parser.mPgsContextList ∧ ¬ RendersSafely ctx fun _ _ => 0 := by
  -- the segments in front of the object
  obtain ⟨parser, hhead, haccepts, hone, hpalette⟩ : ∃ parser,
      PgsParser.create.decodeAll largeHead = some parser ∧
        Accepts parser.mPgsContext largeFirst 1 ∧
        (parser.mPgsContext.presentation.objectCount = 1 ∧
          (parser.mPgsContext.presentation.objects 0).id = 1) ∧
        findPalette parser.mPgsContext.presentation.paletteId parser.mPgsContext.palettes ≠ none :=
    ⟨_, rfl, ⟨Or.inr (by decide), ⟨by decide, by decide⟩, by decide, by decide⟩, ⟨rfl, rfl⟩,
      by decide⟩
  obtain ⟨parser₁, hparser₁, -, hrun, -⟩ := fragments_run largeHead
  obtain rfl := Option.some_inj.mp (hhead.symm.trans hparser₁)
  obtain ⟨last, hlast, hgathered⟩ := hrun largeFirst largeRest 1 196622 _ _ haccepts
    largeFirst_starts largeRest_carries length_large
  obtain ⟨object, hlookup, hrle, hleft⟩ := hgathered
  obtain ⟨k, hfind, rfl⟩ := Option.map_eq_some_iff.mp hlookup
  -- its size, and what the other segments have set
  have hall : PgsParser.create.decodeAll (largeHead ++ (largeFirst :: largeRest)) = some last := by
    rw [decodeAll_append, hhead, Option.bind_some, hlast]
  have hlarge := (allObjects_decodeAll kept_large
    ⟨fun _ => Or.inl ⟨rfl, rfl⟩, fun _ h => absurd h List.not_mem_nil⟩ hall).1 k
  have hsmall := (allObjects_decodeAll (fun segment _ => kept_smallSize segment)
    ⟨fun _ => ⟨Nat.two_pow_pos 16, Nat.two_pow_pos 16⟩, fun _ h => absurd h List.not_mem_nil⟩
    hall).1
  obtain ⟨hpresentation, hpalettes⟩ := frame_decodeAll (by
    simp only [largeRest, List.mem_cons, List.not_mem_nil, or_false]
    rintro segment (rfl | rfl | rfl | rfl) <;> rfl) hlast
  refine ⟨_, last.mPgsContext, by
    rw [decodeAll_append, hall, Option.bind_some]
    rfl, List.mem_append_right _ (List.mem_singleton_self _), fun hsafe => ?_⟩
  have hrenderable := (rendersSafely_iff_of_small hsmall).mp hsafe (by
    rw [hpresentation, hpalettes]
    exact hpalette)
  rw [hpresentation, hone.1, RenderableFrom, hpresentation, hone.2] at hrenderable
  refine (hrenderable.1 k hfind).2 ?_
  -- the pixels of the object
  obtain ⟨image, hruns, hpixels⟩ := runs_large
  have hne : (last.mPgsContext.objects.object k).rle ≠ [] := by
    rw [hrle]
    exact List.append_ne_nil_of_left_ne_nil (ne_nil_longestRuns (by decide)) _
  obtain ⟨hw, hh⟩ := hlarge.resolve_left fun h => hne h.1
  refine ⟨by rw [hw, hh]; decide, by rw [hw, hh]; decide, hleft, ?_⟩
  rw [hrle, hw, hh]
  exact ok_decodeRle _ (by decide) (by decide) (by decide) hruns hpixels

end Large

end Pgs
end AmlSubtitle
