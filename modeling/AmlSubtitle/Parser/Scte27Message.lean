import AmlSubtitle.Parser.Scte27Drawing
import AmlSubtitle.Parser.Scte27Parser

/-!
# The picture of an SCTE-27 message

`decodeMessageBodySubtitle` sets the fields of an SPU, its `buffer_size` among them, whatever
`decodeBitmap` makes of the message; `decodeSubtitle` enqueues the SPU if its `buffer_size` is
positive.

* `decodeBitmap`: its stages, and the exits that leave the SPU without a picture.
* `enqueued_iff`: the sections for which what is enqueued holds as many bytes as its size says.

The exit for an empty rectangle logs the fields of a record that it has freed, through a pointer
that it has set to null.  `Surroundings` says if this ends the process.
-/

namespace AmlSubtitle
namespace Scte27

/-! ## The SPU -/

/-- `spu_data`: its size, and what was drawn. -/
structure Frame where
  size : ℕ
  drawing : Drawing

/-- The fields of `AML_SPUVAR` that are set. -/
structure Spu where
  isImmediatePresent : Bool
  spu_width : ℕ
  spu_height : ℕ
  spu_origin_display_w : ℕ
  spu_origin_display_h : ℕ
  buffer_size : ℕ
  pts : ℕ
  m_delay : ℕ
  spu_data : Option Frame

/-- `spu_data` holds `buffer_size` bytes. -/
def Spu.HoldsData (spu : Spu) : Prop := ∃ frame, spu.spu_data = some frame ∧
  spu.buffer_size ≤ frame.size

/-- What a call meets: the size of the video, the bytes of memory behind the message and around the
bitmap, the calls of `malloc` that succeed, and what a read through a null pointer does. -/
structure Surroundings where
  video : Display
  behind : ℕ → UInt8
  outside : ℤ → ℕ
  simple_bitmap : Bool
  bitmap : Bool
  bmp : Bool
  spu_data : Bool
  nullEnds : Bool

/-! ## The functions -/

/-- The bitmap that the run-length stage leaves. -/
def Rle.bitmap (s : Rle) : ℕ → ℕ :=
  s.stores.foldl (fun pixels store => Function.update pixels store.1 store.2) fun _ => PIXEL_BG

section

variable (w : Surroundings)

/-- `Scte27Parser::decodeBitmap`: what it leaves in `spu_data`, if the process goes on. -/
def decodeBitmap (buffer : ℕ → UInt8) (d : Display) : Option (Option Frame) :=
  if w.simple_bitmap then
    match setUp buffer with
    | .emptyRectangle => if w.nullEnds then none else some none
    | .outsideFrame => some none
    | .ready b beans =>
      if w.bitmap then
        (rleLoop b (fun i => buffer (beans + i)) (8 * b.bitmap_length + 8) startRle).map fun t =>
          if w.bmp then
            if w.spu_data then
              some
                { size := d.width * d.height * 4
                  drawing := drawing b d (b.memory t.bitmap w.outside) }
            else none
          else none
      else some none
  else some none

/-- The size of a display standard, and its `frame_duration`. -/
def displayStandard (display_standard : ℕ) : Display × ℕ :=
  match display_standard with
  | 0 => (⟨720, 480, by decide, by decide⟩, 3000)
  | 1 => (⟨720, 576, by decide, by decide⟩, 3600)
  | 2 => (⟨1280, 720, by decide, by decide⟩, 1500)
  | 3 => (⟨1920, 1080, by decide, by decide⟩, 1500)
  | _ => (w.video, 3600)

end

section Message

variable (buf : ℕ → UInt8)

/-! The fields of a message. -/

def displayStandardField : ℕ := (buf 3).toNat &&& 0x1F

def revealPts : ℕ :=
  (buf 4).toNat <<< 24 ||| (buf 5).toNat <<< 16 ||| (buf 6).toNat <<< 8 ||| (buf 7).toNat

def subtitleType : ℕ := (buf 8).toNat >>> 4 &&& 0xF

def displayDuration : ℕ := ((buf 8).toNat &&& 0x07) <<< 8 ||| (buf 9).toNat

def blockLength : ℕ := twoBytes buf 10

end Message

/-- `decodeMessageBodySubtitle`: the SPU, or none if it returns -1. -/
def decodeMessageBodySubtitle (w : Surroundings) (buf : ℕ → UInt8) (size : ℕ) :
    Option (Option Spu) :=
  if blockLength buf < 12 ∨ size < blockLength buf then
    some none
  else
    let (d, frame_duration) := displayStandard w (displayStandardField buf)
    let picture :=
      if subtitleType buf = 1 then decodeBitmap w (fun i => buf (12 + i)) d else some none
    picture.map fun spu_data => some
      { isImmediatePresent := (buf 3).toNat &&& 0x40 ≠ 0
        spu_width := d.width
        spu_height := d.height
        spu_origin_display_w := d.width
        spu_origin_display_h := d.height
        buffer_size := d.width * d.height * 4
        pts := revealPts buf
        m_delay := (revealPts buf + displayDuration buf + frame_duration) % 2 ^ 32
        spu_data := spu_data }

/-- The end of `decodeSubtitle`: the SPU that is enqueued. -/
def enqueue (w : Surroundings) (spu : Spu) : Option Spu :=
  if 0 < spu.buffer_size then
    if spu.spu_origin_display_w = 0 ∨ spu.spu_origin_display_h = 0 then
      some { spu with
        spu_origin_display_w := w.video.width
        spu_origin_display_h := w.video.height }
    else some spu
  else none

/-- The bytes of a message, and of the memory behind it. -/
def Surroundings.message (w : Surroundings) (body : List UInt8) : ℕ → UInt8 := fun i =>
  body.getD i (w.behind i)

/-- What a section enqueues; none if the call comes to no end. -/
def enqueued (w : Surroundings) (ctx : Scte27SubContext) (psrc : Section) : Option (Option Spu) :=
  (ctx.decodeSubtitle psrc).bind fun result =>
    match result.1 with
    | .decoded body =>
      (decodeMessageBodySubtitle w (w.message body) body.length).map fun spu => spu.bind (enqueue w)
    | _ => some none

/-! ## The exits -/

section Exits

variable (buffer : ℕ → UInt8)

/-- A rectangle that is not empty. -/
def HasArea : Prop :=
  coordinateH buffer 3 < coordinateH buffer 6 ∧ coordinateV buffer 3 < coordinateV buffer 6

/-- There is no frame, or the rectangle is in it. -/
def IsEnclosed : Prop :=
  (buffer 0).toNat &&& 1 <<< 2 = 0 ∨
    coordinateH buffer 9 ≤ coordinateH buffer 3 ∧ coordinateV buffer 9 ≤ coordinateV buffer 3 ∧
      coordinateH buffer 6 ≤ coordinateH buffer 12 ∧ coordinateV buffer 6 ≤ coordinateV buffer 12

variable {buffer} in
theorem setUp_of_not_isEnclosed (harea : HasArea buffer) (h : ¬ IsEnclosed buffer) :
    setUp buffer = .outsideFrame := by
  have harea' : coordinateH buffer 3 < coordinateH buffer 6 ∧
      coordinateV buffer 3 < coordinateV buffer 6 := harea
  obtain ⟨hframed, hout⟩ := not_or.mp h
  unfold setUp
  dsimp only
  rw [dif_pos harea', if_pos]
  rw [if_pos hframed, if_pos hframed, if_pos hframed, if_pos hframed]
  exact ⟨hframed, by omega⟩

variable {buffer} in
theorem exists_setUp_eq_ready (harea : HasArea buffer) (h : IsEnclosed buffer) :
    ∃ b beans, setUp buffer = .ready b beans := by
  have harea' : coordinateH buffer 3 < coordinateH buffer 6 ∧
      coordinateV buffer 3 < coordinateV buffer 6 := harea
  unfold setUp
  dsimp only
  rw [dif_pos harea']
  refine ⟨_, _, if_neg ?_⟩
  rintro ⟨hframed, hout⟩
  rw [if_pos hframed, if_pos hframed, if_pos hframed, if_pos hframed] at hout
  have henclosed := h.resolve_left hframed
  omega

theorem setUp_cases : ¬ HasArea buffer ∧ setUp buffer = .emptyRectangle ∨
    HasArea buffer ∧ ¬ IsEnclosed buffer ∧ setUp buffer = .outsideFrame ∨
      HasArea buffer ∧ IsEnclosed buffer ∧ ∃ b beans, setUp buffer = .ready b beans := by
  by_cases harea : HasArea buffer
  · by_cases henclosed : IsEnclosed buffer
    · exact .inr (.inr ⟨harea, henclosed, exists_setUp_eq_ready harea henclosed⟩)
    · exact .inr (.inl ⟨harea, henclosed, setUp_of_not_isEnclosed harea henclosed⟩)
  · exact .inl ⟨harea, dif_neg harea⟩

/-- The message has a picture: every call of `malloc` succeeds, and the rectangle is not empty and
in its frame. -/
structure Pictured (w : Surroundings) : Prop where
  area : HasArea buffer
  enclosed : IsEnclosed buffer
  simple_bitmap : w.simple_bitmap
  bitmap : w.bitmap
  bmp : w.bmp
  spu_data : w.spu_data

/-- The process ends in the log of an empty rectangle. -/
def EndsInLog (w : Surroundings) : Prop :=
  w.simple_bitmap ∧ w.nullEnds ∧ ¬ HasArea buffer

/-- **The exits of `decodeBitmap`**. -/
theorem decodeBitmap_cases (w : Surroundings) (d : Display) :
    EndsInLog buffer w ∧ decodeBitmap w buffer d = none ∨
      Pictured buffer w ∧ (∃ frame, decodeBitmap w buffer d = some (some frame) ∧
        frame.size = d.width * d.height * 4) ∨
      ¬ EndsInLog buffer w ∧ ¬ Pictured buffer w ∧ decodeBitmap w buffer d = some none := by
  unfold decodeBitmap
  by_cases hsimple : w.simple_bitmap
  · rw [if_pos hsimple]
    rcases setUp_cases buffer with
      ⟨harea, hset⟩ | ⟨harea, hout, hset⟩ | ⟨harea, hin, b, beans, hset⟩
    · rw [hset]
      by_cases hends : w.nullEnds
      · exact .inl ⟨⟨hsimple, hends, harea⟩, if_pos hends⟩
      · exact .inr (.inr ⟨fun h => hends h.2.1, fun h => harea h.area, if_neg hends⟩)
    · rw [hset]
      exact .inr (.inr ⟨fun h => h.2.2 harea, fun h => hout h.enclosed, rfl⟩)
    · rw [hset]
      obtain ⟨t, ht⟩ := rleLoop_isSome b (fun i => buffer (beans + i)) startRle (by decide)
        (Nat.succ_pos _) (Nat.le_add_left (8 * b.bitmap_length + 8) _)
      have hlog : ¬ EndsInLog buffer w := fun h => h.2.2 harea
      by_cases hbitmap : w.bitmap
      · simp only [hbitmap, if_true, ht, Option.map_some]
        by_cases hbmp : w.bmp
        · by_cases hdata : w.spu_data
          · rw [if_pos hbmp, if_pos hdata]
            exact .inr (.inl ⟨⟨harea, hin, hsimple, hbitmap, hbmp, hdata⟩, _, rfl, rfl⟩)
          · rw [if_pos hbmp, if_neg hdata]
            exact .inr (.inr ⟨hlog, fun h => hdata h.spu_data, rfl⟩)
        · rw [if_neg hbmp]
          exact .inr (.inr ⟨hlog, fun h => hbmp h.bmp, rfl⟩)
      · simp only [hbitmap]
        exact .inr (.inr ⟨hlog, fun h => hbitmap h.bitmap, rfl⟩)
  · rw [if_neg hsimple]
    exact .inr (.inr ⟨fun h => hsimple h.1, fun h => hsimple h.simple_bitmap, rfl⟩)

end Exits

/-! ## What is enqueued -/

/-- The fields of a message with which it does not lead to an SPU without a picture. -/
def IsSound (w : Surroundings) (buf : ℕ → UInt8) (size : ℕ) : Prop :=
  let d := (displayStandard w (displayStandardField buf)).1
  let bitmap := fun i => buf (12 + i)
  blockLength buf < 12 ∨ size < blockLength buf ∨ d.width * d.height = 0 ∨
    subtitleType buf = 1 ∧ (Pictured bitmap w ∨ EndsInLog bitmap w)

theorem holdsData_enqueue {w : Surroundings} {spu spu' : Spu} (h : enqueue w spu = some spu') :
    0 < spu.buffer_size ∧ (spu'.HoldsData ↔ spu.HoldsData) := by
  unfold enqueue at h
  split_ifs at h with hsize horigin
  · obtain rfl := Option.some.inj h
    exact ⟨hsize, Iff.rfl⟩
  · obtain rfl := Option.some.inj h
    exact ⟨hsize, Iff.rfl⟩

theorem exists_enqueue_eq_some (w : Surroundings) {spu : Spu} (h : 0 < spu.buffer_size) :
    ∃ spu', enqueue w spu = some spu' := by
  unfold enqueue
  split_ifs
  · exact ⟨_, rfl⟩
  · exact ⟨_, rfl⟩

/-- An SPU without a picture. -/
theorem forall_holdsData_iff {spu₀ : Spu} (h : spu₀.spu_data = none) :
    (∀ spu, some (some spu₀) = some (some spu) → 0 < spu.buffer_size → spu.HoldsData) ↔
      spu₀.buffer_size = 0 := by
  constructor
  · intro hall
    by_contra hsize
    obtain ⟨frame, hframe, -⟩ := hall spu₀ rfl (Nat.pos_of_ne_zero hsize)
    rw [h] at hframe
    cases hframe
  · intro hsize spu hspu hpos
    obtain rfl := Option.some.inj (Option.some.inj hspu)
    omega

/-- The SPU of a message. -/
theorem decodeMessageBodySubtitle_iff (w : Surroundings) (buf : ℕ → UInt8) (size : ℕ) :
    (∀ spu, decodeMessageBodySubtitle w buf size = some (some spu) → 0 < spu.buffer_size →
      spu.HoldsData) ↔ IsSound w buf size := by
  unfold decodeMessageBodySubtitle IsSound
  by_cases hblock : blockLength buf < 12 ∨ size < blockLength buf
  · rw [if_pos hblock]
    refine iff_of_true (fun spu h => by cases h) ?_
    tauto
  · rw [if_neg hblock]
    have hblock' := not_or.mp hblock
    obtain ⟨⟨d, frame_duration⟩, hd⟩ : ∃ d, displayStandard w (displayStandardField buf) = d :=
      ⟨_, rfl⟩
    rw [hd]
    dsimp only
    by_cases htype : subtitleType buf = 1
    · rw [if_pos htype]
      rcases decodeBitmap_cases (fun i => buf (12 + i)) w d with
        ⟨hends, hdec⟩ | ⟨hpictured, ⟨frame, hdec, hsize⟩⟩ | ⟨hends, hpictured, hdec⟩
      · rw [hdec]
        exact iff_of_true (fun spu h => by cases h) (.inr (.inr (.inr ⟨htype, .inr hends⟩)))
      · rw [hdec]
        refine iff_of_true (fun spu h _ => ?_) (.inr (.inr (.inr ⟨htype, .inl hpictured⟩)))
        obtain rfl := Option.some.inj (Option.some.inj h)
        exact ⟨frame, rfl, hsize.ge⟩
      · rw [hdec]
        refine (forall_holdsData_iff rfl).trans ?_
        simp [hblock', htype, hends, hpictured]
    · rw [if_neg htype]
      refine (forall_holdsData_iff rfl).trans ?_
      simp [hblock', htype]

/-- **A section** enqueues no SPU without its picture exactly if it does not lead to a message, or
to one that is sound. -/
theorem enqueued_iff (w : Surroundings) (ctx : Scte27SubContext) (psrc : Section) :
    (∀ spu, enqueued w ctx psrc = some (some spu) → spu.HoldsData) ↔
      ∀ body ctx', ctx.decodeSubtitle psrc = some (.decoded body, ctx') →
        IsSound w (w.message body) body.length := by
  unfold enqueued
  cases hctx : ctx.decodeSubtitle psrc with
  | none => exact iff_of_true (fun spu h => by cases h) fun body ctx' h => by cases h
  | some result =>
    obtain ⟨out, ctx'⟩ := result
    cases out with
    | failed => exact iff_of_true (fun spu h => by cases h) fun body ctx' h => by cases h
    | kept => exact iff_of_true (fun spu h => by cases h) fun body ctx' h => by cases h
    | decoded body =>
      have hsound := decodeMessageBodySubtitle_iff w (w.message body) body.length
      simp only [Option.bind_some, Option.some_inj, Prod.mk.injEq, Outcome.decoded.injEq, and_imp]
      constructor
      · rintro h _ _ rfl -
        refine hsound.mp fun spu hspu hpos => ?_
        obtain ⟨spu', hspu'⟩ := exists_enqueue_eq_some w hpos
        refine (holdsData_enqueue hspu').2.mp (h spu' ?_)
        rw [hspu, Option.map_some, Option.bind_some, hspu']
      · intro h spu' hspu'
        obtain ⟨r, hr, hspu'⟩ := Option.map_eq_some_iff.mp hspu'
        obtain ⟨spu, rfl, hspu'⟩ := Option.bind_eq_some_iff.mp hspu'
        obtain ⟨hpos, hiff⟩ := holdsData_enqueue hspu'
        exact hiff.mpr (hsound.mpr (h body ctx' rfl rfl) spu hr hpos)

/-- A message of 12 bytes, of a type that is not a simple bitmap. -/
theorem not_holdsData_otherType : ¬ ∀ w psrc spu,
    enqueued w initContext psrc = some (some spu) → spu.HoldsData := by
  intro h
  obtain ⟨frame, hframe, -⟩ := h
    ⟨⟨720, 480, by decide, by decide⟩, fun _ => 0, fun _ => 0, true, true, true, true, true⟩
    ([0xc6, 0, 17, 0, 0x65, 0x6e, 0x67, 0x80, 0, 0, 0, 0, 0x20, 0, 0, 12].getD · 0) _ rfl
  cases hframe

end Scte27
end AmlSubtitle
