import AmlSubtitle.Parser.PgsObject

/-!
# What two PGS contexts share

Two parsers that read the same segments do the same to what their contexts have in common.

* `compose_congr`, `parsePaletteSegment_congr`: a segment that is not read past its end is
  its bytes.
* `SamePresentation`, `SamePalettes`, `SameObjects`: two contexts with the same references
  among some, with the same colours among some, and with the same objects.  The arrays keep
  more: a palette slot that is given away keeps its colours, and a composition counts
  references that it did not read.
* `compose_same`, `parsePaletteSegment_same`, `parseObjectSegment_same`: what is read is
  shared from then on.
* `flushPgsContext_same`: all contexts have the same objects after a flush.
-/

namespace AmlSubtitle
namespace Pgs

/-! ## The bytes of compositions and palettes -/

section Congr

variable {buf buf' : Source} {n k i pos : ℕ} {p : PGSSubPresentation}

theorem readRef_congr {old : PGSSubObjectRef} (hagree : AgreeTo n buf buf')
    (hreach : (readRef buf pos old).2 ≤ n) : readRef buf pos old = readRef buf' pos old := by
  unfold readRef at hreach ⊢
  dsimp only at hreach ⊢
  have hlen : pos + 8 ≤ n := by
    split_ifs at hreach <;> dsimp only at hreach <;> omega
  rw [bytestreamGetBe16_congr hagree (show pos + 1 < n by omega),
    bytestreamGetByte_congr hagree (show pos + 2 < n by omega), hagree (pos + 3) (by omega),
    bytestreamGetBe16_congr hagree (show pos + 4 + 1 < n by omega),
    bytestreamGetBe16_congr hagree (show pos + 6 + 1 < n by omega)]
  rw [hagree (pos + 3) (by omega)] at hreach
  by_cases hcrop : buf' (pos + 3) &&& 0x80 ≠ 0
  · rw [if_pos hcrop] at hreach
    dsimp only at hreach
    rw [if_pos hcrop, if_pos hcrop, bytestreamGetBe16_congr hagree (show pos + 8 + 1 < n by omega),
      bytestreamGetBe16_congr hagree (show pos + 10 + 1 < n by omega),
      bytestreamGetBe16_congr hagree (show pos + 12 + 1 < n by omega),
      bytestreamGetBe16_congr hagree (show pos + 14 + 1 < n by omega)]
  · rw [if_neg hcrop, if_neg hcrop]

theorem lt_readRef (buf : Source) (pos : ℕ) (old : PGSSubObjectRef) :
    pos < (readRef buf pos old).2 := by
  unfold readRef
  dsimp only
  split_ifs <;> dsimp only <;> omega

theorem le_reach_readRefs : pos ≤ (readRefs buf n k i pos p).reach := by
  induction k generalizing i pos p with
  | zero => exact le_rfl
  | succ k ih =>
    unfold readRefs
    dsimp only
    split_ifs
    · exact le_rfl
    · exact (lt_readRef _ _ _).le
    · exact (lt_readRef _ _ _).le.trans ih

theorem readRefs_congr (hagree : AgreeTo n buf buf')
    (hreach : (readRefs buf n k i pos p).reach ≤ n) :
    readRefs buf n k i pos p = readRefs buf' n k i pos p := by
  induction k generalizing i pos p with
  | zero => rfl
  | succ k ih =>
    unfold readRefs at hreach ⊢
    dsimp only at hreach ⊢
    by_cases hshort : n < pos + 8
    · rw [if_pos hshort, if_pos hshort]
    · rw [if_neg hshort] at hreach
      rw [if_neg hshort, if_neg hshort]
      have href : readRef buf pos (p.objects i) = readRef buf' pos (p.objects i) := by
        refine readRef_congr hagree (le_trans ?_ hreach)
        split_ifs
        · exact le_rfl
        · exact le_reach_readRefs
      rw [← href]
      split_ifs at hreach ⊢
      · rfl
      · exact ih hreach

theorem le_reach_compose : 11 ≤ (compose buf n p).reach := by
  unfold compose
  dsimp only
  split_ifs
  · exact le_rfl
  · exact le_reach_readRefs

theorem compositionState_congr (hagree : AgreeTo n buf buf') (hn : 7 < n) :
    compositionState buf = compositionState buf' := by
  rw [compositionState, compositionState, bytestreamGetByte_congr hagree hn]

/-- Where no byte behind the segment is read, the bytes behind it do not matter. -/
theorem compose_congr (hagree : AgreeTo n buf buf') (hreach : (compose buf n p).reach ≤ n) :
    compose buf n p = compose buf' n p := by
  have hlen := le_reach_compose.trans hreach
  have hhead : readHead buf p = readHead buf' p := by
    rw [readHead, readHead, bytestreamGetBe16_congr hagree (show 0 + 1 < n by omega),
      bytestreamGetBe16_congr hagree (show 2 + 1 < n by omega),
      bytestreamGetBe16_congr hagree (show 5 + 1 < n by omega),
      bytestreamGetByte_congr hagree (show 9 < n by omega),
      bytestreamGetByte_congr hagree (show 10 < n by omega)]
  unfold compose at hreach ⊢
  dsimp only at hreach ⊢
  rw [← hhead]
  split_ifs at hreach ⊢
  · rfl
  · exact readRefs_congr hagree hreach

theorem le_coloursReach : pos ≤ coloursReach n k pos := by
  induction k generalizing pos with
  | zero => exact le_rfl
  | succ k ih =>
    unfold coloursReach
    split_ifs
    · exact (Nat.le_add_right pos 5).trans ih
    · exact le_rfl

theorem readColours_congr {bt709 : Bool} (hagree : AgreeTo n buf buf')
    (hreach : coloursReach n k pos ≤ n) :
    readColours buf n bt709 k pos = readColours buf' n bt709 k pos := by
  induction k generalizing pos with
  | zero => rfl
  | succ k ih =>
    unfold coloursReach at hreach
    unfold readColours
    by_cases hpos : pos < n
    · rw [if_pos hpos] at hreach
      have hlen := le_coloursReach.trans hreach
      rw [if_pos hpos, if_pos hpos, hagree pos hpos,
        bytestreamGetByte_congr hagree (show pos + 1 < n by omega),
        bytestreamGetByte_congr hagree (show pos + 2 < n by omega),
        bytestreamGetByte_congr hagree (show pos + 3 < n by omega),
        bytestreamGetByte_congr hagree (show pos + 4 < n by omega), ih hreach]
    · rw [if_neg hpos, if_neg hpos]

/-- The end of the bytes of a palette segment that are read. -/
def paletteReach (palettes : PGSSubPalettes) (buf : Source) (bufSize : ℕ) : ℕ :=
  match paletteSlot palettes (bytestreamGetByte buf 0) with
  | none => 1
  | some _ => if 2 < bufSize then coloursReach bufSize bufSize 2 else 1

theorem pos_paletteReach (palettes : PGSSubPalettes) (buf : Source) (n : ℕ) :
    0 < paletteReach palettes buf n := by
  unfold paletteReach
  split
  · exact one_pos
  · split_ifs
    · exact lt_of_lt_of_le (by decide) le_coloursReach
    · exact one_pos

theorem readColours_of_le (buf : Source) (bt709 : Bool) (h : n ≤ pos) :
    readColours buf n bt709 k pos = [] := by
  cases k with
  | zero => rfl
  | succ k => rw [readColours, if_neg (not_lt.mpr h)]

/-- The same for a palette segment. -/
theorem parsePaletteSegment_congr {ctx : PGSSubContext} (hagree : AgreeTo n buf buf')
    (hreach : paletteReach ctx.palettes buf n ≤ n) :
    parsePaletteSegment ctx buf n = parsePaletteSegment ctx buf' n := by
  have hid : bytestreamGetByte buf 0 = bytestreamGetByte buf' 0 :=
    bytestreamGetByte_congr hagree ((pos_paletteReach _ _ _).trans_le hreach)
  unfold parsePaletteSegment
  unfold paletteReach at hreach
  rw [← hid]
  cases hslot : paletteSlot ctx.palettes (bytestreamGetByte buf 0) with
  | none => rfl
  | some slot =>
    rw [hslot] at hreach
    dsimp only at hreach ⊢
    have hcolours : readColours buf n (isBt709 ctx.presentation) n 2 =
        readColours buf' n (isBt709 ctx.presentation) n 2 := by
      by_cases hn : 2 < n
      · rw [if_pos hn] at hreach
        exact readColours_congr hagree hreach
      · rw [readColours_of_le _ _ (not_lt.mp hn), readColours_of_le _ _ (not_lt.mp hn)]
    rw [hcolours]

end Congr

/-! ## What two contexts share -/

/-- Two references to the same object at the same place.  The cropping may be an old one. -/
structure SameRef (ref ref' : PGSSubObjectRef) : Prop where
  id_eq : ref.id = ref'.id
  windowId_eq : ref.windowId = ref'.windowId
  compositionFlag_eq : ref.compositionFlag = ref'.compositionFlag
  x_eq : ref.x = ref'.x
  y_eq : ref.y = ref'.y

/-- Two presentations with the same references among `refs`. -/
structure SamePresentation (refs : ℕ → Bool) (p p' : PGSSubPresentation) : Prop where
  videoWidth_eq : p.videoWidth = p'.videoWidth
  videoHeight_eq : p.videoHeight = p'.videoHeight
  idNumber_eq : p.idNumber = p'.idNumber
  paletteId_eq : p.paletteId = p'.paletteId
  objectCount_eq : p.objectCount = p'.objectCount
  pts_eq : p.pts = p'.pts
  refs_same : ∀ i, refs i → SameRef (p.objects i) (p'.objects i)

/-- Two palette tables with the same palettes, and the same colours among `colours`. -/
structure SamePalettes (colours : ℕ → UInt8 → Bool) (palettes palettes' : PGSSubPalettes) :
    Prop where
  count_eq : palettes.count = palettes'.count
  id_eq : ∀ j < palettes.count, (palettes.palette j).id = (palettes'.palette j).id
  argb_eq : ∀ j c, colours j c → (palettes.palette j).argb c = (palettes'.palette j).argb c

/-- Two objects with the same data.  Without data the size is an old one. -/
structure SameObject (object object' : PGSSubObject) : Prop where
  id_eq : object.id = object'.id
  rle_eq : object.rle = object'.rle
  rleRemainingLen_eq : object.rleRemainingLen = object'.rleRemainingLen
  size_eq : object.rle ≠ [] →
    object.w = object'.w ∧ object.h = object'.h ∧ object.rleDataLen = object'.rleDataLen

/-- Sound objects, and no data behind the last. -/
structure Fresh (objects : PGSSubObjects) : Prop where
  sound : ∀ i, Sound (objects.object i)
  rle_eq_nil : ∀ i, objects.count ≤ i → (objects.object i).rle = []

/-- Two object tables with the same objects. -/
structure SameObjects (objects objects' : PGSSubObjects) : Prop where
  count_eq : objects.count = objects'.count
  object_same : ∀ i < objects.count, SameObject (objects.object i) (objects'.object i)
  fresh : Fresh objects
  fresh' : Fresh objects'

/-! ### Compositions -/

/-- Some references, and the first `i`. -/
def withFirst (refs : ℕ → Bool) (i : ℕ) : ℕ → Bool := fun m => refs m || decide (m < i)

theorem withFirst_iff {refs : ℕ → Bool} {i m : ℕ} :
    withFirst refs i m = true ↔ refs m = true ∨ m < i := by
  rw [withFirst, Bool.or_eq_true, decide_eq_true_eq]

section Composition

variable {refs : ℕ → Bool} {p p' : PGSSubPresentation} {buf : Source} {n k i pos : ℕ}

theorem readRef_same (buf : Source) (pos : ℕ) (old old' : PGSSubObjectRef) :
    (readRef buf pos old).2 = (readRef buf pos old').2 ∧
      SameRef (readRef buf pos old).1 (readRef buf pos old').1 := by
  unfold readRef
  dsimp only
  split_ifs
  · exact ⟨rfl, rfl, rfl, rfl, rfl, rfl⟩
  · exact ⟨rfl, rfl, rfl, rfl, rfl, rfl⟩

/-- A reference that is read is shared from then on. -/
theorem SamePresentation.update {ref ref' : PGSSubObjectRef}
    (h : SamePresentation (withFirst refs i) p p') (href : SameRef ref ref') :
    SamePresentation (withFirst refs (i + 1))
      { p with objects := Function.update p.objects i ref }
      { p' with objects := Function.update p'.objects i ref' } := by
  refine ⟨h.videoWidth_eq, h.videoHeight_eq, h.idNumber_eq, h.paletteId_eq, h.objectCount_eq,
    h.pts_eq, fun m hm => ?_⟩
  dsimp only
  by_cases hmi : m = i
  · rw [hmi, Function.update_self, Function.update_self]
    exact href
  · rw [Function.update_of_ne hmi, Function.update_of_ne hmi]
    refine h.refs_same m ?_
    rw [withFirst_iff] at hm ⊢
    exact hm.imp_right fun hm => (Nat.lt_succ_iff_lt_or_eq.mp hm).resolve_right hmi

/-- **The loop over the references.** -/
theorem readRefs_same (h : SamePresentation (withFirst refs i) p p') :
    (readRefs buf n k i pos p).refs = (readRefs buf n k i pos p').refs ∧
      (readRefs buf n k i pos p).reach = (readRefs buf n k i pos p').reach ∧
      SamePresentation (withFirst refs (readRefs buf n k i pos p).refs)
        (readRefs buf n k i pos p).presentation (readRefs buf n k i pos p').presentation := by
  induction k generalizing i pos p p' with
  | zero => exact ⟨rfl, rfl, h⟩
  | succ k ih =>
    obtain ⟨hpos, href⟩ := readRef_same buf pos (p.objects i) (p'.objects i)
    unfold readRefs
    dsimp only
    by_cases hshort : n < pos + 8
    · rw [if_pos hshort, if_pos hshort]
      exact ⟨rfl, rfl, { h with objectCount_eq := rfl }⟩
    have hout : (readRef buf pos (p'.objects i)).1.x > p'.videoWidth ∨
        (readRef buf pos (p'.objects i)).1.y > p'.videoHeight ↔
        (readRef buf pos (p.objects i)).1.x > p.videoWidth ∨
        (readRef buf pos (p.objects i)).1.y > p.videoHeight := by
      rw [href.x_eq, href.y_eq, h.videoWidth_eq, h.videoHeight_eq]
    rw [if_neg hshort, if_neg hshort, hpos]
    simp only [hout]
    split_ifs
    · have hzero : SameRef { (readRef buf pos (p.objects i)).1 with x := 0, y := 0 }
          { (readRef buf pos (p'.objects i)).1 with x := 0, y := 0 } :=
        ⟨href.id_eq, href.windowId_eq, href.compositionFlag_eq, rfl, rfl⟩
      exact ⟨rfl, rfl, h.update hzero⟩
    · exact ih (h.update href)

/-- What a segment makes of two presentations. -/
theorem compose_same (buf : Source) (n : ℕ) (hpts : p.pts = p'.pts)
    (hrefs : ∀ m, refs m → SameRef (p.objects m) (p'.objects m)) :
    (compose buf n p).refs = (compose buf n p').refs ∧
      (compose buf n p).reach = (compose buf n p').reach ∧
      SamePresentation (withFirst refs (compose buf n p).refs)
        (compose buf n p).presentation (compose buf n p').presentation := by
  have hhead : SamePresentation (withFirst refs 0) (readHead buf p) (readHead buf p') := by
    refine ⟨rfl, rfl, rfl, rfl, rfl, hpts, fun m hm => hrefs m ?_⟩
    rw [withFirst_iff] at hm
    exact hm.resolve_right (Nat.not_lt_zero m)
  unfold compose
  dsimp only
  rw [← hhead.objectCount_eq]
  split_ifs
  · exact ⟨rfl, rfl, { hhead with objectCount_eq := rfl }⟩
  · exact readRefs_same hhead

end Composition

/-! ### Palettes -/

/-- The colours that were defined, with those of a segment in its slot. -/
def coloursAfter (colours : ℕ → UInt8 → Bool) (ctx : PGSSubContext) (buf : Source)
    (bufSize : ℕ) : ℕ → UInt8 → Bool :=
  match paletteSlot ctx.palettes (bytestreamGetByte buf 0) with
  | none => colours
  | some (j, _) =>
    Function.update colours j fun c => colours j c ||
      (readColours buf bufSize (isBt709 ctx.presentation) bufSize 2).any fun colour => colour.1 = c

section Palette

variable {colours : ℕ → UInt8 → Bool} {palettes palettes' : PGSSubPalettes}
  {ctx ctx' : PGSSubContext} {buf : Source} {n id : ℕ}

theorem findPalette_same (h : SamePalettes colours palettes palettes') (id : ℕ) :
    findPalette id palettes = findPalette id palettes' := by
  rw [findPalette, findPalette, ← h.count_eq]
  exact find_congr h.id_eq

/-- A palette is changed in both. -/
theorem SamePalettes.modify (h : SamePalettes colours palettes palettes') (j : ℕ)
    (f f' : PGSSubPalette → PGSSubPalette) {known : UInt8 → Bool}
    (hid : (f (palettes.palette j)).id = (f' (palettes'.palette j)).id)
    (hargb : ∀ c, known c → (f (palettes.palette j)).argb c = (f' (palettes'.palette j)).argb c) :
    SamePalettes (Function.update colours j known) (palettes.modify j f)
      (palettes'.modify j f') := by
  refine ⟨h.count_eq, fun k hk => ?_, fun k c hc => ?_⟩
  · rw [PGSSubPalettes.modify, PGSSubPalettes.modify]
    dsimp only
    by_cases hkj : k = j
    · rw [hkj, Function.update_self, Function.update_self, hid]
    · rw [Function.update_of_ne hkj, Function.update_of_ne hkj]
      exact h.id_eq k hk
  · rw [PGSSubPalettes.modify, PGSSubPalettes.modify]
    dsimp only
    by_cases hkj : k = j
    · rw [hkj, Function.update_self] at hc
      rw [hkj, Function.update_self, Function.update_self]
      exact hargb c hc
    · rw [Function.update_of_ne hkj] at hc
      rw [Function.update_of_ne hkj, Function.update_of_ne hkj]
      exact h.argb_eq k c hc

/-- A palette gets the same slot in both. -/
theorem paletteSlot_same (h : SamePalettes colours palettes palettes') (id : ℕ) :
    paletteSlot palettes id = none ∧ paletteSlot palettes' id = none ∨
      ∃ j after after', paletteSlot palettes id = some (j, after) ∧
        paletteSlot palettes' id = some (j, after') ∧ j < after.count ∧
        SamePalettes colours after after' := by
  unfold paletteSlot
  rw [← findPalette_same h]
  cases hfind : findPalette id palettes with
  | some j => exact Or.inr ⟨j, palettes, palettes', rfl, rfl, (find_eq_some hfind).1, h⟩
  | none =>
    dsimp only
    rw [← h.count_eq]
    split_ifs
    · exact Or.inl ⟨rfl, rfl⟩
    · refine Or.inr ⟨_, _, _, rfl, rfl, Nat.lt_succ_self _, ?_⟩
      have hnew := h.modify palettes.count ({ · with id := id }) ({ · with id := id }) rfl
        (h.argb_eq palettes.count)
      rw [Function.update_eq_self] at hnew
      refine ⟨rfl, fun k hk => ?_, hnew.argb_eq⟩
      rcases Nat.lt_succ_iff_lt_or_eq.mp hk with hk | rfl
      · exact hnew.id_eq k hk
      · rw [PGSSubPalettes.modify, PGSSubPalettes.modify]
        dsimp only
        rw [Function.update_self, Function.update_self]

/-- Colours that are written are shared. -/
theorem writeColours_same {known : UInt8 → Bool} {argb argb' : UInt8 → ℕ}
    (h : ∀ c, known c → argb c = argb' c) (written : List (UInt8 × ℕ)) (c : UInt8)
    (hc : (known c || written.any fun colour => colour.1 = c) = true) :
    writeColours argb written c = writeColours argb' written c := by
  induction written generalizing known argb argb' with
  | nil => exact h c (by simpa using hc)
  | cons colour written ih =>
    rw [writeColours, List.foldl_cons, writeColours, List.foldl_cons]
    refine @ih (fun c => known c || decide (colour.1 = c)) _ _ (fun c hc => ?_) ?_
    · by_cases hcolour : c = colour.1
      · rw [hcolour, Function.update_self, Function.update_self]
      · rw [Function.update_of_ne hcolour, Function.update_of_ne hcolour]
        exact h c (by simpa [Ne.symm hcolour] using hc)
    · rwa [List.any_cons, ← Bool.or_assoc] at hc

/-- What a segment makes of two palette tables. -/
theorem parsePaletteSegment_same (h : SamePalettes colours ctx.palettes ctx'.palettes)
    (hheight : ctx.presentation.videoHeight = ctx'.presentation.videoHeight) (buf : Source)
    (n : ℕ) : SamePalettes (coloursAfter colours ctx buf n)
      (parsePaletteSegment ctx buf n).palettes (parsePaletteSegment ctx' buf n).palettes := by
  unfold coloursAfter parsePaletteSegment
  rcases paletteSlot_same h (bytestreamGetByte buf 0) with
    ⟨hnone, hnone'⟩ | ⟨j, after, after', hslot, hslot', hj, hsame⟩
  · rw [hnone, hnone']
    exact h
  · have hbt709 : isBt709 ctx.presentation = isBt709 ctx'.presentation := by
      rw [isBt709, isBt709, hheight]
    rw [hslot, hslot']
    dsimp only
    rw [← hbt709]
    refine hsame.modify j _ _ (hsame.id_eq j hj) fun c hc => ?_
    exact writeColours_same (hsame.argb_eq j) _ c hc

theorem presentation_parsePaletteSegment (ctx : PGSSubContext) (buf : Source) (n : ℕ) :
    (parsePaletteSegment ctx buf n).presentation = ctx.presentation := by
  unfold parsePaletteSegment
  split <;> rfl

end Palette

/-! ### Objects -/

section Object

variable {objects objects' : PGSSubObjects} {object object' : PGSSubObject}
  {ctx ctx' : PGSSubContext} {p p' : PGSSubPresentation} {buf : Source} {n id i : ℕ}

/-- Without data nothing is to come. -/
theorem rleRemainingLen_eq_zero (h : Sound object) (hrle : object.rle = []) :
    object.rleRemainingLen = 0 := by
  by_contra hleft
  have hpos := (h (Nat.pos_of_ne_zero hleft)).1
  rw [hrle] at hpos
  exact absurd hpos (lt_irrefl 0)

theorem SameObjects.of_fresh (h : Fresh objects) : SameObjects objects objects :=
  ⟨rfl, fun _ _ => ⟨rfl, rfl, rfl, fun _ => ⟨rfl, rfl, rfl⟩⟩, h, h⟩

theorem fresh_flushPgsContext (h : Fresh ctx.objects) : Fresh (flushPgsContext ctx).objects := by
  refine ⟨sound_flushPgsContext h.sound, fun i _ => ?_⟩
  rw [flushPgsContext]
  dsimp only
  split_ifs with hi
  · rfl
  · exact h.rle_eq_nil i (not_lt.mp hi)

/-- After a flush there are no objects. -/
theorem flushPgsContext_same (h : Fresh ctx.objects) (h' : Fresh ctx'.objects) :
    SameObjects (flushPgsContext ctx).objects (flushPgsContext ctx').objects :=
  ⟨rfl, fun _ hi => absurd hi (Nat.not_lt_zero _), fresh_flushPgsContext h,
    fresh_flushPgsContext h'⟩

theorem findObject_same (h : SameObjects objects objects') (id : ℕ) :
    findObject id objects = findObject id objects' := by
  rw [findObject, findObject, ← h.count_eq]
  exact find_congr fun i hi => (h.object_same i hi).id_eq

/-- A counted object is changed. -/
theorem Fresh.modify (h : Fresh objects) (hi : i < objects.count)
    {f : PGSSubObject → PGSSubObject} (hsound : Sound (f (objects.object i))) :
    Fresh (objects.modify i f) := by
  refine ⟨forall_modify h.sound hsound, fun k hk => ?_⟩
  rw [PGSSubObjects.modify] at hk ⊢
  dsimp only at hk ⊢
  rw [Function.update_of_ne (by omega)]
  exact h.rle_eq_nil k hk

/-- An object is counted. -/
theorem Fresh.succ (h : Fresh objects) (id : ℕ) :
    Fresh { objects.modify objects.count ({ · with id := id }) with
      count := objects.count + 1 } := by
  refine ⟨forall_modify (f := ({ · with id := id })) h.sound (h.sound objects.count),
    fun k hk => ?_⟩
  rw [PGSSubObjects.modify]
  dsimp only at hk ⊢
  rw [Function.update_of_ne (by omega)]
  exact h.rle_eq_nil k (by omega)

/-- A counted object is changed in both. -/
theorem SameObjects.modify (h : SameObjects objects objects') (hi : i < objects.count)
    (hsame : SameObject object object') (hsound : Sound object) (hsound' : Sound object') :
    SameObjects (objects.modify i fun _ => object) (objects'.modify i fun _ => object') := by
  refine ⟨h.count_eq, fun k hk => ?_, h.fresh.modify hi hsound,
    h.fresh'.modify (h.count_eq ▸ hi) hsound'⟩
  rw [PGSSubObjects.modify, PGSSubObjects.modify]
  dsimp only
  by_cases hki : k = i
  · rw [hki, Function.update_self, Function.update_self]
    exact hsame
  · rw [Function.update_of_ne hki, Function.update_of_ne hki]
    exact h.object_same k hk

/-- An object gets the same slot in both. -/
theorem objectSlot_same (h : SameObjects objects objects') (id : ℕ) :
    objectSlot objects id = none ∧ objectSlot objects' id = none ∨
      ∃ i after after', objectSlot objects id = some (i, after) ∧
        objectSlot objects' id = some (i, after') ∧ i < after.count ∧
        SameObjects after after' := by
  unfold objectSlot
  rw [← findObject_same h]
  cases hfind : findObject id objects with
  | some i => exact Or.inr ⟨i, objects, objects', rfl, rfl, (find_eq_some hfind).1, h⟩
  | none =>
    dsimp only
    rw [← h.count_eq]
    split_ifs
    · exact Or.inl ⟨rfl, rfl⟩
    · refine Or.inr ⟨_, _, _, rfl, rfl, Nat.lt_succ_self _, rfl, fun k hk => ?_, h.fresh.succ id,
        h.count_eq ▸ h.fresh'.succ id⟩
      rw [PGSSubObjects.modify, PGSSubObjects.modify]
      dsimp only
      by_cases hknew : k = objects.count
      · -- the new object has no data
        have hrle := h.fresh.rle_eq_nil objects.count le_rfl
        have hrle' := h.fresh'.rle_eq_nil objects.count h.count_eq.ge
        rw [hknew, Function.update_self, Function.update_self]
        refine ⟨rfl, hrle.trans hrle'.symm, ?_, fun hne => absurd hrle hne⟩
        exact (rleRemainingLen_eq_zero (h.fresh.sound _) hrle).trans
          (rleRemainingLen_eq_zero (h.fresh'.sound _) hrle').symm
      · rw [Function.update_of_ne hknew, Function.update_of_ne hknew]
        exact h.object_same k ((Nat.lt_succ_iff_lt_or_eq.mp hk).resolve_right hknew)

/-- A segment makes the same of two objects with the same data. -/
theorem defineObject_same (buf : Source) (h : SameObject object object') (hsound : Sound object)
    (hsound' : Sound object') (hwidth : p.videoWidth = p'.videoWidth)
    (hheight : p.videoHeight = p'.videoHeight) (hn : 4 < n) :
    defineObject p object buf n = some none ∧ defineObject p' object' buf n = some none ∨
      ∃ after after', defineObject p object buf n = some (some after) ∧
        defineObject p' object' buf n = some (some after') ∧ SameObject after after' := by
  unfold defineObject
  have hleft := h.rleRemainingLen_eq
  split_ifs with hcontinues
  · rcases continueObject_cases buf hsound hn with ⟨hreject, hlong⟩ | ⟨happend, hle⟩
    · rcases continueObject_cases buf hsound' hn with ⟨hreject', -⟩ | ⟨-, hle'⟩
      · exact Or.inl ⟨hreject, hreject'⟩
      · omega
    · rcases continueObject_cases buf hsound' hn with ⟨-, hlong'⟩ | ⟨happend', -⟩
      · omega
      · refine Or.inr ⟨_, _, happend, happend', h.id_eq, ?_, ?_, fun _ => ?_⟩
        · dsimp only
          rw [h.rle_eq]
        · dsimp only
          rw [hleft]
        · -- there is data already, so that the sizes are the same
          have hpos := (hsound (by omega)).1
          obtain ⟨hw, hh, hlen⟩ := h.size_eq (List.length_pos_iff.mp hpos)
          exact ⟨hw, hh, congrArg (· + (n - 4)) hlen⟩
  · unfold startObject
    rw [← hwidth, ← hheight]
    split_ifs
    · exact Or.inl ⟨rfl, rfl⟩
    · exact Or.inl ⟨rfl, rfl⟩
    · dsimp only
      split_ifs
      · exact Or.inl ⟨rfl, rfl⟩
      · exact Or.inr ⟨_, _, rfl, rfl, h.id_eq, rfl, rfl, fun _ => ⟨rfl, rfl, rfl⟩⟩

/-- What a segment makes of two object tables. -/
theorem parseObjectSegment_same (h : SameObjects ctx.objects ctx'.objects)
    (hwidth : ctx.presentation.videoWidth = ctx'.presentation.videoWidth)
    (hheight : ctx.presentation.videoHeight = ctx'.presentation.videoHeight) (buf : Source)
    (n : ℕ) : ∃ r r', parseObjectSegment ctx buf n = some r ∧
      parseObjectSegment ctx' buf n = some r' ∧ SameObjects r.2.objects r'.2.objects := by
  unfold parseObjectSegment
  by_cases hn : n ≤ 4
  · rw [if_pos hn, if_pos hn]
    exact ⟨_, _, rfl, rfl, h⟩
  rw [if_neg hn, if_neg hn]
  rcases objectSlot_same h (bytestreamGetBe16 buf 0) with
    ⟨hnone, hnone'⟩ | ⟨i, after, after', hslot, hslot', hi, hsame⟩
  · rw [hnone, hnone']
    exact ⟨_, _, rfl, rfl, h⟩
  · rw [hslot, hslot']
    dsimp only
    have hsound := hsame.fresh.sound i
    have hsound' := hsame.fresh'.sound i
    obtain ⟨r, hr, hrsound⟩ := sound_defineObject ctx.presentation buf hsound
      (not_le.mp hn)
    obtain ⟨r', hr', hrsound'⟩ := sound_defineObject ctx'.presentation buf hsound'
      (not_le.mp hn)
    rcases defineObject_same buf (hsame.object_same i hi) hsound hsound' hwidth hheight
      (not_le.mp hn) with ⟨hreject, hreject'⟩ | ⟨object, object', hdefine, hdefine', hobject⟩
    · rw [hreject, hreject']
      exact ⟨_, _, rfl, rfl, hsame⟩
    · rw [hdefine] at hr
      rw [hdefine'] at hr'
      rw [hdefine, hdefine']
      refine ⟨_, _, rfl, rfl, hsame.modify hi hobject ?_ ?_⟩
      · exact hrsound object (Option.some_inj.mp hr).symm
      · exact hrsound' object' (Option.some_inj.mp hr').symm

/-- An object segment changes objects only. -/
theorem frame_parseObjectSegment {r : ℤ × PGSSubContext}
    (h : parseObjectSegment ctx buf n = some r) :
    r.2.presentation = ctx.presentation ∧ r.2.palettes = ctx.palettes := by
  unfold parseObjectSegment at h
  split at h
  · rw [← Option.some_inj.mp h]
    exact ⟨rfl, rfl⟩
  split at h
  · rw [← Option.some_inj.mp h]
    exact ⟨rfl, rfl⟩
  split at h
  · cases h
  · rw [← Option.some_inj.mp h]
    exact ⟨rfl, rfl⟩
  · rw [← Option.some_inj.mp h]
    exact ⟨rfl, rfl⟩

end Object

end Pgs
end AmlSubtitle
