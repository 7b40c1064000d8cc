import AmlSubtitle.Parser.PgsParser

/-!
# Reassembly of PGS objects

The run-length data of an object comes in fragments: a segment starts it and says how long
it is, others continue it, and `rle_remaining_len` counts what is still to come.

* `Sound`: while something is to come, the length that is kept is that of the data, which
  is what `parseObjectSegment` asserts.  `sound_decodeAll` is that it always holds.
* `lookup`: the object with an id.  A segment for another id leaves it alone.
* `reassembled`: the fragments of an object are put together, whatever comes between them
  other than a flush.
-/

namespace AmlSubtitle
namespace Pgs

/-! ## The assertion -/

/-- While data is to come there is some already, the length kept is that of the data, and it
will not wrap. -/
def Sound (object : PGSSubObject) : Prop :=
  object.rleRemainingLen > 0 → 0 < object.rle.length ∧ object.rle.length = object.rleDataLen ∧
    object.rleDataLen + object.rleRemainingLen < 2 ^ 32

/-- Every object of the context, counted or not, is sound. -/
def AllSound (ctx : PGSSubContext) : Prop := ∀ i, Sound (ctx.objects.object i)

section Assertion

variable {object object' : PGSSubObject} {ctx : PGSSubContext} {p : PGSSubPresentation}
  {buf : Source} {n : ℕ}

theorem rleBitmapLen_lt (buf : Source) : rleBitmapLen buf < 2 ^ 32 :=
  Nat.mod_lt _ (by decide)

/-- A continuation of a sound object is rejected, or appended to the data. -/
theorem continueObject_cases (buf : Source) (h : Sound object) (hn : 4 < n) :
    continueObject object buf n = some none ∧ object.rleRemainingLen < n - 4 ∨
      continueObject object buf n = some (some { object with
        rle := object.rle ++ bytes buf 4 (n - 4)
        rleDataLen := object.rleDataLen + (n - 4)
        rleRemainingLen := object.rleRemainingLen - (n - 4) }) ∧
      n - 4 ≤ object.rleRemainingLen := by
  unfold continueObject
  by_cases hlong : n - 4 > object.rleRemainingLen
  · rw [if_pos hlong]
    exact Or.inl ⟨rfl, hlong⟩
  · obtain ⟨-, hlen, hlt⟩ := h (by omega)
    have hmod : (object.rleDataLen + (n - 4)) % 2 ^ 32 = object.rleDataLen + (n - 4) :=
      Nat.mod_eq_of_lt (by omega)
    have hassert : (object.rle ++ bytes buf 4 (n - 4)).length = object.rleDataLen + (n - 4) := by
      rw [List.length_append, length_bytes, hlen]
    rw [if_neg hlong]
    dsimp only
    rw [hmod, if_neg (not_not.mpr hassert)]
    exact Or.inr ⟨rfl, by omega⟩

theorem sound_defineObject (p : PGSSubPresentation) (buf : Source) (h : Sound object)
    (hn : 4 < n) :
    ∃ r, defineObject p object buf n = some r ∧ ∀ object' ∈ r, Sound object' := by
  unfold defineObject
  split
  · rcases continueObject_cases buf h hn with ⟨hreject, -⟩ | ⟨happend, hle⟩
    · exact ⟨none, hreject, fun _ h => by cases h⟩
    · refine ⟨_, happend, fun object' hobject' hleft => ?_⟩
      rw [← Option.some_inj.mp hobject'] at hleft ⊢
      dsimp only at hleft ⊢
      obtain ⟨-, hlen, hlt⟩ := h (by omega)
      rw [List.length_append, length_bytes]
      omega
  · refine ⟨_, rfl, fun object' hobject' _ => ?_⟩
    have hlen := rleBitmapLen_lt buf
    unfold startObject at hobject'
    split at hobject'
    · cases hobject'
    split at hobject'
    · cases hobject'
    · dsimp only at hobject'
      split at hobject'
      · cases hobject'
      · rw [← Option.some_inj.mp hobject']
        dsimp only
        rw [length_bytes]
        omega

/-- What holds of all objects, holds when one is changed. -/
theorem forall_modify {P : PGSSubObject → Prop} {objects : PGSSubObjects} {i : ℕ}
    {f : PGSSubObject → PGSSubObject} (h : ∀ k, P (objects.object k))
    (hf : P (f (objects.object i))) : ∀ k, P ((objects.modify i f).object k) := by
  intro k
  rw [PGSSubObjects.modify]
  dsimp only
  by_cases hk : k = i
  · rw [hk, Function.update_self]
    exact hf
  · rw [Function.update_of_ne hk]
    exact h k

theorem sound_objectSlot {objects objects' : PGSSubObjects} {id i : ℕ}
    (h : ∀ k, Sound (objects.object k)) (hslot : objectSlot objects id = some (i, objects')) :
    ∀ k, Sound (objects'.object k) := by
  unfold objectSlot at hslot
  split at hslot
  · rw [Option.some_inj, Prod.mk.injEq] at hslot
    rw [← hslot.2]
    exact h
  · split at hslot
    · cases hslot
    · rw [Option.some_inj, Prod.mk.injEq] at hslot
      rw [← hslot.2]
      exact forall_modify (P := Sound) (f := ({ · with id := id })) h (h objects.count)

/-- **The assertion holds** in a context whose objects are sound, and they stay so. -/
theorem sound_parseObjectSegment (h : AllSound ctx) (buf : Source) (n : ℕ) :
    ∃ r, parseObjectSegment ctx buf n = some r ∧ AllSound r.2 := by
  unfold parseObjectSegment
  split
  · exact ⟨_, rfl, h⟩
  rename_i hn
  split
  · exact ⟨_, rfl, h⟩
  · rename_i i objects hslot
    have hobjects := sound_objectSlot h hslot
    obtain ⟨r, hdefine, hr⟩ := sound_defineObject ctx.presentation buf (hobjects i)
      (not_le.mp hn)
    rw [hdefine]
    cases r with
    | none => exact ⟨_, rfl, hobjects⟩
    | some object =>
      refine ⟨_, rfl, ?_⟩
      exact forall_modify (P := Sound) (i := i) (f := fun _ => object) hobjects (hr object rfl)

theorem sound_flushPgsContext (h : AllSound ctx) : AllSound (flushPgsContext ctx) := by
  intro i
  rw [flushPgsContext]
  dsimp only
  split
  · exact fun hleft => absurd hleft (lt_irrefl 0)
  · exact h i

theorem sound_parsePresentationSegment (h : AllSound ctx) (buf : Source) (n : ℕ) :
    AllSound (parsePresentationSegment ctx buf n) := by
  rw [parsePresentationSegment]
  split
  · exact sound_flushPgsContext h
  · exact h

theorem objects_parsePaletteSegment (ctx : PGSSubContext) (buf : Source) (n : ℕ) :
    (parsePaletteSegment ctx buf n).objects = ctx.objects := by
  unfold parsePaletteSegment
  split <;> rfl

/-- **One segment.** -/
theorem sound_decode {parser : PgsParser} (h : AllSound parser.mPgsContext) (segment : Segment) :
    ∃ parser', parser.decode segment = some parser' ∧ AllSound parser'.mPgsContext := by
  unfold PgsParser.decode
  dsimp only
  split
  · refine ⟨_, rfl, ?_⟩
    refine sound_parsePresentationSegment ?_ _ _
    exact h
  split
  · refine ⟨_, rfl, fun i => ?_⟩
    dsimp only
    rw [objects_parsePaletteSegment]
    exact h i
  split
  · obtain ⟨r, hparse, hr⟩ := sound_parseObjectSegment h segment.buf segment.length
    rw [hparse]
    exact ⟨_, rfl, hr⟩
  split
  · exact ⟨_, rfl, h⟩
  · exact ⟨_, rfl, h⟩

/-- **A run of segments.** -/
theorem sound_decodeAll {parser : PgsParser} (h : AllSound parser.mPgsContext)
    (segments : List Segment) :
    ∃ parser', parser.decodeAll segments = some parser' ∧ AllSound parser'.mPgsContext := by
  induction segments generalizing parser with
  | nil => exact ⟨parser, rfl, h⟩
  | cons segment segments ih =>
    obtain ⟨parser', hdecode, h'⟩ := sound_decode h segment
    obtain ⟨parser'', hrest, h''⟩ := ih h'
    refine ⟨parser'', ?_, h''⟩
    rw [PgsParser.decodeAll, hdecode, Option.bind_some, hrest]

theorem sound_create : AllSound PgsParser.create.mPgsContext :=
  fun _ hleft => absurd hleft (lt_irrefl 0)

theorem decodeAll_append (parser : PgsParser) (segments segments' : List Segment) :
    parser.decodeAll (segments ++ segments') =
      (parser.decodeAll segments).bind fun parser => parser.decodeAll segments' := by
  induction segments generalizing parser with
  | nil => rfl
  | cons segment segments ih =>
    rw [List.cons_append, PgsParser.decodeAll, PgsParser.decodeAll]
    cases parser.decode segment with
    | none => rfl
    | some parser' => exact ih parser'

end Assertion

/-! ## The bytes of the segment -/

/-- Two sources that agree on the first `n` bytes. -/
def AgreeTo (n : ℕ) (buf buf' : Source) : Prop := ∀ i < n, buf i = buf' i

section Congr

variable {ctx : PGSSubContext} {p : PGSSubPresentation} {object : PGSSubObject}
  {buf buf' : Source} {n i : ℕ}

theorem bytestreamGetByte_congr (h : AgreeTo n buf buf') (hi : i < n) :
    bytestreamGetByte buf i = bytestreamGetByte buf' i := by
  rw [bytestreamGetByte, bytestreamGetByte, h i hi]

theorem bytestreamGetBe16_congr (h : AgreeTo n buf buf') (hi : i + 1 < n) :
    bytestreamGetBe16 buf i = bytestreamGetBe16 buf' i := by
  rw [bytestreamGetBe16, bytestreamGetBe16, h i (by omega), h (i + 1) hi]

theorem bytestreamGetBe24_congr (h : AgreeTo n buf buf') (hi : i + 2 < n) :
    bytestreamGetBe24 buf i = bytestreamGetBe24 buf' i := by
  rw [bytestreamGetBe24, bytestreamGetBe24, h i (by omega), h (i + 1) (by omega), h (i + 2) hi]

theorem bytes_congr (h : AgreeTo n buf buf') {k : ℕ} (hk : i + k ≤ n) :
    bytes buf i k = bytes buf' i k := by
  rw [bytes, bytes, List.map_inj_left]
  intro j hj
  exact h (i + j) (by have := List.mem_range.mp hj; omega)

theorem isContinuation_congr (h : AgreeTo n buf buf') (hn : 4 < n) :
    isContinuation buf ↔ isContinuation buf' := by
  rw [isContinuation, isContinuation, h 3 (by omega)]

theorem startObject_congr (h : AgreeTo n buf buf') :
    startObject p object buf n = startObject p object buf' n := by
  unfold startObject
  by_cases hshort : n - 4 ≤ 7
  · rw [if_pos hshort, if_pos hshort]
  · have hlen : rleBitmapLen buf = rleBitmapLen buf' := by
      rw [rleBitmapLen, rleBitmapLen, bytestreamGetBe24_congr h (by omega)]
    rw [if_neg hshort, if_neg hshort, hlen, bytestreamGetBe16_congr h (show 7 + 1 < n by omega),
      bytestreamGetBe16_congr h (show 9 + 1 < n by omega),
      bytes_congr h (show 11 + (n - 11) ≤ n by omega)]

theorem defineObject_congr (h : AgreeTo n buf buf') (hn : 4 < n) :
    defineObject p object buf n = defineObject p object buf' n := by
  unfold defineObject continueObject
  simp only [isContinuation_congr h hn, startObject_congr h,
    bytes_congr h (show 4 + (n - 4) ≤ n by omega)]

/-- **An object segment is not read past its end.** -/
theorem parseObjectSegment_congr (h : AgreeTo n buf buf') :
    parseObjectSegment ctx buf n = parseObjectSegment ctx buf' n := by
  unfold parseObjectSegment
  by_cases hn : n ≤ 4
  · rw [if_pos hn, if_pos hn]
  · rw [if_neg hn, if_neg hn, bytestreamGetBe16_congr h (show 0 + 1 < n by omega)]
    simp only [defineObject_congr h (not_le.mp hn)]

end Congr

/-! ## The object with an id -/

section Lookup

variable {objects objects' : PGSSubObjects} {id id' i : ℕ}

theorem find_eq_some {count : ℕ} {ids : ℕ → ℕ} (h : find count ids id = some i) :
    i < count ∧ ids i = id := by
  refine ⟨List.mem_range.mp (List.mem_of_find?_eq_some h), ?_⟩
  simpa using List.find?_some h

/-- Only the ids that are counted matter. -/
theorem find_congr {count : ℕ} {ids ids' : ℕ → ℕ} (h : ∀ k < count, ids k = ids' k) :
    find count ids id = find count ids' id := by
  refine List.find?_congr fun k hk => ?_
  rw [h k (List.mem_range.mp hk)]

/-- An entry behind the others is found last. -/
theorem find_succ (count : ℕ) (ids : ℕ → ℕ) (id : ℕ) :
    find (count + 1) ids id =
      (find count ids id).or (if ids count = id then some count else none) := by
  rw [find, List.range_succ, List.find?_append, List.find?_singleton, find]
  simp

/-- The object with an id. -/
def lookup (objects : PGSSubObjects) (id : ℕ) : Option PGSSubObject :=
  (findObject id objects).map objects.object

/-- A change of an object that keeps its id changes where no object is found. -/
theorem findObject_modify (objects : PGSSubObjects) (i : ℕ) {f : PGSSubObject → PGSSubObject}
    (hf : (f (objects.object i)).id = (objects.object i).id) (id : ℕ) :
    findObject id (objects.modify i f) = findObject id objects := by
  refine find_congr fun k _ => ?_
  rw [PGSSubObjects.modify]
  dsimp only
  by_cases hk : k = i
  · rw [hk, Function.update_self, hf]
  · rw [Function.update_of_ne hk]

theorem lookup_modify_self (hi : findObject id objects = some i)
    {f : PGSSubObject → PGSSubObject}
    (hf : (f (objects.object i)).id = (objects.object i).id) :
    lookup (objects.modify i f) id = some (f (objects.object i)) := by
  rw [lookup, findObject_modify objects i hf, hi, Option.map_some, PGSSubObjects.modify]
  dsimp only
  rw [Function.update_self]

theorem lookup_modify_of_ne (hi : (objects.object i).id = id')
    {f : PGSSubObject → PGSSubObject}
    (hf : (f (objects.object i)).id = (objects.object i).id) (hne : id ≠ id') :
    lookup (objects.modify i f) id = lookup objects id := by
  rw [lookup, findObject_modify objects i hf, lookup]
  refine Option.map_congr fun k hk => ?_
  have hid := (find_eq_some hk).2
  rw [PGSSubObjects.modify]
  dsimp only
  rw [Function.update_of_ne]
  rintro rfl
  exact hne (hid.symm.trans hi)

/-- The slot of an id, and what becomes of the other objects. -/
theorem objectSlot_spec (h : objectSlot objects id = some (i, objects')) :
    findObject id objects' = some i ∧ ∀ id' ≠ id, lookup objects' id' = lookup objects id' := by
  unfold objectSlot at h
  split at h
  · rename_i k hk
    rw [Option.some_inj, Prod.mk.injEq] at h
    rw [← h.1, ← h.2]
    exact ⟨hk, fun _ _ => rfl⟩
  · rename_i hnone
    split at h
    · cases h
    rw [Option.some_inj, Prod.mk.injEq] at h
    rw [← h.1, ← h.2]
    -- the new entry is behind the others, which stay
    have hold : ∀ id', find objects.count (fun k => ((objects.modify objects.count
        ({ · with id := id })).object k).id) id' = findObject id' objects := by
      intro id'
      refine find_congr fun k hk => ?_
      rw [PGSSubObjects.modify]
      dsimp only
      rw [Function.update_of_ne hk.ne]
    have hnew : ((objects.modify objects.count ({ · with id := id })).object objects.count).id =
        id := by
      rw [PGSSubObjects.modify]
      dsimp only
      rw [Function.update_self]
    constructor
    · rw [findObject]
      dsimp only
      rw [find_succ, hold, hnone, hnew, if_pos rfl]
      rfl
    · intro id' hne
      rw [lookup, findObject]
      dsimp only
      rw [find_succ, hold, hnew, if_neg (Ne.symm hne), Option.or_none, lookup]
      refine Option.map_congr fun k hk => ?_
      rw [PGSSubObjects.modify]
      dsimp only
      rw [Function.update_of_ne (find_eq_some hk).1.ne]

theorem id_defineObject {p : PGSSubPresentation} {object object' : PGSSubObject} {buf : Source}
    {n : ℕ} (h : defineObject p object buf n = some (some object')) : object'.id = object.id := by
  unfold defineObject at h
  split at h
  · unfold continueObject at h
    split at h
    · cases h
    · dsimp only at h
      split at h
      · cases h
      · rw [← Option.some_inj.mp (Option.some_inj.mp h)]
  · have h := Option.some_inj.mp h
    unfold startObject at h
    split at h
    · cases h
    split at h
    · cases h
    · dsimp only at h
      split at h
      · cases h
      · rw [← Option.some_inj.mp h]

/-- **A segment for another object** leaves an object alone. -/
theorem lookup_parseObjectSegment {ctx ctx' : PGSSubContext} {buf : Source} {n : ℕ} {r : ℤ}
    (h : parseObjectSegment ctx buf n = some (r, ctx'))
    (hne : 4 < n → id ≠ bytestreamGetBe16 buf 0) :
    lookup ctx'.objects id = lookup ctx.objects id := by
  unfold parseObjectSegment at h
  split at h
  · rw [Option.some_inj, Prod.mk.injEq] at h
    rw [← h.2]
  rename_i hn
  have hne := hne (not_le.mp hn)
  split at h
  · rw [Option.some_inj, Prod.mk.injEq] at h
    rw [← h.2]
  rename_i i objects hslot
  obtain ⟨hfind, hother⟩ := objectSlot_spec hslot
  split at h
  · cases h
  · rw [Option.some_inj, Prod.mk.injEq] at h
    rw [← h.2]
    exact hother id hne
  · rename_i object hdefine
    rw [Option.some_inj, Prod.mk.injEq] at h
    rw [← h.2, ← hother id hne]
    exact lookup_modify_of_ne (find_eq_some hfind).2 (id_defineObject hdefine) hne

end Lookup

/-! ## Fragments -/

/-- A segment starts an object of `declared` bytes with the first of them. -/
structure Starts (segment : Segment) (id declared : ℕ) (data : List UInt8) : Prop where
  type_eq : segment.type = OBJECT_DEFINITION_SEGMENT
  length_eq : segment.length = 11 + data.length
  nonempty : data ≠ []
  id_eq : bytestreamGetBe16 segment.buf 0 = id
  starts : ¬ isContinuation segment.buf
  declared_eq : bytestreamGetBe24 segment.buf 4 = declared + 4
  data_eq : bytes segment.buf 11 data.length = data

/-- A segment continues an object with more bytes. -/
structure Continues (segment : Segment) (id : ℕ) (data : List UInt8) : Prop where
  type_eq : segment.type = OBJECT_DEFINITION_SEGMENT
  length_eq : segment.length = 4 + data.length
  nonempty : data ≠ []
  id_eq : bytestreamGetBe16 segment.buf 0 = id
  continues : isContinuation segment.buf
  data_eq : bytes segment.buf 4 data.length = data

/-- A segment is not for the object and does not flush the context. -/
structure Interleaves (segment : Segment) (id : ℕ) : Prop where
  no_flush : segment.type = PRESENTATION_COMPOSITION_SEGMENT → compositionState segment.buf = 0
  other : segment.type = OBJECT_DEFINITION_SEGMENT → 4 < segment.length →
    id ≠ bytestreamGetBe16 segment.buf 0

/-- The segments carry the data in fragments for the object, among others. -/
inductive Carries (id : ℕ) : List Segment → List UInt8 → Prop where
  | nil : Carries id [] []
  | other {segment segments data} : Interleaves segment id → Carries id segments data →
      Carries id (segment :: segments) data
  | fragment {segment segments more data} : Continues segment id more → Carries id segments data →
      Carries id (segment :: segments) (more ++ data)

/-- There is a slot for the object, and its bitmap is not empty and not larger than the
video. -/
def Accepts (ctx : PGSSubContext) (segment : Segment) (id : ℕ) : Prop :=
  (findObject id ctx.objects ≠ none ∨ ctx.objects.count < MAX_EPOCH_OBJECTS) ∧
    (0 < bytestreamGetBe16 segment.buf 7 ∧
      bytestreamGetBe16 segment.buf 7 ≤ ctx.presentation.videoWidth) ∧
    0 < bytestreamGetBe16 segment.buf 9 ∧
      bytestreamGetBe16 segment.buf 9 ≤ ctx.presentation.videoHeight

/-- The object has the data, and `left` bytes are to come. -/
def Gathered (ctx : PGSSubContext) (id : ℕ) (data : List UInt8) (left : ℕ) : Prop :=
  ∃ object, lookup ctx.objects id = some object ∧ object.rle = data ∧
    object.rleRemainingLen = left

section Fragments

variable {parser parser' : PgsParser} {segment : Segment} {id declared left : ℕ}
  {data more : List UInt8}

theorem decode_object (h : segment.type = OBJECT_DEFINITION_SEGMENT)
    (hdecode : parser.decode segment = some parser') :
    ∃ r, parseObjectSegment parser.mPgsContext segment.buf segment.length =
      some (r, parser'.mPgsContext) := by
  unfold PgsParser.decode at hdecode
  dsimp only at hdecode
  rw [if_neg (by rw [h]; decide), if_neg (by rw [h]; decide), if_pos h] at hdecode
  obtain ⟨parsed, hparsed, rfl⟩ := Option.map_eq_some_iff.mp hdecode
  exact ⟨parsed.1, hparsed⟩

/-- A slot that is given away holds the object afterwards. -/
theorem gathered_of_defined {ctx ctx' : PGSSubContext} {buf : Source} {n i : ℕ}
    {objects : PGSSubObjects} {object : PGSSubObject} {r : ℤ} (hn : 4 < n)
    (hslot : objectSlot ctx.objects (bytestreamGetBe16 buf 0) = some (i, objects))
    (hdefine : defineObject ctx.presentation (objects.object i) buf n = some (some object))
    (h : parseObjectSegment ctx buf n = some (r, ctx')) :
    Gathered ctx' (bytestreamGetBe16 buf 0) object.rle object.rleRemainingLen := by
  unfold parseObjectSegment at h
  rw [if_neg (not_le.mpr hn), hslot] at h
  dsimp only at h
  rw [hdefine] at h
  dsimp only at h
  rw [Option.some_inj, Prod.mk.injEq] at h
  refine ⟨object, ?_, rfl, rfl⟩
  rw [← h.2]
  exact lookup_modify_self (objectSlot_spec hslot).1 (id_defineObject hdefine)

theorem gathered_start (haccepts : Accepts parser.mPgsContext segment id)
    (hstarts : Starts segment id declared data) (hle : data.length ≤ declared)
    (hdecode : parser.decode segment = some parser') :
    Gathered parser'.mPgsContext id data (declared - data.length) := by
  obtain ⟨r, hparse⟩ := decode_object hstarts.type_eq hdecode
  obtain ⟨hroom, ⟨hw, hwidth⟩, hh, hheight⟩ := haccepts
  have hpos := List.length_pos_iff.mpr hstarts.nonempty
  have hlen := hstarts.length_eq
  have hdeclared := bytestreamGetBe24_lt segment.buf 4
  rw [hstarts.declared_eq] at hdeclared
  have hbitmap : rleBitmapLen segment.buf = declared := by
    rw [rleBitmapLen, hstarts.declared_eq]
    omega
  obtain ⟨⟨i, objects⟩, hslot⟩ : ∃ slot,
      objectSlot parser.mPgsContext.objects (bytestreamGetBe16 segment.buf 0) = some slot := by
    rw [hstarts.id_eq]
    unfold objectSlot
    split
    · exact ⟨_, rfl⟩
    · rename_i hnone
      rw [if_neg (not_le.mpr (hroom.resolve_left fun h => h hnone))]
      exact ⟨_, rfl⟩
  have hdefine : defineObject parser.mPgsContext.presentation (objects.object i) segment.buf
      segment.length = some (some { objects.object i with
        w := bytestreamGetBe16 segment.buf 7
        h := bytestreamGetBe16 segment.buf 9
        rle := data
        rleDataLen := data.length
        rleRemainingLen := declared - data.length }) := by
    have hsub : segment.length - 11 = data.length := by omega
    unfold defineObject
    rw [if_neg hstarts.starts]
    unfold startObject
    rw [if_neg (by omega), if_neg (by omega)]
    dsimp only
    rw [if_neg (by omega), hsub, hstarts.data_eq, hbitmap]
  rw [← hstarts.id_eq]
  exact gathered_of_defined (by omega) hslot hdefine hparse

theorem gathered_continue (hsound : AllSound parser.mPgsContext)
    (h : Gathered parser.mPgsContext id data left) (hcontinues : Continues segment id more)
    (hle : more.length ≤ left) (hdecode : parser.decode segment = some parser') :
    Gathered parser'.mPgsContext id (data ++ more) (left - more.length) := by
  obtain ⟨r, hparse⟩ := decode_object hcontinues.type_eq hdecode
  obtain ⟨object, hobject, hrle, hleft⟩ := h
  obtain ⟨i, hfind, hi⟩ := Option.map_eq_some_iff.mp hobject
  have hpos := List.length_pos_iff.mpr hcontinues.nonempty
  have hlen := hcontinues.length_eq
  have hslot : objectSlot parser.mPgsContext.objects (bytestreamGetBe16 segment.buf 0) =
      some (i, parser.mPgsContext.objects) := by
    unfold objectSlot
    rw [hcontinues.id_eq, hfind]
  have hsub : segment.length - 4 = more.length := by omega
  rcases continueObject_cases segment.buf (hsound i) (show 4 < segment.length by omega) with
    ⟨-, hlong⟩ | ⟨happend, -⟩
  · rw [hi] at hlong
    omega
  · have hdefine : defineObject parser.mPgsContext.presentation
        (parser.mPgsContext.objects.object i) segment.buf segment.length = _ :=
      (if_pos hcontinues.continues).trans happend
    have hgathered := gathered_of_defined (by omega) hslot hdefine hparse
    rw [hcontinues.id_eq] at hgathered
    dsimp only at hgathered
    rwa [hsub, hcontinues.data_eq, hi, hrle, hleft] at hgathered

/-- **What comes in between** leaves the object alone. -/
theorem gathered_other (h : Gathered parser.mPgsContext id data left)
    (hother : Interleaves segment id) (hdecode : parser.decode segment = some parser') :
    Gathered parser'.mPgsContext id data left := by
  by_cases hobject : segment.type = OBJECT_DEFINITION_SEGMENT
  · obtain ⟨r, hparse⟩ := decode_object hobject hdecode
    rw [Gathered, lookup_parseObjectSegment hparse (hother.other hobject)]
    exact h
  suffices hsame : parser'.mPgsContext.objects = parser.mPgsContext.objects by
    rw [Gathered, hsame]
    exact h
  unfold PgsParser.decode at hdecode
  dsimp only at hdecode
  split at hdecode
  · rename_i hcomposition
    rw [← Option.some_inj.mp hdecode, parsePresentationSegment]
    dsimp only
    rw [if_neg (not_not.mpr (hother.no_flush hcomposition))]
  split at hdecode
  · rw [← Option.some_inj.mp hdecode]
    exact objects_parsePaletteSegment _ _ _
  split at hdecode
  · rw [← Option.some_inj.mp hdecode]
  · rw [← Option.some_inj.mp hdecode]

/-- The fragments behind the first. -/
theorem gathered_decodeAll {segments : List Segment} (hcarries : Carries id segments more)
    (hsound : AllSound parser.mPgsContext) (h : Gathered parser.mPgsContext id data left)
    (hle : more.length ≤ left) :
    ∃ parser', parser.decodeAll segments = some parser' ∧
      Gathered parser'.mPgsContext id (data ++ more) (left - more.length) := by
  induction hcarries generalizing parser data left with
  | nil =>
    rw [List.append_nil]
    exact ⟨parser, rfl, h⟩
  | other hother _ ih =>
    rename_i segment _ _ _
    obtain ⟨parser₁, hdecode, hsound₁⟩ := sound_decode hsound segment
    obtain ⟨parser', hrest, h'⟩ := ih hsound₁ (gathered_other h hother hdecode) hle
    exact ⟨parser', by rw [PgsParser.decodeAll, hdecode, Option.bind_some, hrest], h'⟩
  | fragment hcontinues _ ih =>
    rename_i segment segments fragment rest _
    rw [List.length_append] at hle
    obtain ⟨parser₁, hdecode, hsound₁⟩ := sound_decode hsound segment
    have h₁ := gathered_continue hsound h hcontinues (by omega) hdecode
    obtain ⟨parser', hrest, h'⟩ := ih hsound₁ h₁ (by omega)
    refine ⟨parser', by rw [PgsParser.decodeAll, hdecode, Option.bind_some, hrest], ?_⟩
    rwa [List.append_assoc, Nat.sub_sub, ← List.length_append] at h'

/-- **Reassembly.**  In every state no assertion fails and the objects are sound.  From
there the fragments of an object that is accepted are put together, when they have the
declared length, whatever comes between them other than a flush; and a segment is not read
past its end. -/
theorem fragments_run (before : List Segment) :
    ∃ parser, PgsParser.create.decodeAll before = some parser ∧ AllSound parser.mPgsContext ∧
      (∀ first rest id declared data more, Accepts parser.mPgsContext first id →
        Starts first id declared data → Carries id rest more →
        data.length + more.length = declared →
        ∃ parser', parser.decodeAll (first :: rest) = some parser' ∧
          Gathered parser'.mPgsContext id (data ++ more) 0) ∧
      ∀ buf buf' n, AgreeTo n buf buf' → parseObjectSegment parser.mPgsContext buf n =
        parseObjectSegment parser.mPgsContext buf' n := by
  obtain ⟨parser, hbefore, hsound⟩ := sound_decodeAll sound_create before
  refine ⟨parser, hbefore, hsound, ?_, fun _ _ _ h => parseObjectSegment_congr h⟩
  intro first rest id declared data more haccepts hstarts hcarries hlen
  obtain ⟨parser₁, hdecode, hsound₁⟩ := sound_decode hsound first
  have hstart := gathered_start haccepts hstarts (by omega) hdecode
  obtain ⟨parser', hrest, h'⟩ := gathered_decodeAll hcarries hsound₁ hstart (by omega)
  refine ⟨parser', by rw [PgsParser.decodeAll, hdecode, Option.bind_some, hrest], ?_⟩
  rwa [show declared - data.length - more.length = 0 by omega] at h'

/-- A segment that holds some bytes. -/
def segmentOf (type : ℕ) (bytes : List UInt8) : Segment := ⟨0, type, bytes.length, sourceOf bytes⟩

/-- An epoch start for a video of four by four pixels, without objects. -/
def epochStart : Segment :=
  segmentOf PRESENTATION_COMPOSITION_SEGMENT [0, 4, 0, 4, 0x10, 0, 0, 0x80, 0, 0, 0]

/-- The first half of four bytes for the object 1. -/
def firstHalf : Segment :=
  segmentOf OBJECT_DEFINITION_SEGMENT [0, 1, 0, 0x80, 0, 0, 8, 0, 1, 0, 1, 5, 6]

/-- The second half. -/
def secondHalf : Segment := segmentOf OBJECT_DEFINITION_SEGMENT [0, 1, 0, 0x40, 7, 8]

theorem starts_firstHalf : Starts firstHalf 1 4 [5, 6] :=
  ⟨rfl, rfl, by decide, rfl, by decide, rfl, rfl⟩

theorem continues_secondHalf : Continues secondHalf 1 [7, 8] :=
  ⟨rfl, rfl, by decide, rfl, by decide, rfl⟩

theorem accepts_firstHalf : ∃ parser, PgsParser.create.decodeAll [epochStart] = some parser ∧
    Accepts parser.mPgsContext firstHalf 1 :=
  ⟨_, rfl, Or.inr (by decide), by decide, by decide, by decide⟩

/-- The two halves, with an object between them whose palette is defined there. -/
theorem fragments_run_halves : ∃ parser, PgsParser.create.decodeAll [epochStart, firstHalf,
    segmentOf PALETTE_DEFINITION_SEGMENT [0, 0, 1, 2, 3, 4, 5],
    segmentOf OBJECT_DEFINITION_SEGMENT [0, 2, 0, 0x80, 0, 0, 5, 0, 1, 0, 1, 9],
    secondHalf] = some parser ∧ Gathered parser.mPgsContext 1 [5, 6, 7, 8] 0 := by
  obtain ⟨parser, hparser, haccepts⟩ := accepts_firstHalf
  obtain ⟨parser', hparser', -, hrun, -⟩ := fragments_run [epochStart]
  rw [hparser, Option.some_inj] at hparser'
  obtain ⟨last, hlast, hgathered⟩ := hrun firstHalf
    [segmentOf PALETTE_DEFINITION_SEGMENT [0, 0, 1, 2, 3, 4, 5],
      segmentOf OBJECT_DEFINITION_SEGMENT [0, 2, 0, 0x80, 0, 0, 5, 0, 1, 0, 1, 9], secondHalf]
    1 4 [5, 6] ([7, 8] ++ []) (hparser' ▸ haccepts) starts_firstHalf
    (.other ⟨by decide, by decide⟩ (.other ⟨by decide, by decide⟩
      (.fragment continues_secondHalf .nil))) rfl
  refine ⟨last, ?_, hgathered⟩
  have hall := decodeAll_append PgsParser.create [epochStart] [firstHalf,
    segmentOf PALETTE_DEFINITION_SEGMENT [0, 0, 1, 2, 3, 4, 5],
    segmentOf OBJECT_DEFINITION_SEGMENT [0, 2, 0, 0x80, 0, 0, 5, 0, 1, 0, 1, 9], secondHalf]
  rw [hparser, Option.bind_some, hparser', hlast] at hall
  exact hall

/-- The data of an object after a run, where there is one. -/
def dataAfter (segments : List Segment) (id : ℕ) : Option (List UInt8) :=
  (PgsParser.create.decodeAll segments).bind fun parser =>
    (lookup parser.mPgsContext.objects id).map PGSSubObject.rle

theorem dataAfter_of_gathered {segments : List Segment}
    (hrun : PgsParser.create.decodeAll segments = some parser)
    (h : Gathered parser.mPgsContext id data left) : dataAfter segments id = some data := by
  obtain ⟨object, hobject, hrle, -⟩ := h
  rw [dataAfter, hrun, Option.bind_some, hobject, Option.map_some, hrle]

/-- As many objects as there is room for. -/
def fullTable : List Segment :=
  (List.range MAX_EPOCH_OBJECTS).map fun k =>
    segmentOf OBJECT_DEFINITION_SEGMENT [1, UInt8.ofNat k, 0, 0x40, 9]

/-- The halves of an object are not put together when a flush comes between them, when all
the objects of the epoch are there already, when the bitmap is wider than the video, or when
all the data is in the second fragment. -/
theorem not_gathered_flush :
    Starts firstHalf 1 4 [5, 6] ∧ Continues secondHalf 1 [7, 8] ∧
    (¬ ∃ parser, PgsParser.create.decodeAll [epochStart, firstHalf, epochStart, secondHalf] =
      some parser ∧ Gathered parser.mPgsContext 1 [5, 6, 7, 8] 0) ∧
    (¬ ∃ parser, PgsParser.create.decodeAll (epochStart :: fullTable ++ [firstHalf, secondHalf]) =
      some parser ∧ Gathered parser.mPgsContext 1 [5, 6, 7, 8] 0) ∧
    (¬ ∃ parser, PgsParser.create.decodeAll [firstHalf, secondHalf] =
      some parser ∧ Gathered parser.mPgsContext 1 [5, 6, 7, 8] 0) ∧
    ¬ ∃ parser, PgsParser.create.decodeAll [epochStart,
        segmentOf OBJECT_DEFINITION_SEGMENT [0, 1, 0, 0x80, 0, 0, 6, 0, 1, 0, 1], secondHalf] =
      some parser ∧ Gathered parser.mPgsContext 1 [7, 8] 0 := by
  refine ⟨starts_firstHalf, continues_secondHalf, ?_, ?_, ?_, ?_⟩
  · rintro ⟨parser, hparser, h⟩
    exact absurd (dataAfter_of_gathered hparser h) (by decide)
  · rintro ⟨parser, hparser, h⟩
    exact absurd (dataAfter_of_gathered hparser h) (by decide +kernel)
  · rintro ⟨parser, hparser, h⟩
    exact absurd (dataAfter_of_gathered hparser h) (by decide)
  · rintro ⟨parser, hparser, h⟩
    exact absurd (dataAfter_of_gathered hparser h) (by decide)

end Fragments

end Pgs
end AmlSubtitle
