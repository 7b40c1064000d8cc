import AmlSubtitle.Parser.DvbRegionBuffer

/-!
# The fields of an object segment

The byte ranges of an object segment from which `parseObjectSegment` decodes the displays of
the object.

* `fieldCalls`, `objectCalls`: the calls of `parsePixelDataBlock`, in order;
  `parseObjectSegment_calls` says that they are what the segment stores.
* `meantCalls`: the same two ranges for every display.
* `sameFields_iff`: the calls are the meant ones, unless the bottom field is absent and the
  bottom field of a second display is reached.
-/

namespace AmlSubtitle
namespace Dvb

/-- A call of `parsePixelDataBlock` for a display. -/
structure FieldCall where
  display : ℕ
  top_bottom : ℕ
  start : ℕ
  len : ℕ
  deriving DecidableEq, Repr

/-- The call for the top field of a display. -/
def topCall (buf topFieldLen p : ℕ) : FieldCall where
  display := p
  top_bottom := TOP_FIELD
  start := buf
  len := topFieldLen

/-- The call for the bottom field of a display. -/
def bottomCall (buf topFieldLen bottomFieldLen p : ℕ) : FieldCall where
  display := p
  top_bottom := BOTTOM_FIELD
  start := (bottomField buf topFieldLen bottomFieldLen).1
  len := (bottomField buf topFieldLen bottomFieldLen).2

/-- The calls of `objectFields`. -/
def fieldCalls (source : Source) (buf topFieldLen nonMod : ℕ) :
    ℕ → DVBSubContext → Option ℕ → ℕ → List FieldCall
  | _, _, none, _ => []
  | 0, _, some _, _ => []
  | fuel + 1, ctx, some p, bottomFieldLen =>
    match ctx.displays p with
    | none => []
    | some display =>
      let top := parsePixelDataBlock ctx display source buf topFieldLen TOP_FIELD nonMod
      topCall buf topFieldLen p ::
        if top.ret = -1 then
          []
        else
          let field := bottomField buf topFieldLen bottomFieldLen
          let bottom :=
            parsePixelDataBlock top.ctx display source field.1 field.2 BOTTOM_FIELD nonMod
          bottomCall buf topFieldLen bottomFieldLen p ::
            if bottom.ret = -1 then
              []
            else
              fieldCalls source buf topFieldLen nonMod fuel bottom.ctx display.objectListNext
                field.2

/-- Calls made one after the other, up to the first that fails. -/
def decodeCalls (source : Source) (nonMod : ℕ) : DVBSubContext → List FieldCall → ObjectResult
  | ctx, [] => { ctx := ctx, ret := 0, stores := [] }
  | ctx, call :: calls =>
    match ctx.displays call.display with
    | none => { ctx := ctx, ret := 0, stores := [] }
    | some display =>
      let field :=
        parsePixelDataBlock ctx display source call.start call.len call.top_bottom nonMod
      if field.ret = -1 then
        field
      else
        let rest := decodeCalls source nonMod field.ctx calls
        { rest with stores := field.stores ++ rest.stores }

/-- The displays that the loop of `parseObjectSegment` comes to, of at most `fuel`. -/
def displaysFrom (displays : ℕ → Option DVBSubObjectDisplay) : ℕ → Option ℕ → List ℕ
  | _, none => []
  | 0, some _ => []
  | fuel + 1, some p =>
    match displays p with
    | none => []
    | some display => p :: displaysFrom displays fuel display.objectListNext

/-- Every display from the top field and the bottom field, or the top field again. -/
def meantCalls (buf topFieldLen bottomFieldLen : ℕ) (displays : List ℕ) : List FieldCall :=
  displays.flatMap fun p =>
    [topCall buf topFieldLen p, bottomCall buf topFieldLen bottomFieldLen p]

section Loop

variable {source : Source} {buf topFieldLen nonMod fuel bottomFieldLen : ℕ}
  {ctx : DVBSubContext} {q : Option ℕ}

@[simp] theorem displays_parsePixelDataBlock (ctx : DVBSubContext) (display : DVBSubObjectDisplay)
    (source : Source) (buf bufSize top_bottom nonMod : ℕ) :
    (parsePixelDataBlock ctx display source buf bufSize top_bottom nonMod).ctx.displays =
      ctx.displays := by
  rw [parsePixelDataBlock]
  cases ctx.getRegion display.regionId with
  | none => rfl
  | some region => rfl

/-- **The calls are what the loop does.** -/
theorem objectFields_calls :
    let calls := fieldCalls source buf topFieldLen nonMod fuel ctx q bottomFieldLen
    let result := objectFields source buf topFieldLen nonMod fuel ctx q bottomFieldLen
    result.ret = (decodeCalls source nonMod ctx calls).ret ∧
      result.stores = (decodeCalls source nonMod ctx calls).stores := by
  dsimp only
  induction fuel generalizing ctx q bottomFieldLen with
  | zero =>
    cases q with
    | none => simp [objectFields, fieldCalls, decodeCalls]
    | some p => simp [objectFields, fieldCalls, decodeCalls]
  | succ fuel ih =>
    cases q with
    | none => simp [objectFields, fieldCalls, decodeCalls]
    | some p =>
      cases hp : ctx.displays p with
      | none => simp [objectFields, fieldCalls, decodeCalls, hp]
      | some display =>
        rw [objectFields, fieldCalls, hp]
        dsimp only
        rw [decodeCalls, show (topCall buf topFieldLen p).display = p from rfl, hp]
        dsimp only [topCall]
        split_ifs with htop hbottom
        · exact ⟨rfl, rfl⟩
        · rw [decodeCalls, displays_parsePixelDataBlock,
            show (bottomCall buf topFieldLen bottomFieldLen p).display = p from rfl, hp]
          dsimp only [bottomCall]
          rw [if_pos hbottom]
          exact ⟨rfl, rfl⟩
        · rw [decodeCalls, displays_parsePixelDataBlock,
            show (bottomCall buf topFieldLen bottomFieldLen p).display = p from rfl, hp]
          dsimp only [bottomCall]
          rw [if_neg hbottom]
          obtain ⟨hret, hstores⟩ := @ih (bottomField buf topFieldLen bottomFieldLen).2
            (parsePixelDataBlock _ display source _ _ _ _).ctx display.objectListNext
          exact ⟨hret, by rw [hstores, List.append_assoc]⟩

/-- With a bottom field, or an empty top field, the calls are the meant ones. -/
theorem fieldCalls_meant (hlen : 0 < bottomFieldLen ∨ topFieldLen = 0) :
    fieldCalls source buf topFieldLen nonMod fuel ctx q bottomFieldLen <+:
      meantCalls buf topFieldLen bottomFieldLen (displaysFrom ctx.displays fuel q) := by
  have hkept : (bottomField buf topFieldLen bottomFieldLen).2 = bottomFieldLen := by
    rw [bottomField]
    split_ifs with h
    · rfl
    · exact (hlen.resolve_left h).trans (by omega)
  induction fuel generalizing ctx q with
  | zero =>
    cases q with
    | none => simp [fieldCalls]
    | some p => simp [fieldCalls]
  | succ fuel ih =>
    cases q with
    | none => simp [fieldCalls]
    | some p =>
      cases hp : ctx.displays p with
      | none => simp [fieldCalls, hp]
      | some display =>
        rw [fieldCalls, displaysFrom, hp, meantCalls, List.flatMap_cons]
        dsimp only
        rw [List.cons_append, List.cons_append, List.nil_append, List.cons_prefix_cons]
        refine ⟨rfl, ?_⟩
        split_ifs with htop hbottom
        · exact List.nil_prefix
        · exact List.cons_prefix_cons.mpr ⟨rfl, List.nil_prefix⟩
        · rw [List.cons_prefix_cons, hkept]
          refine ⟨rfl, ?_⟩
          have hrest := @ih (parsePixelDataBlock (parsePixelDataBlock ctx display source buf
            topFieldLen TOP_FIELD nonMod).ctx display source
              (bottomField buf topFieldLen bottomFieldLen).1 bottomFieldLen BOTTOM_FIELD
                nonMod).ctx display.objectListNext
          rw [displays_parsePixelDataBlock, displays_parsePixelDataBlock] at hrest
          exact hrest

theorem ret_decodeCalls_cons {call : FieldCall} {display : DVBSubObjectDisplay}
    (h : ctx.displays call.display = some display) (calls : List FieldCall) :
    (decodeCalls source nonMod ctx (call :: calls)).ret =
      if (parsePixelDataBlock ctx display source call.start call.len call.top_bottom
          nonMod).ret = -1 then -1
      else (decodeCalls source nonMod (parsePixelDataBlock ctx display source call.start call.len
        call.top_bottom nonMod).ctx calls).ret := by
  rw [decodeCalls, h]
  dsimp only
  split_ifs with hret
  · exact hret
  · rfl

theorem bottomField_absent (buf topFieldLen : ℕ) :
    bottomField buf topFieldLen 0 = (buf, topFieldLen) := if_neg (by omega)

theorem ret_decodeCalls_top {p : ℕ} {display : DVBSubObjectDisplay}
    (h : ctx.displays p = some display) (calls : List FieldCall) :
    (decodeCalls source nonMod ctx (topCall buf topFieldLen p :: calls)).ret =
      if (parsePixelDataBlock ctx display source buf topFieldLen TOP_FIELD nonMod).ret = -1 then -1
      else (decodeCalls source nonMod (parsePixelDataBlock ctx display source buf topFieldLen
        TOP_FIELD nonMod).ctx calls).ret :=
  ret_decodeCalls_cons h calls

/-- An absent bottom field: the top field again. -/
theorem ret_decodeCalls_bottom {p : ℕ} {display : DVBSubObjectDisplay}
    (h : ctx.displays p = some display) (calls : List FieldCall) :
    (decodeCalls source nonMod ctx (bottomCall buf topFieldLen 0 p :: calls)).ret =
      if (parsePixelDataBlock ctx display source buf topFieldLen BOTTOM_FIELD nonMod).ret = -1
        then -1
      else (decodeCalls source nonMod (parsePixelDataBlock ctx display source buf topFieldLen
        BOTTOM_FIELD nonMod).ctx calls).ret := by
  have hcall := @ret_decodeCalls_cons source nonMod ctx (bottomCall buf topFieldLen 0 p) display
    h calls
  rw [bottomCall, bottomField_absent] at hcall ⊢
  exact hcall

/-- Without a bottom field the second display's bottom field is none of those meant. -/
theorem bottomCall_ne (htop : 0 < topFieldLen) (p : ℕ) :
    bottomCall buf topFieldLen topFieldLen p ≠ bottomCall buf topFieldLen 0 p := by
  intro h
  have hstart := congrArg FieldCall.start h
  simp [bottomCall, bottomField, htop] at hstart
  omega

/-- With the length that the first display leaves, the calls for the next displays are the
meant ones as long as the first bottom field is not reached. -/
theorem fieldCalls_meant_iff_next (htop : 0 < topFieldLen) :
    let displays := displaysFrom ctx.displays fuel q
    let meant := meantCalls buf topFieldLen 0 displays
    fieldCalls source buf topFieldLen nonMod fuel ctx q topFieldLen <+: meant ↔
      ¬ (1 ≤ displays.length ∧ (decodeCalls source nonMod ctx (meant.take 1)).ret ≠ -1) := by
  dsimp only
  cases q with
  | none => cases fuel <;> simp [fieldCalls, displaysFrom]
  | some p =>
    cases fuel with
    | zero => simp [fieldCalls, displaysFrom]
    | succ fuel =>
      cases hp : ctx.displays p with
      | none => simp [fieldCalls, displaysFrom, hp]
      | some display =>
        rw [fieldCalls, displaysFrom, hp, meantCalls, List.flatMap_cons]
        dsimp only
        rw [List.cons_append, List.cons_append, List.nil_append, List.take_succ_cons,
          List.take_zero, ret_decodeCalls_top hp, List.cons_prefix_cons]
        split_ifs with hfirst hbottom
        · simp
        · simp [decodeCalls, List.cons_prefix_cons, bottomCall_ne htop]
        · simp [decodeCalls, List.cons_prefix_cons, bottomCall_ne htop]

/-- Without a bottom field, the calls are the meant ones as long as the bottom field of a
second display is not reached. -/
theorem fieldCalls_meant_iff (htop : 0 < topFieldLen) :
    let displays := displaysFrom ctx.displays fuel q
    let meant := meantCalls buf topFieldLen 0 displays
    fieldCalls source buf topFieldLen nonMod fuel ctx q 0 <+: meant ↔
      ¬ (2 ≤ displays.length ∧ (decodeCalls source nonMod ctx (meant.take 3)).ret ≠ -1) := by
  dsimp only
  cases q with
  | none => cases fuel <;> simp [fieldCalls, displaysFrom]
  | some p =>
    cases fuel with
    | zero => simp [fieldCalls, displaysFrom]
    | succ fuel =>
      cases hp : ctx.displays p with
      | none => simp [fieldCalls, displaysFrom, hp]
      | some display =>
        have hnext := @fieldCalls_meant_iff_next source buf topFieldLen nonMod fuel
          (parsePixelDataBlock (parsePixelDataBlock ctx display source buf topFieldLen
            TOP_FIELD nonMod).ctx display source buf topFieldLen BOTTOM_FIELD nonMod).ctx
          display.objectListNext htop
        dsimp only at hnext
        rw [displays_parsePixelDataBlock, displays_parsePixelDataBlock] at hnext
        rw [fieldCalls, displaysFrom, hp, meantCalls, List.flatMap_cons]
        dsimp only
        rw [List.cons_append, List.cons_append, List.nil_append, List.take_succ_cons,
          List.take_succ_cons, ret_decodeCalls_top hp,
          ret_decodeCalls_bottom (by simpa using hp), List.cons_prefix_cons, bottomField_absent]
        split_ifs with hfirst hsecond
        · simp
        · simp [List.cons_prefix_cons]
        · rw [List.cons_prefix_cons, List.length_cons, Nat.succ_le_succ_iff, ← meantCalls, hnext]
          simp

end Loop

/-! ## The segment -/

/-- The displays that a segment decodes: none where it is not accepted. -/
def objectDisplays (ctx : DVBSubContext) (source : Source) (bufSize : ℕ) : List ℕ :=
  match ctx.getObject (AV_RB16 source 0) with
  | none => []
  | some object =>
    if ((source 2).toNat >>> 2) &&& 3 = 0 ∧ 7 + AV_RB16 source 3 + AV_RB16 source 5 ≤ bufSize then
      displaysFrom ctx.displays ctx.nextPtr object.displayList
    else
      []

/-- The calls of `parseObjectSegment`. -/
def objectCalls (ctx : DVBSubContext) (source : Source) (bufSize : ℕ) : List FieldCall :=
  match ctx.getObject (AV_RB16 source 0) with
  | none => []
  | some object =>
    let codingMethod := ((source 2).toNat >>> 2) &&& 3
    let nonModifyingColor := ((source 2).toNat >>> 1) &&& 1
    if codingMethod = 0 then
      let topFieldLen := AV_RB16 source 3
      let bottomFieldLen := AV_RB16 source 5
      if bufSize < 7 + topFieldLen + bottomFieldLen then
        []
      else
        fieldCalls source 7 topFieldLen nonModifyingColor ctx.nextPtr ctx object.displayList
          bottomFieldLen
    else
      []

/-- The calls with the lengths of the segment's header. -/
def meantFields (ctx : DVBSubContext) (source : Source) (bufSize : ℕ) : List FieldCall :=
  meantCalls 7 (AV_RB16 source 3) (AV_RB16 source 5) (objectDisplays ctx source bufSize)

/-- The displays are decoded from the same ranges, as far as decoding goes on, and the ranges
lie in the segment. -/
structure SameFields (ctx : DVBSubContext) (source : Source) (bufSize : ℕ) : Prop where
  same : objectCalls ctx source bufSize <+: meantFields ctx source bufSize
  inside : ∀ call ∈ objectCalls ctx source bufSize, call.start + call.len ≤ bufSize

/-- The segment has a top field and no bottom field, and a second display's bottom field is
reached: the three blocks before it are decoded without failure. -/
def SecondBottomReached (ctx : DVBSubContext) (source : Source) (bufSize : ℕ) : Prop :=
  0 < AV_RB16 source 3 ∧ AV_RB16 source 5 = 0 ∧ 2 ≤ (objectDisplays ctx source bufSize).length ∧
    (decodeCalls source (((source 2).toNat >>> 1) &&& 1) ctx
      ((meantFields ctx source bufSize).take 3)).ret ≠ -1

section Segment

variable {ctx : DVBSubContext} {source : Source} {bufSize : ℕ}

/-- What a segment stores is what its calls store. -/
theorem parseObjectSegment_calls :
    (parseObjectSegment ctx source bufSize).stores =
      (decodeCalls source (((source 2).toNat >>> 1) &&& 1) ctx
        (objectCalls ctx source bufSize)).stores := by
  unfold parseObjectSegment objectCalls
  cases ctx.getObject (AV_RB16 source 0) with
  | none => rfl
  | some object =>
    dsimp only
    split_ifs
    · rfl
    · exact objectFields_calls.2
    · rfl

/-- A segment is not accepted, and decodes nothing, or goes into the loop. -/
theorem objectCalls_cases :
    (objectCalls ctx source bufSize = [] ∧ objectDisplays ctx source bufSize = []) ∨
      ∃ object : DVBSubObject,
        objectCalls ctx source bufSize = fieldCalls source 7 (AV_RB16 source 3)
          (((source 2).toNat >>> 1) &&& 1) ctx.nextPtr ctx object.displayList
            (AV_RB16 source 5) ∧
        objectDisplays ctx source bufSize =
          displaysFrom ctx.displays ctx.nextPtr object.displayList ∧
        7 + AV_RB16 source 3 + AV_RB16 source 5 ≤ bufSize := by
  unfold objectCalls objectDisplays
  cases ctx.getObject (AV_RB16 source 0) with
  | none => exact .inl ⟨rfl, rfl⟩
  | some object =>
    dsimp only
    split_ifs with hcoding hshort haccepted haccepted hboth
    · omega
    · exact .inl ⟨rfl, rfl⟩
    · exact .inr ⟨object, rfl, rfl, haccepted.2⟩
    · omega
    · exact absurd hboth.1 hcoding
    · exact .inl ⟨rfl, rfl⟩

/-- The ranges that are meant lie in a segment that is long enough. -/
theorem meantCalls_inside {buf topFieldLen bottomFieldLen bufSize : ℕ} {displays : List ℕ}
    (h : buf + topFieldLen + bottomFieldLen ≤ bufSize) :
    ∀ call ∈ meantCalls buf topFieldLen bottomFieldLen displays,
      call.start + call.len ≤ bufSize := by
  intro call hcall
  obtain ⟨p, -, hp⟩ := List.mem_flatMap.mp hcall
  rcases List.mem_pair.mp hp with rfl | rfl
  · simp only [topCall]
    omega
  · simp only [bottomCall, bottomField]
    split_ifs <;> omega

/-- **The fields of an object segment**: every display is decoded from the same two ranges,
exactly when the bottom field of a second display is not reached without one in the segment. -/
theorem sameFields_iff (ctx : DVBSubContext) (source : Source) (bufSize : ℕ) :
    SameFields ctx source bufSize ↔ ¬ SecondBottomReached ctx source bufSize := by
  rcases @objectCalls_cases ctx source bufSize with
    ⟨hcalls, hdisplays⟩ | ⟨object, hcalls, hdisplays, hfits⟩
  · have hnot : ¬ SecondBottomReached ctx source bufSize := by
      rintro ⟨-, -, htwo, -⟩
      simp [hdisplays] at htwo
    have hsame : SameFields ctx source bufSize := ⟨by simp [hcalls], by simp [hcalls]⟩
    exact iff_of_true hsame hnot
  · have hinside : objectCalls ctx source bufSize <+: meantFields ctx source bufSize →
        SameFields ctx source bufSize :=
      fun h => ⟨h, fun call hcall => meantCalls_inside hfits call (h.subset hcall)⟩
    have hsame : SameFields ctx source bufSize ↔
        objectCalls ctx source bufSize <+: meantFields ctx source bufSize :=
      ⟨SameFields.same, hinside⟩
    rw [hsame, SecondBottomReached, meantFields, hcalls, hdisplays]
    by_cases hlen : 0 < AV_RB16 source 5 ∨ AV_RB16 source 3 = 0
    · refine iff_of_true (fieldCalls_meant hlen) ?_
      rintro ⟨htop, hbottom, -⟩
      omega
    · have htop : 0 < AV_RB16 source 3 := by omega
      have hbottom : AV_RB16 source 5 = 0 := by omega
      rw [hbottom]
      refine (fieldCalls_meant_iff htop).trans ?_
      simp only [htop, true_and]

end Segment

/-- An object shown by two regions of eight times four pixels. -/
def sharedObject : List Event :=
  [.segment emptySpu (segmentOf DVBSUB_REGION_SEGMENT
      [1, 8, 0, 8, 0, 4, 0x08, 0, 0, 0, 0, 7, 0, 0, 0, 0]),
    .segment emptySpu (segmentOf DVBSUB_REGION_SEGMENT
      [2, 8, 0, 8, 0, 4, 0x08, 0, 0, 0, 0, 7, 0, 0, 0, 0])]

/-- The object, with a top field of two line ends. -/
def topFieldOnly : List UInt8 := [0, 7, 0, 0, 2, 0, 0, 0xf0, 0xf0]

/-- The bottom field of the second display is read behind the segment. -/
theorem not_sameFields_sharedObject :
    ¬ ∀ (ctx : DVBSubContext) (source : Source) (bufSize : ℕ), SameFields ctx source bufSize := by
  intro h
  have hsame := h (sharedObject.foldl exec init) (sourceOf topFieldOnly) topFieldOnly.length
  exact absurd hsame.inside (by decide +kernel)

end Dvb
end AmlSubtitle
