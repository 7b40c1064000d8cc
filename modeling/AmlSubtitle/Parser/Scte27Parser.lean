import AmlSubtitle.Lib.Lockstep

/-!
# `Scte27Parser.cpp`: messages in several sections

A section carries a whole message, or one segment of a message: the number of the message
(`table_extension`), the number of the segment and that of the message's last segment.
`decodeSubtitle` appends the segments to a container and decodes it with the last one.

The tests for a segment of another message and for a gap are made only while there are
segments in the container.  So a segment from the middle of a message is kept as if it were
the first, when the container is empty: at the start of the stream, or behind a segment that
made the parser give up.

* `Holds`: the segments in the container are the last sections that came.
* `reassembles_of_meets`: the runs with no such segment, and with room for every segment.

A `char` is unsigned.  A section is the buffer of `DATA_SIZE` bytes it was read into, and no
read goes past it.  What `decodeMessageBodySubtitle` makes of a body is left open.
-/

namespace AmlSubtitle
namespace Scte27

/-- `DATA_SIZE`. -/
def DATA_SIZE : ℕ := 10 * 1024

/-! ## Sections -/

/-- The bytes of a section. -/
abbrev Section := ℕ → UInt8

namespace Section

variable (psrc : Section)

/-- The byte at `i`, as an `int`. -/
def byte (i : ℕ) : ℕ := (psrc i).toNat

def sectionLength : ℕ := ((psrc.byte 1 &&& 0xF) <<< 8) ||| psrc.byte 2

def segmentationOverlayIncluded : Bool := (psrc.byte 3 >>> 6) &&& 1 == 1

def tableExt : ℕ := (psrc.byte 4 <<< 8) ||| psrc.byte 5

def lastNo : ℕ := (psrc.byte 6 <<< 4) ||| ((psrc.byte 7 >>> 4) &&& 0xF)

def currNo : ℕ := ((psrc.byte 7 &&& 0xF) <<< 8) ||| psrc.byte 8

/-- `n` bytes from `i`. -/
def slice (i n : ℕ) : List UInt8 := (List.range n).map fun k => psrc (i + k)

/-- `segment_size`. -/
def segmentSize : ℤ := psrc.sectionLength - 1 - 5 - 4

/-- The segment of a section that has one. -/
def segment : List UInt8 := psrc.slice 9 psrc.segmentSize.toNat

/-- A segment with a number behind that of the last one. -/
def Rejected : Prop := psrc.segmentationOverlayIncluded ∧ psrc.lastNo < psrc.currNo

instance : Decidable psrc.Rejected := inferInstanceAs (Decidable (_ ∧ _))

end Section

/-! ## The parser -/

/-- The fields of `Scte27SubContext` that put a message together. -/
structure Scte27SubContext where
  table_ext : ℕ
  curr_no : ℤ
  last_no : ℕ
  seg_size : ℕ
  has_segment : Bool
  segment_container : ℕ → UInt8

/-- `initContext`. -/
def initContext : Scte27SubContext := ⟨0, 0, 0, 0, false, fun _ => 0⟩

/-- What becomes of a section. -/
inductive Outcome where
  /-- the parser gives up -/
  | failed
  /-- the segment is in the container, and there are more to come -/
  | kept
  /-- `decodeMessageBodySubtitle` is called with the body -/
  | decoded (body : List UInt8)
  deriving DecidableEq, Repr

namespace Scte27SubContext

/-- Every field is overwritten. -/
def cleanSegment (_ : Scte27SubContext) : Scte27SubContext where
  segment_container := fun _ => 0
  table_ext := 0
  curr_no := 0
  last_no := 0
  seg_size := 0
  has_segment := false

variable (ctx : Scte27SubContext) (psrc : Section)

/-- The first segment of a message. -/
def startSegment : Scte27SubContext :=
  { ctx.cleanSegment with
    seg_size := 0
    table_ext := psrc.tableExt
    last_no := psrc.lastNo
    curr_no := -1 }

/-- The segment is copied behind those in the container.  A copy of a negative size, or past
the end of the container, is undefined. -/
def appendSegment : Option Scte27SubContext :=
  let segment_size := psrc.segmentSize
  if segment_size < 0 ∨ (DATA_SIZE : ℤ) < ctx.seg_size + segment_size then
    none
  else
    some { ctx with
      curr_no := psrc.currNo
      has_segment := true
      segment_container := fun k =>
        if ctx.seg_size ≤ k ∧ (k : ℤ) < ctx.seg_size + segment_size then
          psrc (9 + (k - ctx.seg_size))
        else
          ctx.segment_container k
      seg_size := ctx.seg_size + segment_size.toNat }

/-- The bytes in the container. -/
def body : List UInt8 := (List.range ctx.seg_size).map ctx.segment_container

/-- The container is decoded with the last segment. -/
def finishSegment : Outcome × Scte27SubContext :=
  if psrc.currNo = psrc.lastNo then
    if ctx.seg_size < 12 then (.failed, ctx) else (.decoded ctx.body, ctx.cleanSegment)
  else
    (.kept, ctx)

/-- `Scte27Parser::decodeSubtitle`. -/
def decodeSubtitle : Option (Outcome × Scte27SubContext) :=
  if psrc.segmentationOverlayIncluded then
    if psrc.lastNo < psrc.currNo then
      some (.failed, ctx)
    else
      let ctx := if psrc.currNo = 0 then ctx.startSegment psrc else ctx
      if psrc.tableExt ≠ ctx.table_ext ∧ ctx.has_segment then
        some (.failed, ctx.cleanSegment)
      else if (psrc.currNo : ℤ) ≠ ctx.curr_no + 1 ∧ ctx.has_segment then
        some (.failed, ctx.cleanSegment)
      else
        (ctx.appendSegment psrc).map fun ctx => ctx.finishSegment psrc
  else
    let ctx := if ctx.has_segment then ctx.cleanSegment else ctx
    if (psrc.sectionLength : ℤ) - 1 - 4 < 12 then
      some (.failed, ctx)
    else
      some (.decoded (psrc.slice 4 (psrc.sectionLength - 1 - 4)), ctx)

end Scte27SubContext

/-- The parser reads a section. -/
def step (ctx : Scte27SubContext) (psrc : Section) : Option Scte27SubContext :=
  (ctx.decodeSubtitle psrc).map Prod.snd

/-! ## Messages -/

/-- Segments `0`, `1`, … of one message. -/
structure InOrder (table_ext : ℕ) (segments : List Section) : Prop where
  numbers : segments.map Section.currNo = List.range segments.length
  extension : ∀ psrc ∈ segments, psrc.tableExt = table_ext

theorem InOrder.append {table_ext : ℕ} {segments : List Section} (h : InOrder table_ext segments)
    {psrc : Section} (hno : psrc.currNo = segments.length) (hext : psrc.tableExt = table_ext) :
    InOrder table_ext (segments ++ [psrc]) := by
  refine ⟨?_, fun psrc' hpsrc' => ?_⟩
  · rw [List.map_append, h.numbers, List.length_append, List.length_singleton, List.range_succ,
      ← hno]
    rfl
  · rcases List.mem_append.mp hpsrc' with hmem | hmem
    · exact h.extension psrc' hmem
    · rw [List.mem_singleton.mp hmem]
      exact hext

/-- The sections that were not rejected at once. -/
def received (psrcs : List Section) : List Section := psrcs.filter fun psrc => ¬ psrc.Rejected

/-- The segments in the container are the last sections received. -/
def Holds (psrcs : List Section) (ctx : Scte27SubContext) : Prop :=
  ctx.has_segment = true → ∃ segments, segments <:+ received psrcs ∧
    InOrder ctx.table_ext segments ∧ ctx.curr_no + 1 = segments.length ∧
      ctx.body = segments.flatMap Section.segment

/-! ## One section -/

/-- The segment is the one the container waits for, or the first of a message. -/
def Continues (ctx : Scte27SubContext) (psrc : Section) : Prop :=
  psrc.currNo = 0 ∨ (psrc.tableExt = ctx.table_ext ∧ (psrc.currNo : ℤ) = ctx.curr_no + 1)

/-- A segment that is not the first of its message comes to a container that holds others, and
one that is copied has room there. -/
structure Expected (ctx : Scte27SubContext) (psrc : Section) : Prop where
  begun : psrc.segmentationOverlayIncluded → ¬ psrc.Rejected →
    psrc.currNo = 0 ∨ ctx.has_segment
  fits : psrc.segmentationOverlayIncluded → ¬ psrc.Rejected → Continues ctx psrc →
    0 ≤ psrc.segmentSize ∧
      (if psrc.currNo = 0 then 0 else ctx.seg_size : ℕ) + psrc.segmentSize ≤ DATA_SIZE

/-- A whole message: all its segments in order, and its body. -/
structure Message (segments : List Section) (body : List UInt8) : Prop where
  inOrder : ∃ table_ext, InOrder table_ext segments
  complete : ∃ psrc, segments.getLast? = some psrc ∧ psrc.lastNo + 1 = segments.length
  body_eq : body = segments.flatMap Section.segment

theorem received_append_singleton (psrcs : List Section) {psrc : Section} (h : ¬ psrc.Rejected) :
    received (psrcs ++ [psrc]) = received psrcs ++ [psrc] := by
  rw [received, List.filter_append]
  exact congrArg _ (List.filter_cons_of_pos (decide_eq_true h))

theorem received_append_rejected (psrcs : List Section) {psrc : Section} (h : psrc.Rejected) :
    received (psrcs ++ [psrc]) = received psrcs := by
  rw [received, List.filter_append, List.filter_cons_of_neg (by simpa using h)]
  exact List.append_nil _

/-- The copy. -/
theorem appendSegment_eq_some {ctx : Scte27SubContext} {psrc : Section}
    (hsize : 0 ≤ psrc.segmentSize) (hfits : ctx.seg_size + psrc.segmentSize ≤ DATA_SIZE) :
    ∃ ctx', ctx.appendSegment psrc = some ctx' ∧ ctx'.table_ext = ctx.table_ext ∧
      ctx'.curr_no = psrc.currNo ∧ ctx'.body = ctx.body ++ psrc.segment := by
  have hok : ¬ (psrc.segmentSize < 0 ∨ (DATA_SIZE : ℤ) < ctx.seg_size + psrc.segmentSize) := by
    rintro (h | h) <;> omega
  unfold Scte27SubContext.appendSegment
  rw [if_neg hok]
  refine ⟨_, rfl, rfl, rfl, ?_⟩
  unfold Scte27SubContext.body
  dsimp only
  rw [List.range_add, List.map_append, List.map_map]
  congr 1
  · refine List.map_congr_left fun k hk => if_neg ?_
    have hlt := List.mem_range.mp hk
    omega
  · refine List.map_congr_left fun k hk => ?_
    have hlt := List.mem_range.mp hk
    have hin : ctx.seg_size ≤ ctx.seg_size + k ∧
        ((ctx.seg_size + k : ℕ) : ℤ) < ctx.seg_size + psrc.segmentSize := by
      constructor
      · exact Nat.le_add_right _ _
      · omega
    rw [Function.comp_apply, if_pos hin, Nat.add_sub_cancel_left]

/-- What the parser makes of a section behind those of `es`. -/
structure Reads (es : List Section) (ctx : Scte27SubContext) (psrc : Section) (out : Outcome)
    (ctx' : Scte27SubContext) : Prop where
  eq_some : ctx.decodeSubtitle psrc = some (out, ctx')
  holds : Holds (es ++ [psrc]) ctx'
  /-- the body of a segmented message is that of the segments that came last -/
  message : ∀ body, out = .decoded body → psrc.segmentationOverlayIncluded →
    ∃ segments, segments ++ [psrc] <:+ received (es ++ [psrc]) ∧ Message (segments ++ [psrc]) body
  /-- a gap or another message empties the container -/
  interrupted : psrc.segmentationOverlayIncluded → ¬ psrc.Rejected → ¬ Continues ctx psrc →
    ctx'.has_segment = false

theorem holds_of_empty (psrcs : List Section) {ctx : Scte27SubContext}
    (h : ctx.has_segment = false) : Holds psrcs ctx :=
  fun hsegment => absurd (h.symm.trans hsegment) Bool.false_ne_true

/-- A segment that goes into the container. -/
theorem reads_of_append {es : List Section} {ctx ctx₀ : Scte27SubContext} {psrc : Section}
    (hrejected : ¬ psrc.Rejected) (hcontinues : Continues ctx psrc) {segments : List Section}
    (hsuffix : segments <:+ received es) (horder : InOrder psrc.tableExt segments)
    (hno : psrc.currNo = segments.length) (hbody : ctx₀.body = segments.flatMap Section.segment)
    (hext : ctx₀.table_ext = psrc.tableExt) (hsize : 0 ≤ psrc.segmentSize)
    (hfits : ctx₀.seg_size + psrc.segmentSize ≤ DATA_SIZE)
    (hdecode : ctx.decodeSubtitle psrc =
      (ctx₀.appendSegment psrc).map fun ctx => ctx.finishSegment psrc) :
    ∃ out ctx', Reads es ctx psrc out ctx' := by
  obtain ⟨ctx₁, hsome, hext₁, hno₁, hbody₁⟩ := appendSegment_eq_some hsize hfits
  have hsuffix' : segments ++ [psrc] <:+ received (es ++ [psrc]) := by
    rw [received_append_singleton es hrejected]
    obtain ⟨rest, hrest⟩ := hsuffix
    exact ⟨rest, by rw [← List.append_assoc, hrest]⟩
  have horder' : InOrder psrc.tableExt (segments ++ [psrc]) := horder.append hno rfl
  have hbody' : ctx₁.body = (segments ++ [psrc]).flatMap Section.segment := by
    rw [hbody₁, hbody, List.flatMap_append, List.flatMap_singleton]
  have hholds : Holds (es ++ [psrc]) ctx₁ := by
    intro _
    refine ⟨segments ++ [psrc], hsuffix', ?_, ?_, hbody'⟩
    · rw [hext₁, hext]
      exact horder'
    · rw [hno₁, hno, List.length_append, List.length_singleton]
      push_cast
      rfl
  rw [hsome, Option.map_some] at hdecode
  unfold Scte27SubContext.finishSegment at hdecode
  by_cases hlast : psrc.currNo = psrc.lastNo
  · rw [if_pos hlast] at hdecode
    by_cases hshort : ctx₁.seg_size < 12
    · rw [if_pos hshort] at hdecode
      exact ⟨_, _, hdecode, hholds, fun _ h => Outcome.noConfusion h,
        fun _ _ h => absurd hcontinues h⟩
    · rw [if_neg hshort] at hdecode
      refine ⟨_, _, hdecode, holds_of_empty _ rfl, fun body hout _ => ?_, fun _ _ _ => rfl⟩
      cases hout
      refine ⟨segments, hsuffix', ⟨_, horder'⟩, ⟨psrc, List.getLast?_concat, ?_⟩, hbody'⟩
      rw [List.length_append, List.length_singleton, ← hno, hlast]
  · rw [if_neg hlast] at hdecode
    exact ⟨_, _, hdecode, hholds, fun _ h => Outcome.noConfusion h,
      fun _ _ h => absurd hcontinues h⟩

/-- A section without segments. -/
theorem reads_of_not_segmented {es : List Section} {ctx : Scte27SubContext} {psrc : Section}
    (hsegmented : ¬ psrc.segmentationOverlayIncluded) : ∃ out ctx', Reads es ctx psrc out ctx' := by
  have hempty : (if ctx.has_segment then ctx.cleanSegment else ctx).has_segment = false := by
    cases hsegment : ctx.has_segment with
    | false => exact hsegment
    | true => rfl
  by_cases hshort : (psrc.sectionLength : ℤ) - 1 - 4 < 12
  · refine ⟨.failed, _, ?_, holds_of_empty _ hempty, fun _ _ h => absurd h hsegmented,
      fun h => absurd h hsegmented⟩
    unfold Scte27SubContext.decodeSubtitle
    rw [if_neg hsegmented]
    exact if_pos hshort
  · refine ⟨.decoded (psrc.slice 4 (psrc.sectionLength - 1 - 4)), _, ?_, holds_of_empty _ hempty,
      fun _ _ h => absurd h hsegmented, fun h => absurd h hsegmented⟩
    unfold Scte27SubContext.decodeSubtitle
    rw [if_neg hsegmented]
    exact if_neg hshort

/-- A segment that does not belong behind those in the container. -/
theorem reads_of_mismatch {es : List Section} {ctx : Scte27SubContext} {psrc : Section}
    (hdecode : ctx.decodeSubtitle psrc = some (.failed, ctx.cleanSegment)) :
    ∃ out ctx', Reads es ctx psrc out ctx' :=
  ⟨_, _, hdecode, holds_of_empty _ rfl, fun _ h => Outcome.noConfusion h, fun _ _ _ => rfl⟩

/-- **One section.** -/
theorem exists_reads {es : List Section} {ctx : Scte27SubContext} {psrc : Section}
    (hholds : Holds es ctx) (hexpected : Expected ctx psrc) :
    ∃ out ctx', Reads es ctx psrc out ctx' := by
  by_cases hsegmented : psrc.segmentationOverlayIncluded
  swap
  · exact reads_of_not_segmented hsegmented
  by_cases hno : psrc.lastNo < psrc.currNo
  · have hrejected : psrc.Rejected := ⟨hsegmented, hno⟩
    refine ⟨.failed, ctx, ?_, ?_, fun _ h => Outcome.noConfusion h, fun _ h => absurd hrejected h⟩
    · unfold Scte27SubContext.decodeSubtitle
      rw [if_pos hsegmented, if_pos hno]
    · rw [Holds, received_append_rejected es hrejected]
      exact hholds
  have hrejected : ¬ psrc.Rejected := fun h => hno h.2
  have hfits := hexpected.fits hsegmented hrejected
  by_cases hfirst : psrc.currNo = 0
  · -- the container is emptied before the two tests, which then do not apply
    have hsize := hfits (Or.inl hfirst)
    rw [if_pos hfirst] at hsize
    have hbody : (ctx.startSegment psrc).body = ([] : List Section).flatMap Section.segment := rfl
    refine reads_of_append hrejected (Or.inl hfirst) (List.nil_suffix) ⟨rfl, fun _ h => by cases h⟩
      hfirst hbody rfl hsize.1 hsize.2 ?_
    unfold Scte27SubContext.decodeSubtitle
    rw [if_pos hsegmented, if_neg hno, if_pos hfirst, if_neg (fun h => h.1 rfl),
      if_neg (fun h => Bool.false_ne_true h.2)]
  · have hsegment := (hexpected.begun hsegmented hrejected).resolve_left hfirst
    obtain ⟨segments, hsuffix, horder, hlength, hbody⟩ := hholds hsegment
    by_cases hext : psrc.tableExt = ctx.table_ext
    swap
    · refine reads_of_mismatch ?_
      unfold Scte27SubContext.decodeSubtitle
      rw [if_pos hsegmented, if_neg hno, if_neg hfirst, if_pos ⟨hext, hsegment⟩]
    by_cases hnext : (psrc.currNo : ℤ) = ctx.curr_no + 1
    swap
    · refine reads_of_mismatch ?_
      unfold Scte27SubContext.decodeSubtitle
      rw [if_pos hsegmented, if_neg hno, if_neg hfirst, if_neg (fun h => h.1 hext),
        if_pos ⟨hnext, hsegment⟩]
    have hcontinues : Continues ctx psrc := Or.inr ⟨hext, hnext⟩
    have hsize := hfits hcontinues
    rw [if_neg hfirst] at hsize
    rw [← hext] at horder
    refine reads_of_append hrejected hcontinues hsuffix horder (by omega) hbody hext.symm hsize.1
      hsize.2 ?_
    unfold Scte27SubContext.decodeSubtitle
    rw [if_pos hsegmented, if_neg hno, if_neg hfirst, if_neg (fun h => h.1 hext),
      if_neg (fun h => h.1 hnext)]

/-! ## Every run -/

/-- A segmented message is decoded only from all its segments, received in order, and its body
is what they carry. -/
def Reassembles (psrcs : List Section) : Prop :=
  ∀ es psrc, es ++ [psrc] <+: psrcs → ∃ ctx out ctx',
    Lockstep.run step initContext es = some ctx ∧ Reads es ctx psrc out ctx'

theorem exists_run_holds {psrcs : List Section} (h : Lockstep.Meets step Expected initContext psrcs)
    (es : List Section) (hes : es <+: psrcs) :
    ∃ ctx, Lockstep.run step initContext es = some ctx ∧ Holds es ctx := by
  induction es using List.reverseRecOn with
  | nil => exact ⟨initContext, rfl, holds_of_empty _ rfl⟩
  | append_singleton es psrc ih =>
    obtain ⟨ctx, hrun, hholds⟩ := ih ((List.prefix_append _ _).trans hes)
    obtain ⟨out, ctx', hreads⟩ := exists_reads hholds (h.of_prefix hes hrun)
    refine ⟨ctx', ?_, hreads.holds⟩
    rw [Lockstep.run_append_singleton, hrun, Option.bind_some, step, hreads.eq_some,
      Option.map_some]

/-- **Reassembly**, where every segment that is not the first of its message finds others in the
container and every segment has room there. -/
theorem reassembles_of_meets {psrcs : List Section}
    (h : Lockstep.Meets step Expected initContext psrcs) : Reassembles psrcs := by
  intro es psrc hes
  obtain ⟨ctx, hrun, hholds⟩ := exists_run_holds h es ((List.prefix_append _ _).trans hes)
  obtain ⟨out, ctx', hreads⟩ := exists_reads hholds (h.of_prefix hes hrun)
  exact ⟨ctx, out, ctx', hrun, hreads⟩

/-- Segment `currNo` of `lastNo`, of message 7, with 12 bytes of its own. -/
def sampleSection (currNo lastNo : UInt8) : Section
  | 2 => 22
  | 3 => 0x40
  | 5 => 7
  | 7 => lastNo <<< 4
  | 8 => currNo
  | i => if i < 9 then 0 else currNo

/-- A message in two segments. -/
theorem reassembles_two : Reassembles [sampleSection 0 1, sampleSection 1 1] := by
  refine reassembles_of_meets ⟨⟨fun _ _ => Or.inl rfl, fun _ _ _ => by decide⟩, fun ctx hctx => ?_⟩
  have hctx : step initContext (sampleSection 0 1) = some ctx := hctx
  have hfirst : (step initContext (sampleSection 0 1)).map
      (fun ctx => (ctx.has_segment, ctx.seg_size)) = some (true, 12) := by decide
  rw [hctx, Option.map_some, Option.some_inj, Prod.mk.injEq] at hfirst
  refine ⟨⟨fun _ _ => Or.inr hfirst.1, fun _ _ _ => ?_⟩, fun _ _ => trivial⟩
  rw [hfirst.2]
  decide

/-- The second of two segments, with the first one lost, is decoded by itself. -/
theorem not_reassembles_last : ¬ ∀ psrcs, Reassembles psrcs := by
  intro h
  obtain ⟨ctx, out, ctx', hrun, hreads⟩ := h [sampleSection 1 1] [] _ List.prefix_rfl
  cases hrun
  have hdecode : (initContext.decodeSubtitle (sampleSection 1 1)).map Prod.fst =
      some (.decoded (List.replicate 12 1)) := by decide
  rw [hreads.eq_some, Option.map_some, Option.some_inj] at hdecode
  obtain ⟨segments, hsuffix, ⟨table_ext, horder⟩, -⟩ := hreads.message _ hdecode (by decide)
  have hlength : (segments ++ [sampleSection 1 1]).length ≤ 1 :=
    hsuffix.length_le.trans (List.length_filter_le _ _)
  have hnil : segments = [] := by
    rw [List.length_append, List.length_singleton] at hlength
    exact List.length_eq_zero_iff.mp (by omega)
  have hnumbers := horder.numbers
  rw [hnil] at hnumbers
  revert hnumbers
  decide

end Scte27
end AmlSubtitle
