import AmlSubtitle.Io.DemuxSource
import AmlSubtitle.Parser.Scte27Parser

/-!
# The intake of SCTE-27 sections

`getScte27Spu` reads an item of the demux source into a buffer of `DATA_SIZE` bytes, with a size
that stands for that of the item, and `decodeSubtitle` puts the segments of a message into a
container of the same size.

* `WholeReads`: no read is left in the middle of an item; what an item still holds after a read
  begins with a start code, at which `read_check` stops again.
* `turn_of_item`, `turn_of_none`: a round of such a read.
* `decodeSubtitle_isSome_iff`: when a segment has room.
* `intake_iff`: the runs in which nothing is written outside the two buffers.
-/

namespace AmlSubtitle
namespace Scte27

open Words DemuxSource

/-! ## The parser and its source -/

/-- The bytes that the next round of a read copies. -/
def copied (source : DemuxSource.State) : List UInt8 :=
  match source.reading, source.itemLeft with
  | some r, some item =>
    if r.got.length ≠ r.size ∧ source.started then
      ((item.readCheck (asSigned 32 (r.sizeAt item - r.got.length))).map Prod.fst).getD []
    else []
  | _, _ => []

/-- The buffer with `bytes` from `i` on. -/
def put (originBuffer : Section) (i : ℕ) (bytes : List UInt8) : Section := fun k =>
  if i ≤ k ∧ k < i + bytes.length then bytes.getD (k - i) 0 else originBuffer k

structure Intake where
  source : DemuxSource.State
  originBuffer : Section
  ctx : Scte27SubContext

/-- What can happen: the source gets a section, is stopped, or its queue is disabled; the parser
allocates a buffer, which holds anything, and begins to read; a round of the read, behind which the
parser may have been stopped. -/
inductive IntakeEvent where
  | push (s : AmlSubtitle.Section)
  | stop
  | notifyExit
  | call (originBuffer : Section)
  | turn (stopped : Bool)

/-- A round of the read, and what `getScte27Spu` does with the bytes when it returns. -/
def Intake.turn (s : Intake) (stopped : Bool) : Option Intake :=
  match s.source.reading with
  | none => some s
  | some r =>
    let source := s.source.step .turn
    let bytes := copied s.source
    if source.crashed ∨ DATA_SIZE < r.got.length + bytes.length then
      none
    else
      let s := { s with
        source := source
        originBuffer := put s.originBuffer r.got.length bytes }
      if source.reading.isSome ∨ stopped ∨ r.got.length + bytes.length = 0 then
        some s
      else
        (s.ctx.decodeSubtitle s.originBuffer).map fun result => { s with ctx := result.2 }

/-- One event.  A write outside a buffer is `none`. -/
def Intake.step (s : Intake) : IntakeEvent → Option Intake
  | .push t => some { s with source := s.source.step (.push t) }
  | .stop => some { s with source := s.source.step .stop }
  | .notifyExit => some { s with source := s.source.step .notifyExit }
  | .call originBuffer =>
    if s.source.reading.isSome then some s
    else some { s with source := s.source.step (.read 0xffff), originBuffer := originBuffer }
  | .turn stopped => s.turn stopped

/-- The parser at its start. -/
def startIntake : Intake := ⟨DemuxSource.start, fun _ => 0, initContext⟩

/-! ## A read of an item -/

/-- What a read of an item takes of it: the bytes up to a start code. -/
def upToStart (item : BufferItem) : List UInt8 :=
  item.rest.take (item.needRead item.getSize).1.toNat

/-- Nothing of the item is read, or it was read up to a start code. -/
def Cut (item : BufferItem) : Prop :=
  item.mPtr = 0 ∨ BufferItem.startCode item.rest (item.mRemainSize - 4) = some 0

/-- No read is in the middle of an item. -/
structure WholeReads (source : DemuxSource.State) : Prop where
  crashed : source.crashed = false
  reading : ∀ r ∈ source.reading, r.size = 0xffff ∧ r.got = []
  current : ∀ item ∈ source.itemLeft, Cut item
  queue : ∀ item ∈ source.mSegment.mSegments, item.mPtr = 0

theorem mRemainSize_le (item : BufferItem) : item.mRemainSize ≤ item.getSize := by
  have hadd := item.ptr_add
  rw [BufferItem.getSize]
  omega

theorem startCode_lt {bytes : List UInt8} {n i : ℕ} (h : BufferItem.startCode bytes n = some i) :
    i < n :=
  List.mem_range.mp (List.mem_of_find?_eq_some h)

/-- A read of an item asks for what is left of it, or for what is in front of a start code. -/
theorem needRead_cases (item : BufferItem) :
    item.needRead item.getSize = ((item.mRemainSize : ℤ), false) ∧
        BufferItem.startCode item.rest (item.mRemainSize - 4) = none ∨
      ∃ i, BufferItem.startCode item.rest (item.mRemainSize - 4) = some i ∧
        item.needRead item.getSize = ((i : ℤ), true) := by
  have hsize : (if (item.getSize : ℤ) > item.mRemainSize then (item.mRemainSize : ℤ)
      else item.getSize) = item.mRemainSize := by
    have hle := mRemainSize_le item
    split_ifs <;> omega
  have hlimit : ((item.mRemainSize : ℤ) - 4).toNat = item.mRemainSize - 4 := by omega
  unfold BufferItem.needRead
  rw [hsize]
  dsimp only
  rw [hlimit]
  split_ifs with hfour
  · cases hcode : BufferItem.startCode item.rest (item.mRemainSize - 4) with
    | none => exact .inl ⟨rfl, rfl⟩
    | some i => exact .inr ⟨i, rfl, rfl⟩
  · refine .inl ⟨rfl, ?_⟩
    have hnone : item.mRemainSize - 4 = 0 := by omega
    rw [hnone]
    rfl

/-- Where a start code is found, it is found again. -/
theorem startCode_drop {bytes : List UInt8} {n i : ℕ}
    (h : BufferItem.startCode bytes n = some i) :
    BufferItem.startCode (bytes.drop i) (n - i) = some 0 := by
  have hlt := startCode_lt h
  have hcode := List.find?_some h
  obtain ⟨m, hm⟩ : ∃ m, n - i = m + 1 := ⟨n - i - 1, by omega⟩
  rw [BufferItem.startCode, hm, List.range_succ_eq_map, List.find?_cons_of_pos]
  simpa using hcode

/-- A read of an item. -/
theorem readCheck_whole {item : BufferItem} (hleft : item.isEmpty = false) (hcut : Cut item) :
    ∃ item' isReadItemEnd,
      item.readCheck item.getSize = some (upToStart item, item', isReadItemEnd) ∧
        ((upToStart item).length = item.getSize ∨ isReadItemEnd = true) ∧
        (item'.isEmpty ∨ Cut item') := by
  have hremain : item.mRemainSize ≠ 0 := by simpa [BufferItem.isEmpty] using hleft
  have hsize : (item.getSize : ℤ) ≠ 0 := by
    have hle := mRemainSize_le item
    omega
  have hnone : ¬ ((item.getSize : ℤ) = 0 ∨ item.mRemainSize = 0) := by tauto
  rcases needRead_cases item with ⟨hread, hcode⟩ | ⟨i, hcode, hread⟩
  · have hpos : 0 ≤ (item.needRead item.getSize).1 := by
      rw [hread]
      exact Int.natCast_nonneg _
    have hstart : item.mPtr = 0 := by
      rcases hcut with hstart | hfound
      · exact hstart
      · rw [hcode] at hfound
        cases hfound
    refine ⟨_, _, by rw [BufferItem.readCheck, if_neg hnone, if_pos hpos]; rfl, .inl ?_, .inl ?_⟩
    · have hadd := item.ptr_add
      rw [upToStart, hread, List.length_take, BufferItem.length_rest, BufferItem.getSize]
      dsimp only
      omega
    · simp [BufferItem.isEmpty, BufferItem.consume, hread]
  · have hlt := startCode_lt hcode
    have hpos : 0 ≤ (item.needRead item.getSize).1 := by
      rw [hread]
      exact Int.natCast_nonneg _
    have htoNat : (item.needRead item.getSize).1.toNat = i := by
      rw [hread]
      rfl
    refine ⟨_, _, by rw [BufferItem.readCheck, if_neg hnone, if_pos hpos]; rfl, .inr ?_, .inr
      (.inr ?_)⟩
    · rw [hread]
    · have hdrop := startCode_drop hcode
      rw [BufferItem.rest_consume]
      simpa [BufferItem.consume, htoNat, Nat.sub_right_comm] using hdrop

section Turn

variable {source : DemuxSource.State} {r : Reading}

/-- A round at an item: the read returns what is in front of a start code. -/
theorem turn_of_item (h : WholeReads source) (hr : source.reading = some r)
    (hstarted : source.started) {item : BufferItem} (hitem : source.itemLeft = some item) :
    copied source = upToStart item ∧ (source.step .turn).reading = none ∧
      WholeReads (source.step .turn) := by
  obtain ⟨hwhole, hgot⟩ := h.reading r hr
  have hleft : item.isEmpty = false := by simpa using (Option.filter_eq_some_iff.mp hitem).2
  obtain ⟨item', isReadItemEnd, hread, hend, hcut⟩ := readCheck_whole hleft (h.current item hitem)
  have hsizeAt : r.sizeAt item = item.getSize := by rw [Reading.sizeAt, if_pos hwhole]
  have hsize : asSigned 32 ((r.sizeAt item : ℤ) - r.got.length) = item.getSize := by
    have hlt : item.getSize < 2 ^ 31 := item.length_lt
    rw [hsizeAt, hgot, List.length_nil, Nat.cast_zero, sub_zero]
    exact asSigned_of_lt (by omega)
  have hloop : r.got.length ≠ r.size ∧ source.started := by
    refine ⟨?_, hstarted⟩
    rw [hgot, hwhole, List.length_nil]
    omega
  have hcopied : copied source = upToStart item := by
    rw [copied, hr, hitem]
    dsimp only
    rw [if_pos hloop, hsize, hread]
    rfl
  have hfinish : (r.got ++ upToStart item).length = r.sizeAt item ∨ isReadItemEnd = true := by
    rw [hgot, List.nil_append, hsizeAt]
    exact hend
  have hturn : source.step .turn
      = State.finish { source with
          mCurrentItem := some item'
          reading := some ⟨r.sizeAt item, r.got ++ upToStart item⟩ }
        ⟨r.sizeAt item, r.got ++ upToStart item⟩ := by
    rw [State.step, h.crashed, if_neg (by decide), State.turn, hr]
    dsimp only
    rw [if_pos hloop, State.round, hitem]
    dsimp only
    rw [hsize, hread]
    dsimp only
    rw [if_pos hfinish, h.crashed]
  rw [hturn]
  refine ⟨hcopied, rfl, h.crashed, fun _ hr' => (by cases hr'), fun t ht => ?_, h.queue⟩
  obtain ⟨hsome, hfull⟩ := Option.filter_eq_some_iff.mp ht
  obtain rfl := Option.some.inj hsome
  exact hcut.resolve_left (by simpa using hfull)

/-- Any other round copies nothing; the read goes on, or the source is stopped. -/
theorem turn_of_none (h : WholeReads source) (hr : source.reading = some r)
    (hnone : source.started = false ∨ source.itemLeft = none) :
    copied source = [] ∧ WholeReads (source.step .turn) := by
  obtain ⟨hwhole, hgot⟩ := h.reading r hr
  have hlength : r.got.length ≠ r.size := by
    rw [hgot, hwhole, List.length_nil]
    omega
  rw [State.step, h.crashed, if_neg (by decide), State.turn, hr]
  dsimp only
  rcases hstarted : source.started with _ | _
  · refine ⟨?_, ?_⟩
    · rw [copied, hr, hstarted]
      cases source.itemLeft with
      | none => rfl
      | some item => exact if_neg fun h => Bool.false_ne_true h.2
    · rw [if_neg (by simp)]
      exact ⟨h.crashed, fun _ hr' => (by cases hr'), h.current, h.queue⟩
  · have hitem : source.itemLeft = none := hnone.resolve_left (by rw [hstarted]; decide)
    refine ⟨by rw [copied, hr, hitem], ?_⟩
    rw [if_pos ⟨hlength, rfl⟩, State.round, hitem]
    dsimp only
    cases hpop : source.mSegment.pop with
    | none => exact h
    | some result =>
      obtain ⟨item, q⟩ := result
      have hitems : (∀ t ∈ item, t.mPtr = 0) ∧ ∀ t ∈ q.mSegments, t.mPtr = 0 := by
        unfold BufferSegment.pop at hpop
        cases hq : source.mSegment.mSegments with
        | nil =>
          rw [hq] at hpop
          dsimp only at hpop
          split_ifs at hpop
          obtain ⟨rfl, rfl⟩ := Prod.mk.inj (Option.some.inj hpop)
          exact ⟨fun _ ht => (by cases ht), h.queue⟩
        | cons t items =>
          rw [hq] at hpop
          obtain ⟨rfl, rfl⟩ := Prod.mk.inj (Option.some.inj hpop)
          have hall := h.queue
          rw [hq] at hall
          refine ⟨fun u hu => ?_, fun u hu => hall u (List.mem_cons_of_mem _ hu)⟩
          obtain rfl := Option.some.inj hu
          exact hall _ List.mem_cons_self
      refine ⟨h.crashed, fun r' hr' => h.reading r' (hr ▸ hr'), fun t ht => ?_, hitems.2⟩
      exact .inl (hitems.1 t (Option.filter_eq_some_iff.mp ht).1)

end Turn

/-! ## A segment -/

/-- The segment goes into the container. -/
def Appended (ctx : Scte27SubContext) (psrc : Section) : Prop :=
  psrc.segmentationOverlayIncluded ∧ psrc.currNo ≤ psrc.lastNo ∧
    (psrc.currNo = 0 ∨ ctx.has_segment = false ∨
      psrc.tableExt = ctx.table_ext ∧ (psrc.currNo : ℤ) = ctx.curr_no + 1)

/-- A segment that goes into the container declares a length that it can have, and has room behind
those that it belongs to. -/
def HasRoom (ctx : Scte27SubContext) (psrc : Section) : Prop :=
  Appended ctx psrc → 10 ≤ psrc.sectionLength ∧
    (if psrc.currNo = 0 then 0 else ctx.seg_size) + (psrc.sectionLength - 10) ≤ DATA_SIZE

theorem appendSegment_isSome_iff (ctx : Scte27SubContext) (psrc : Section) :
    (ctx.appendSegment psrc).isSome ↔
      10 ≤ psrc.sectionLength ∧ ctx.seg_size + (psrc.sectionLength - 10) ≤ DATA_SIZE := by
  unfold Scte27SubContext.appendSegment
  dsimp only
  rw [Section.segmentSize]
  split_ifs with h
  · refine iff_of_false (by simp) ?_
    omega
  · refine iff_of_true (by simp) ?_
    omega

/-- **One section** is decoded without a write outside the container if its segment has room. -/
theorem decodeSubtitle_isSome_iff (ctx : Scte27SubContext) (psrc : Section) :
    (ctx.decodeSubtitle psrc).isSome ↔ HasRoom ctx psrc := by
  unfold HasRoom Appended Scte27SubContext.decodeSubtitle
  by_cases hsegmented : psrc.segmentationOverlayIncluded
  swap
  · rw [if_neg hsegmented]
    refine iff_of_true (by dsimp only; split_ifs <;> rfl) fun h => absurd h.1 hsegmented
  rw [if_pos hsegmented]
  by_cases hno : psrc.lastNo < psrc.currNo
  · rw [if_pos hno]
    exact iff_of_true rfl fun h => absurd h.2.1 (by omega)
  rw [if_neg hno]
  have hle := not_lt.mp hno
  by_cases hfirst : psrc.currNo = 0
  · have hsize : (ctx.startSegment psrc).seg_size = 0 := rfl
    rw [if_pos hfirst, if_pos hfirst]
    dsimp only
    rw [if_neg (fun h => h.1 rfl), if_neg (fun h => Bool.false_ne_true h.2), Option.isSome_map,
      appendSegment_isSome_iff, hsize]
    exact ⟨fun h _ => h, fun h => h ⟨hsegmented, hle, .inl hfirst⟩⟩
  · rw [if_neg hfirst, if_neg hfirst]
    dsimp only
    by_cases hext : psrc.tableExt ≠ ctx.table_ext ∧ ctx.has_segment
    · rw [if_pos hext]
      refine iff_of_true rfl fun h => absurd h.2.2 ?_
      rintro (h | h | ⟨h, -⟩)
      · exact hfirst h
      · exact absurd hext.2 (by rw [h]; decide)
      · exact hext.1 h
    by_cases hnext : (psrc.currNo : ℤ) ≠ ctx.curr_no + 1 ∧ ctx.has_segment
    · rw [if_neg hext, if_pos hnext]
      refine iff_of_true rfl fun h => absurd h.2.2 ?_
      rintro (h | h | ⟨-, h⟩)
      · exact hfirst h
      · exact absurd hnext.2 (by rw [h]; decide)
      · exact hnext.1 h
    rw [if_neg hext, if_neg hnext, Option.isSome_map, appendSegment_isSome_iff]
    refine ⟨fun h _ => h, fun h => h ⟨hsegmented, hle, .inr ?_⟩⟩
    cases hsegment : ctx.has_segment with
    | false => exact .inl rfl
    | true =>
      rw [hsegment] at hext hnext
      simp only [ne_eq, and_true, not_not] at hext hnext
      exact .inr ⟨hext, hnext⟩

/-! ## Every run -/

/-- What is read of an item has room in the buffer, and the segment of the section that the buffer
then holds has room in the container. -/
def Fits (s : Intake) : IntakeEvent → Prop
  | .turn stopped =>
    s.source.reading.isSome → s.source.started → ∀ item ∈ s.source.itemLeft,
      (upToStart item).length ≤ DATA_SIZE ∧
        (stopped = false → upToStart item ≠ [] →
          HasRoom s.ctx (put s.originBuffer 0 (upToStart item)))
  | _ => True

theorem wholeReads_push {source : DemuxSource.State} (h : WholeReads source)
    (t : AmlSubtitle.Section) : WholeReads (source.step (.push t)) := by
  rw [State.step, h.crashed, if_neg (by decide)]
  refine ⟨rfl, h.reading, h.current, fun item hitem => ?_⟩
  dsimp only [BufferSegment.push] at hitem
  split_ifs at hitem
  · exact h.queue item hitem
  · rcases List.mem_append.mp hitem with hitem | hitem
    · exact h.queue item hitem
    · rw [List.mem_singleton.mp hitem]
      rfl

/-- A round of the read. -/
theorem turn_spec (s : Intake) (h : WholeReads s.source) (stopped : Bool) :
    ((s.turn stopped).isSome ↔ Fits s (.turn stopped)) ∧
      ∀ s' ∈ s.turn stopped, WholeReads s'.source := by
  unfold Intake.turn Fits
  cases hr : s.source.reading with
  | none =>
    refine ⟨iff_of_true rfl fun hsome => absurd hsome (by simp), fun s' hs' => ?_⟩
    obtain rfl := Option.some.inj hs'
    exact h
  | some r =>
    dsimp only
    obtain ⟨-, hgot⟩ := h.reading r hr
    by_cases hitem : s.source.started = true ∧ s.source.itemLeft.isSome
    · -- the read returns with what it takes of the item
      obtain ⟨hstarted, hsome⟩ := hitem
      obtain ⟨item, hitem⟩ := Option.isSome_iff_exists.mp hsome
      obtain ⟨hcopied, hreturned, hwhole⟩ := turn_of_item h hr hstarted hitem
      have hfits : ((some r).isSome = true → s.source.started = true → ∀ t ∈ s.source.itemLeft,
          (upToStart t).length ≤ DATA_SIZE ∧ (stopped = false → upToStart t ≠ [] →
            HasRoom s.ctx (put s.originBuffer 0 (upToStart t)))) ↔
          (upToStart item).length ≤ DATA_SIZE ∧ (stopped = false → upToStart item ≠ [] →
            HasRoom s.ctx (put s.originBuffer 0 (upToStart item))) := by
        simp [hstarted, hitem]
      rw [hfits, hcopied, hreturned, hwhole.crashed, hgot, List.length_nil, Nat.zero_add]
      by_cases hlong : DATA_SIZE < (upToStart item).length
      · rw [if_pos (.inr hlong)]
        exact ⟨iff_of_false (by simp) fun hle => absurd hle.1 (by omega),
          fun s' hs' => absurd hs' (by simp)⟩
      have hle := not_lt.mp hlong
      rw [if_neg (by simpa using hle)]
      by_cases hdone : stopped = true ∨ (upToStart item).length = 0
      · rw [if_pos (.inr hdone)]
        refine ⟨iff_of_true rfl ⟨hle, fun hgo hbytes => ?_⟩, fun s' hs' => ?_⟩
        · rcases hdone with hstop | hempty
          · rw [hgo] at hstop
            exact absurd hstop (by decide)
          · exact absurd (List.length_eq_zero_iff.mp hempty) hbytes
        · obtain rfl := Option.some.inj hs'
          exact hwhole
      · rw [if_neg (by simpa using hdone), Option.isSome_map, decodeSubtitle_isSome_iff]
        obtain ⟨hgo, hbytes⟩ := not_or.mp hdone
        refine ⟨⟨fun hroom => ⟨hle, fun _ _ => hroom⟩, fun hall => hall.2 ?_ ?_⟩, fun s' hs' => ?_⟩
        · simpa using hgo
        · exact fun hnil => hbytes (by rw [hnil]; rfl)
        · obtain ⟨result, -, rfl⟩ := Option.map_eq_some_iff.mp hs'
          exact hwhole
    · -- nothing is copied
      have hnone : s.source.started = false ∨ s.source.itemLeft = none := by
        rcases hstarted : s.source.started with _ | _
        · exact .inl rfl
        · refine .inr (Option.not_isSome_iff_eq_none.mp fun hsome => hitem ⟨hstarted, hsome⟩)
      obtain ⟨hcopied, hwhole⟩ := turn_of_none h hr hnone
      rw [hcopied, hwhole.crashed, hgot]
      rw [if_neg (by decide), if_pos (.inr (.inr rfl))]
      refine ⟨iff_of_true rfl fun _ hstarted t ht => ?_, fun s' hs' => ?_⟩
      · rcases hnone with hstop | hnone
        · rw [hstop] at hstarted
          exact absurd hstarted (by decide)
        · rw [hnone] at ht
          cases ht
      · obtain rfl := Option.some.inj hs'
        exact hwhole

/-- **The intake.**  Nothing is written outside the two buffers exactly if what is read of each
item has room in the first and each segment has room in the second. -/
theorem intake_iff (es : List IntakeEvent) :
    (Lockstep.run Intake.step startIntake es).isSome ↔
      Lockstep.Meets Intake.step Fits startIntake es := by
  refine Lockstep.isSome_run_iff (I := fun s => WholeReads s.source) (fun s e h => ?_) ?_ es
  · cases e with
    | push t =>
      exact ⟨iff_of_true rfl trivial, fun s' hs' => by
        obtain rfl := Option.some.inj hs'
        exact wholeReads_push h t⟩
    | stop =>
      refine ⟨iff_of_true rfl trivial, fun s' hs' => ?_⟩
      obtain rfl := Option.some.inj hs'
      dsimp only
      rw [State.step, h.crashed, if_neg (by decide)]
      exact ⟨rfl, h.reading, h.current, h.queue⟩
    | notifyExit =>
      refine ⟨iff_of_true rfl trivial, fun s' hs' => ?_⟩
      obtain rfl := Option.some.inj hs'
      dsimp only
      rw [State.step, h.crashed, if_neg (by decide)]
      exact ⟨rfl, h.reading, h.current, h.queue⟩
    | call originBuffer =>
      rw [Intake.step]
      split_ifs with hreading
      · exact ⟨iff_of_true rfl trivial, fun s' hs' => Option.some.inj hs' ▸ h⟩
      · refine ⟨iff_of_true rfl trivial, fun s' hs' => ?_⟩
        obtain rfl := Option.some.inj hs'
        dsimp only
        rw [State.step, h.crashed, if_neg (by decide), if_neg hreading]
        refine ⟨rfl, fun r hr => ?_, h.current, h.queue⟩
        obtain rfl := Option.some.inj hr
        exact ⟨rfl, rfl⟩
    | turn stopped => exact turn_spec s h stopped
  · exact ⟨rfl, fun _ hr => (by cases hr), fun _ hitem => (by cases hitem), fun _ hitem =>
      (by cases hitem)⟩

/-- A section with a segment that declares no length. -/
def unsizedSection : AmlSubtitle.Section := ⟨[0xc6, 0, 0, 0x40, 0, 0, 0, 0, 0], by decide⟩

/-- Its segment is copied with a size of -10. -/
theorem not_isSome_unsized : ¬ ∀ es : List IntakeEvent,
    (Lockstep.run Intake.step startIntake es).isSome := by
  intro h
  have hrun := h [.push unsizedSection, .call fun _ => 0, .turn false, .turn false]
  revert hrun
  decide

end Scte27
end AmlSubtitle
