import AmlSubtitle.Lib.Words
import Mathlib.Data.List.Sort

/-!
# Subtitle items and their times

`AML_SPUVAR` (`utils/SubtitleTypes.h`) with the fields the presentation reads, and
the helpers of `subtitle/Presentation.cpp` that work on one or two items.

* A time stamp or end time of an item counts 90 kHz ticks, a clock value
  nanoseconds.  Both are `int64_t`; they are integers here, and only the
  conversions to `uint64_t` reduce modulo `2^64`.  C++ divides towards zero.
* Items are held by shared pointers.  `id` is the identity of the object, given to
  an item when the parser adds it.
* `spuData` is `none` for a null pointer.
-/

namespace AmlSubtitle

open Words

/-- `SubtitleType`. -/
inductive SubtitleType where
  | vob
  | pgs
  | mkvStr
  | ssa
  | mkvVob
  | tmdTxt
  | idxSub
  | dvb
  | dvbTeletext
  | dvbTtml
  | closedCaption
  | scte27
  | aribB24
  | smpteTtml
  | external
  deriving DecidableEq, Repr

/-- `AML_SPUVAR`. -/
structure Spu where
  id : ℕ
  bufferSize : ℕ
  isSimpleText : Bool
  pts : ℤ
  isImmediatePresent : Bool
  isExtSub : Bool
  isKeepShowing : Bool
  objectSegmentId : ℕ
  mDelay : ℤ
  spuData : Option (List UInt8)
  subtitleType : SubtitleType
  deriving DecidableEq, Repr

namespace Spu

/-! ## Units of time -/

/-- `ms2ns`. -/
def ms2ns (ms : ℤ) : ℤ := ms * 1000000

/-- `ns2ms`. -/
def ns2ms (ns : ℤ) : ℤ := ns.tdiv 1000000

/-- `DVB_TIME_MULTI`. -/
def DVB_TIME_MULTI : ℤ := 90

/-- `convertDvbTime2Ns`. -/
def convertDvbTime2Ns (dvbMillis : ℤ) : ℤ := (ms2ns dvbMillis).tdiv DVB_TIME_MULTI

/-- `convertNs2DvbTime`. -/
def convertNs2DvbTime (ns : ℤ) : ℤ := ns2ms ns * DVB_TIME_MULTI

/-- A time stamp made from a clock value is less than a millisecond away from it. -/
theorem convertDvbTime2Ns_convertNs2DvbTime (ns : ℤ) :
    convertDvbTime2Ns (convertNs2DvbTime ns) = ns - ns.tmod 1000000 := by
  have hcancel : ms2ns (convertNs2DvbTime ns) = (ns2ms ns * 1000000) * DVB_TIME_MULTI := by
    rw [ms2ns, convertNs2DvbTime]
    ring
  have hdiv := Int.tdiv_mul_add_tmod ns 1000000
  rw [convertDvbTime2Ns, hcancel, Int.mul_tdiv_cancel _ (by decide), ns2ms]
  omega

/-- A time stamp has the milliseconds of its clock value. -/
theorem ns2ms_convertDvbTime2Ns (dvbMillis : ℤ) :
    ns2ms (convertDvbTime2Ns dvbMillis) = dvbMillis.tdiv DVB_TIME_MULTI := by
  show ((dvbMillis * 1000000).tdiv 90).tdiv 1000000 = dvbMillis.tdiv 90
  rcases le_total 0 dvbMillis with hsign | hsign
  · rw [Int.tdiv_eq_ediv_of_nonneg (a := dvbMillis * 1000000) (by positivity),
      Int.tdiv_eq_ediv_of_nonneg hsign, Int.tdiv_eq_ediv_of_nonneg (by positivity)]
    omega
  · -- division towards zero is odd, so the signs come off
    obtain ⟨t, rfl⟩ : ∃ t, dvbMillis = -t := ⟨-dvbMillis, (neg_neg _).symm⟩
    have ht : 0 ≤ t := by omega
    rw [neg_mul, Int.neg_tdiv, Int.neg_tdiv, Int.neg_tdiv,
      Int.tdiv_eq_ediv_of_nonneg (a := t * 1000000) (by positivity),
      Int.tdiv_eq_ediv_of_nonneg ht, Int.tdiv_eq_ediv_of_nonneg (by positivity)]
    omega

/-! ## Widths of time stamps -/

/-- `isMore32Bit`. -/
def isMore32Bit (pts : ℤ) : Bool := decide (0 < (pts / 2 ^ 32) % 2 ^ 32)

/-- `compareBitAndSyncPts`, of an item and the clock: the item afterwards. -/
def compareBitAndSyncPts (spu : Spu) (vPts : ℤ) : Spu :=
  if spu.pts ≤ 0 ∨ vPts ≤ 0 then
    spu
  else if isMore32Bit spu.pts ∧ ¬ isMore32Bit vPts then
    { spu with pts := spu.pts % 2 ^ 32, mDelay := spu.mDelay % 2 ^ 32 }
  else
    spu

/-- Cutting a time stamp down to 32 bits makes it smaller. -/
theorem compareBitAndSyncPts_pts_le (spu : Spu) (vPts : ℤ) :
    (compareBitAndSyncPts spu vPts).pts ≤ spu.pts := by
  unfold compareBitAndSyncPts
  split
  · exact le_rfl
  · rename_i hpos
    split
    · show spu.pts % 2 ^ 32 ≤ spu.pts
      omega
    · exact le_rfl

/-! ## Texts -/

/-- The text of a C string: its bytes up to the first zero. -/
def cText (data : List UInt8) : List UInt8 := data.takeWhile (· ≠ 0)

/-- `combineSamePtsSubtitle` where it succeeds: the first of the two items
afterwards. -/
def combineSamePtsSubtitle (spu1 spu2 : Spu) : Option Spu :=
  if spu1.isExtSub || spu1.isImmediatePresent || !spu1.isSimpleText then
    none
  else if spu2.isExtSub || spu2.isImmediatePresent || !spu2.isSimpleText then
    none
  else if spu1.pts ≠ spu2.pts then
    none
  else
    let newSize := spu1.bufferSize + 1 + spu2.bufferSize + 1
    let text := cText ((spu1.spuData.getD []).take spu1.bufferSize) ++ [10] ++
      cText ((spu2.spuData.getD []).take spu2.bufferSize)
    some { spu1 with
      spuData := some (text ++ List.replicate (newSize - text.length) 0)
      bufferSize := newSize }

/-! ## Queues of items -/

/-- `totalQueuedMemSize`. -/
def totalQueuedMemSize (list : List Spu) : ℕ := (list.map bufferSize).sum

/-- The order `cmpSpu` sorts by. -/
def PtsLe (a b : Spu) : Prop := a.pts ≤ b.pts

instance : DecidableRel PtsLe := fun a b => inferInstanceAs (Decidable (a.pts ≤ b.pts))

instance : Std.Total PtsLe := ⟨fun a b => le_total a.pts b.pts⟩

instance : IsTrans Spu PtsLe := ⟨fun _ _ _ => le_trans⟩

/-- `list.sort(cmpSpu)`; `std::list::sort` is stable, and so is insertion sort. -/
def sortPts (list : List Spu) : List Spu := list.insertionSort PtsLe

theorem sortPts_sorted (list : List Spu) : (sortPts list).Pairwise PtsLe :=
  List.pairwise_insertionSort PtsLe list

theorem sortPts_perm (list : List Spu) : (sortPts list).Perm list :=
  List.perm_insertionSort PtsLe list

end Spu
end AmlSubtitle
