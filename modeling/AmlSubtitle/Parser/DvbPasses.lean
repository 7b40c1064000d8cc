import AmlSubtitle.Parser.DvbParser

/-!
# The two passes of `decodeSubtitle`

`decodeSubtitle` goes over a packet twice: the first pass only looks for a segment that is
cut off, the second decodes.

* `checkVisits`, `decodeVisits`: what each of them visits.
* `decodeSubtitle_passes`: a packet with a segment that is cut off changes nothing.  In every
  other the second pass finds no segment cut off, and visits what the first has visited, up to
  the first object segment that is refused.
-/

namespace AmlSubtitle
namespace Dvb

/-- The type and the bytes of a segment. -/
abbrev Visit := ℕ × List UInt8

/-- The segment whose sync byte is at `p`. -/
def visitAt (pSrc : Source) (p : ℕ) : Visit :=
  ((segmentAt pSrc p).segmentType, sourceBytes pSrc (p + 6) (segmentAt pSrc p).segmentLength)

/-- The segments that the first pass goes over, of at most `fuel` segments. -/
def checkVisits (pSrc : Source) (size : ℕ) : ℕ → ℕ → List Visit
  | 0, _ => []
  | fuel + 1, p =>
    if p + 6 ≤ size ∧ pSrc p = 0x0f then
      if size < p + 6 + (segmentAt pSrc p).segmentLength then
        []
      else
        visitAt pSrc p :: checkVisits pSrc size fuel (p + 6 + (segmentAt pSrc p).segmentLength)
    else
      []

/-- How the second pass ends. -/
inductive PassEnd where
  /-- No segment is left. -/
  | done
  /-- A segment is cut off. -/
  | cutOff
  /-- A segment has been refused. -/
  | refused
  deriving DecidableEq, Repr

/-- The segments that the second pass goes over, of at most `fuel` segments, and how it ends. -/
def decodeVisits (pSrc : Source) (size : ℕ) :
    ℕ → ℕ → DVBSubContext → DvbSpu → List Visit × PassEnd
  | 0, _, _, _ => ([], .done)
  | fuel + 1, p, ctx, spu =>
    if p + 6 ≤ size ∧ pSrc p = 0x0f then
      let segment := segmentAt pSrc p
      if size < p + 6 + segment.segmentLength then
        ([], .cutOff)
      else
        let result := decodeSegment ctx spu segment
        if result.ret = -1 then
          ([visitAt pSrc p], .refused)
        else
          let rest := decodeVisits pSrc size fuel (p + 6 + segment.segmentLength) result.ctx
            result.spu
          (visitAt pSrc p :: rest.1, rest.2)
    else
      ([], .done)

theorem ret_saveResult2Spu (ctx : DVBSubContext) (spu : DvbSpu) :
    (saveResult2Spu ctx spu).ret = 1 := by
  unfold saveResult2Spu
  dsimp only
  split
  · rfl
  · split_ifs <;> rfl

/-- Only object segments are refused. -/
theorem segmentType_of_refused {ctx : DVBSubContext} {spu : DvbSpu} {segment : Segment}
    (h : (decodeSegment ctx spu segment).ret = -1) :
    segment.segmentType = DVBSUB_OBJECT_SEGMENT := by
  by_contra hobject
  have hend : ∀ ctx, (displayEndSegment ctx spu).ret = 1 := fun ctx => ret_saveResult2Spu _ _
  unfold decodeSegment at h
  dsimp only at h
  rw [if_neg hobject] at h
  split_ifs at h
  all_goals simp [hend] at h

section Passes

variable {pSrc : Source} {size fuel p : ℕ} {ctx : DVBSubContext} {spu : DvbSpu}

/-- More passes than bytes change nothing. -/
theorem checkVisits_add_fuel (k : ℕ) (hfuel : size ≤ p + fuel) :
    checkVisits pSrc size (fuel + k) p = checkVisits pSrc size fuel p := by
  induction fuel generalizing p with
  | zero =>
    cases k with
    | zero => rfl
    | succ k => rw [Nat.zero_add, checkVisits, checkVisits, if_neg (by omega)]
  | succ fuel ih =>
    rw [Nat.succ_add, checkVisits, checkVisits, ih (by omega)]

theorem decodeVisits_add_fuel (k : ℕ) (hfuel : size ≤ p + fuel) :
    decodeVisits pSrc size (fuel + k) p ctx spu = decodeVisits pSrc size fuel p ctx spu := by
  induction fuel generalizing p ctx spu with
  | zero =>
    cases k with
    | zero => rfl
    | succ k => rw [Nat.zero_add, decodeVisits, decodeVisits, if_neg (by omega)]
  | succ fuel ih =>
    rw [Nat.succ_add, decodeVisits, decodeVisits]
    dsimp only
    rw [ih (by omega)]

/-- The second pass fails exactly where a segment is cut off or refused. -/
theorem ret_decodeSegments : (decodeSegments pSrc size fuel p ctx spu).ret = -1 ↔
    (decodeVisits pSrc size fuel p ctx spu).2 ≠ .done := by
  induction fuel generalizing p ctx spu with
  | zero =>
    rw [decodeSegments, decodeVisits]
    simp
  | succ fuel ih =>
    rw [decodeSegments, decodeVisits]
    dsimp only
    split_ifs with hmore hcut hret
    · simp
    · simp [hret]
    · exact ih
    · simp

/-- **Step by step.**  Where the first pass finds nothing cut off, so does the second, and what
it visits is the beginning of what the first visits: all of it, or up to an object segment that
is refused. -/
theorem decodeVisits_of_check (h : checkSegments pSrc size fuel p = true) :
    (decodeVisits pSrc size fuel p ctx spu).2 = .done ∧
        (decodeVisits pSrc size fuel p ctx spu).1 = checkVisits pSrc size fuel p ∨
      (decodeVisits pSrc size fuel p ctx spu).2 = .refused ∧
        ∃ before visit after, checkVisits pSrc size fuel p = before ++ visit :: after ∧
          (decodeVisits pSrc size fuel p ctx spu).1 = before ++ [visit] ∧
          visit.1 = DVBSUB_OBJECT_SEGMENT := by
  induction fuel generalizing p ctx spu with
  | zero => exact Or.inl ⟨rfl, rfl⟩
  | succ fuel ih =>
    rw [checkSegments] at h
    rw [decodeVisits, checkVisits]
    dsimp only
    by_cases hmore : p + 6 ≤ size ∧ pSrc p = 0x0f
    · rw [if_pos hmore] at h
      rw [if_pos hmore, if_pos hmore]
      by_cases hcut : size < p + 6 + (segmentAt pSrc p).segmentLength
      · rw [if_pos hcut] at h
        cases h
      · rw [if_neg hcut] at h
        rw [if_neg hcut, if_neg hcut]
        by_cases hret : (decodeSegment ctx spu (segmentAt pSrc p)).ret = -1
        · rw [if_pos hret]
          refine Or.inr ⟨rfl, [], visitAt pSrc p, _, rfl, rfl, ?_⟩
          exact segmentType_of_refused hret
        · rw [if_neg hret]
          rcases @ih _ (decodeSegment ctx spu (segmentAt pSrc p)).ctx
            (decodeSegment ctx spu (segmentAt pSrc p)).spu h with
            ⟨hend, hvisits⟩ | ⟨hend, before, visit, after, hcheck, hvisits, htype⟩
          · exact Or.inl ⟨hend, by rw [hvisits]⟩
          · refine Or.inr ⟨hend, visitAt pSrc p :: before, visit, after, ?_, ?_, htype⟩
            · rw [hcheck, List.cons_append]
            · rw [hvisits, List.cons_append]
    · rw [if_neg hmore, if_neg hmore]
      exact Or.inl ⟨rfl, rfl⟩

end Passes

/-! ## Packets -/

/-- The item as `decodeSubtitle` starts it. -/
def startSpu (spu : DvbSpu) : DvbSpu :=
  { spu with
    spuWidth := 0
    spuHeight := 0
    spuStartX := 0
    spuStartY := 0
    spuOriginDisplayW := 720
    spuOriginDisplayH := 576 }

/-- The segments that the first pass over a packet visits. -/
def firstVisits (pSrc : Source) (size : ℕ) : List Visit := checkVisits pSrc size size 0

/-- The segments that the second pass over a packet visits, and how it ends. -/
def secondVisits (ctx : DVBSubContext) (spu : DvbSpu) (pSrc : Source) (size : ℕ) :
    List Visit × PassEnd :=
  decodeVisits pSrc size size 0 ctx (startSpu spu)

/-- Both passes visit the same segments, and a packet with a segment cut off changes nothing. -/
structure SamePasses (ctx : DVBSubContext) (spu : DvbSpu) (pSrc : Source) (size : ℕ) : Prop where
  kept : checkSegments pSrc size size 0 = false → (decodeSubtitle ctx spu pSrc size).ctx = ctx
  whole : checkSegments pSrc size size 0 = true → (secondVisits ctx spu pSrc size).2 ≠ .cutOff
  same : checkSegments pSrc size size 0 = true →
    (secondVisits ctx spu pSrc size).1 = firstVisits pSrc size

/-- The same, but for object segments that are refused: the second pass ends behind one. -/
structure PassesAgree (ctx : DVBSubContext) (spu : DvbSpu) (pSrc : Source) (size : ℕ) :
    Prop where
  /-- A packet that is too short, without a sync byte or with a segment cut off. -/
  kept : (size ≤ 6 ∨ pSrc 0 ≠ 0x0f) ∨ checkSegments pSrc size size 0 = false →
    (decodeSubtitle ctx spu pSrc size).ctx = ctx ∧ (decodeSubtitle ctx spu pSrc size).ret = -1
  whole : checkSegments pSrc size size 0 = true → (secondVisits ctx spu pSrc size).2 ≠ .cutOff
  same : checkSegments pSrc size size 0 = true → (secondVisits ctx spu pSrc size).2 ≠ .refused →
    (secondVisits ctx spu pSrc size).1 = firstVisits pSrc size
  refused : checkSegments pSrc size size 0 = true →
    (secondVisits ctx spu pSrc size).2 = .refused →
      ∃ before visit after, firstVisits pSrc size = before ++ visit :: after ∧
        (secondVisits ctx spu pSrc size).1 = before ++ [visit] ∧
        visit.1 = DVBSUB_OBJECT_SEGMENT
  /-- The function then returns -1, and only then. -/
  ret : 6 < size → pSrc 0 = 0x0f → checkSegments pSrc size size 0 = true →
    ((decodeSubtitle ctx spu pSrc size).ret = -1 ↔
      (secondVisits ctx spu pSrc size).2 = .refused)

/-- **The two passes agree**, on every packet and in every context. -/
theorem decodeSubtitle_passes (ctx : DVBSubContext) (spu : DvbSpu) (pSrc : Source) (size : ℕ) :
    PassesAgree ctx spu pSrc size where
  kept h := by
    unfold decodeSubtitle
    by_cases hstart : size ≤ 6 ∨ pSrc 0 ≠ 0x0f
    · rw [if_pos hstart]
      exact ⟨rfl, rfl⟩
    · rw [if_neg hstart, h.resolve_left hstart]
      exact ⟨rfl, rfl⟩
  whole h := by
    have hvisits := @decodeVisits_of_check _ _ _ _ ctx (startSpu spu) h
    rcases hvisits with ⟨hend, -⟩ | ⟨hend, -⟩
    all_goals
      rw [secondVisits, hend]
      decide
  same h hnot :=
    match @decodeVisits_of_check _ _ _ _ ctx (startSpu spu) h with
    | Or.inl ⟨_, hvisits⟩ => hvisits
    | Or.inr ⟨hend, _⟩ => absurd hend hnot
  refused h hrefused :=
    match @decodeVisits_of_check _ _ _ _ ctx (startSpu spu) h with
    | Or.inl ⟨hend, _⟩ => absurd (hend.symm.trans hrefused) (by decide)
    | Or.inr ⟨_, hvisits⟩ => hvisits
  ret hsize hsync h := by
    have hstart : ¬ (size ≤ 6 ∨ pSrc 0 ≠ 0x0f) := by
      rintro (hle | hne)
      · omega
      · exact hne hsync
    have hsecond : decodeSubtitle ctx spu pSrc size =
        decodeSegments pSrc size size 0 ctx (startSpu spu) := by
      unfold decodeSubtitle
      rw [if_neg hstart, if_pos h]
      rfl
    rw [hsecond, ret_decodeSegments]
    show (secondVisits ctx spu pSrc size).2 ≠ .done ↔ _
    rcases @decodeVisits_of_check _ _ _ _ ctx (startSpu spu) h with
      ⟨hend, -⟩ | ⟨hend, -⟩
    · rw [secondVisits, hend]
      decide
    · rw [secondVisits, hend]
      decide

/-- A region that shows object 7, the object with a coding method that there is not, and the end
of the display set. -/
def unknownCoding : List UInt8 :=
  [0x0f, 0x11, 0, 1, 0, 16, 1, 8, 0, 4, 0, 2, 0x0c, 0, 0x11, 0, 0, 7, 0, 1, 0, 0] ++
    [0x0f, 0x13, 0, 1, 0, 7, 0, 7, 0x04, 0, 0, 0, 0] ++ [0x0f, 0x80, 0, 1, 0, 0]

/-- The second pass does not come to the end of the display set. -/
theorem not_samePasses_unknownCoding : ¬ ∀ (ctx : DVBSubContext) (spu : DvbSpu) (pSrc : Source)
    (size : ℕ), SamePasses ctx spu pSrc size := by
  intro h
  have hsame := (h init {} (sourceOf unknownCoding) unknownCoding.length).same (by decide +kernel)
  exact absurd (congrArg List.length hsame) (by decide +kernel)

end Dvb
end AmlSubtitle
