import AmlSubtitle.Io.DemuxSource

/-!
# The start-code check of a read

`read_check` stops a read in front of a start code `00 00 01 BD`, so that a PES packet is
read from its beginning.  It looks for one at the places below `needRead - 4`: a start
code in the last four bytes of the read, or across the end of the read, is not seen, and
one at the beginning of the read stops it there.

* `FirstCode`: the place of the first start code behind the first byte.
* `Guards`: the read stops at that start code if it comes so far.
* `guards_iff`: the reads that do.
* `round_firstCode`: `DemuxSource::read` then returns, and goes on at the start code.
-/

namespace AmlSubtitle
namespace BufferItem

/-- A start code stands at the place `p`. -/
def CodeAt (bytes : List UInt8) (p : ℕ) : Prop := (bytes.drop p).take 4 = [0, 0, 1, 0xbd]

instance (bytes : List UInt8) (p : ℕ) : Decidable (CodeAt bytes p) :=
  inferInstanceAs (Decidable (_ = _))

/-- The first start code behind the first byte. -/
structure FirstCode (bytes : List UInt8) (p : ℕ) : Prop where
  pos : 1 ≤ p
  code : CodeAt bytes p
  first : ∀ j, 1 ≤ j → j < p → ¬ CodeAt bytes j

/-- The bytes that are asked for and there. -/
def asked (item : BufferItem) (size : ℤ) : ℤ := min size item.mRemainSize

/-- The bytes of a read do not reach into a start code behind the first of them, and the read
stops at the first one that it would have come to. -/
def Guards (item : BufferItem) (size : ℤ) : Prop :=
  ∀ bytes item' isReadItemEnd, item.readCheck size = some (bytes, item', isReadItemEnd) →
    (∀ p, 1 ≤ p → CodeAt item.rest p → bytes.length ≤ p) ∧
      ∀ p, FirstCode item.rest p → p < item.asked size →
        bytes = item.rest.take p ∧ item'.rest = item.rest.drop p ∧ isReadItemEnd = true

/-! ## Start codes -/

variable {bytes : List UInt8} {p : ℕ}

theorem CodeAt.add_four_le (h : CodeAt bytes p) : p + 4 ≤ bytes.length := by
  have hlength := congrArg List.length h
  rw [List.length_take, List.length_drop] at hlength
  simp only [List.length_cons, List.length_nil] at hlength
  omega

theorem FirstCode.le (h : FirstCode bytes p) {j : ℕ} (hpos : 1 ≤ j) (hj : CodeAt bytes j) :
    p ≤ j :=
  Nat.le_of_not_lt fun hlt => h.first j hpos hlt hj

theorem FirstCode.unique {q : ℕ} (h : FirstCode bytes p) (h' : FirstCode bytes q) : p = q :=
  le_antisymm (h.le h'.pos h'.code) (h'.le h.pos h.code)

theorem exists_firstCode (hpos : 1 ≤ p) (h : CodeAt bytes p) : ∃ q ≤ p, FirstCode bytes q := by
  have hex : ∃ q, 1 ≤ q ∧ CodeAt bytes q := ⟨p, hpos, h⟩
  obtain ⟨hq, hcode⟩ := Nat.find_spec hex
  exact ⟨Nat.find hex, Nat.find_min' hex ⟨hpos, h⟩, hq, hcode,
    fun j hj hlt hcodej => Nat.find_min hex hlt ⟨hj, hcodej⟩⟩

theorem startCode_eq_some {n i : ℕ} : startCode bytes n = some i ↔
    CodeAt bytes i ∧ i < n ∧ ∀ j < i, ¬ CodeAt bytes j := by
  simp [startCode, CodeAt, List.mem_range]

theorem startCode_eq_none {n : ℕ} : startCode bytes n = none ↔ ∀ j < n, ¬ CodeAt bytes j := by
  simp [startCode, CodeAt]

/-! ## What a read returns -/

variable {item : BufferItem} {size : ℤ}

theorem needRead_eq (item : BufferItem) (size : ℤ) : item.needRead size =
    if 4 ≤ item.asked size then
      (startCode item.rest (item.asked size - 4).toNat).elim (item.asked size, false)
        fun i => ((i : ℤ), true)
    else (item.asked size, false) := by
  have hasked : (if size > item.mRemainSize then (item.mRemainSize : ℤ) else size) =
      item.asked size := by
    unfold asked
    split_ifs <;> omega
  unfold needRead
  rw [hasked]
  dsimp only
  split_ifs
  · cases startCode item.rest (item.asked size - 4).toNat <;> rfl
  · rfl

/-- A read stops at a start code it has seen. -/
theorem readCheck_of_seen {i : ℕ} (item : BufferItem) (size : ℤ)
    (hasked : (i : ℤ) + 4 < item.asked size) (hcode : CodeAt item.rest i)
    (hfirst : ∀ j < i, ¬ CodeAt item.rest j) :
    ∃ item', item.readCheck size = some (item.rest.take i, item', true) ∧
      item'.rest = item.rest.drop i := by
  have hseen : startCode item.rest (item.asked size - 4).toNat = some i :=
    startCode_eq_some.mpr ⟨hcode, by omega, hfirst⟩
  have hneed : item.needRead size = ((i : ℤ), true) := by
    rw [needRead_eq, if_pos (by omega), hseen]
    rfl
  have hle : i ≤ item.mRemainSize := by
    have := hcode.add_four_le
    rw [length_rest] at this
    omega
  have hne : ¬ (size = 0 ∨ item.mRemainSize = 0) := by
    unfold asked at hasked
    omega
  refine ⟨item.consume i hle, ?_, rest_consume _ _ _⟩
  unfold readCheck
  rw [if_neg hne]
  simp only [hneed, Int.toNat_natCast, Nat.cast_nonneg, if_true]

/-- A read that sees none takes what is asked for and there. -/
theorem readCheck_of_unseen (hnone : ∀ j : ℕ, (j : ℤ) + 4 < item.asked size →
    ¬ CodeAt item.rest j) {bytes : List UInt8} {item' : BufferItem} {isReadItemEnd : Bool}
    (h : item.readCheck size = some (bytes, item', isReadItemEnd)) :
    bytes = item.rest.take (item.asked size).toNat := by
  have hunseen : startCode item.rest (item.asked size - 4).toNat = none :=
    startCode_eq_none.mpr fun j hj => hnone j (by omega)
  have hneed : item.needRead size = (item.asked size, false) := by
    rw [needRead_eq, hunseen]
    split_ifs <;> rfl
  unfold readCheck at h
  simp only [hneed] at h
  split_ifs at h with hzero hle
  · obtain ⟨rfl, -, -⟩ : [] = bytes ∧ item = item' ∧ false = isReadItemEnd := by simpa using h
    have hasked : (item.asked size).toNat = 0 := by
      unfold asked
      omega
    rw [hasked, List.take_zero]
  · simp only [Option.some.injEq, Prod.mk.injEq] at h
    exact h.1.symm

/-- A read for bytes that are there returns. -/
theorem exists_readCheck (item : BufferItem) (size : ℤ) (h : 0 < item.asked size) :
    ∃ result, item.readCheck size = some result := by
  have hne : ¬ (size = 0 ∨ item.mRemainSize = 0) := by
    unfold asked at h
    omega
  have hneed : 0 ≤ (item.needRead size).1 := by
    rw [needRead_eq]
    split_ifs
    · cases startCode item.rest (item.asked size - 4).toNat with
      | none => exact h.le
      | some i => exact Int.natCast_nonneg i
    · exact h.le
  unfold readCheck
  rw [if_neg hne, if_pos hneed]
  exact ⟨_, rfl⟩

theorem length_le_asked {bytes : List UInt8} {item' : BufferItem} {isReadItemEnd : Bool}
    (h : item.readCheck size = some (bytes, item', isReadItemEnd)) :
    bytes.length ≤ (item.asked size).toNat := by
  obtain ⟨happend, hsize⟩ := readCheck_spec h
  have hlength := congrArg List.length happend
  rw [List.length_append, length_rest, length_rest] at hlength
  unfold asked
  rcases hsize with hsize | hempty
  · omega
  · have hzero : item.mRemainSize = 0 := beq_iff_eq.mp hempty
    omega

theorem CodeAt.length_take (h : CodeAt bytes p) : (bytes.take p).length = p := by
  have := h.add_four_le
  rw [List.length_take]
  omega

/-- **The reads that the check guards.**  A first start code that the read would come to ends
before the last byte of it, and there is none at its beginning. -/
theorem guards_iff (item : BufferItem) (size : ℤ) : item.Guards size ↔
    ∀ p, FirstCode item.rest p → (p : ℤ) < item.asked size →
      (p : ℤ) + 4 < item.asked size ∧ ¬ CodeAt item.rest 0 := by
  constructor
  · intro h p hp hlt
    have hpos := hp.pos
    have hlength := hp.code.length_take
    obtain ⟨⟨bytes, item', isReadItemEnd⟩, hread⟩ := exists_readCheck item size (by omega)
    have hbytes : bytes = item.rest.take p := ((h _ _ _ hread).2 p hp hlt).1
    have hzero : 4 < item.asked size → ¬ CodeAt item.rest 0 := by
      intro hfour hcode
      obtain ⟨item'', hread', -⟩ := readCheck_of_seen (i := 0) item size (by omega) hcode
        fun j hj => absurd hj (Nat.not_lt_zero j)
      rw [hread', hbytes] at hread
      have hnil : item.rest.take 0 = item.rest.take p :=
        congrArg Prod.fst (Option.some.inj hread)
      rw [← hnil] at hlength
      exact absurd hlength.symm (Nat.ne_of_gt hpos)
    have hseen : (p : ℤ) + 4 < item.asked size := by
      by_contra hnot
      have hunseen := readCheck_of_unseen (fun j hj hcode => ?_) hread
      · rw [← hbytes, hunseen, List.length_take, length_rest] at hlength
        unfold asked at hlt hlength
        omega
      · rcases Nat.eq_zero_or_pos j with rfl | hj'
        · exact hzero (by omega) hcode
        · have := hp.le hj' hcode
          omega
    exact ⟨hseen, hzero (by omega)⟩
  · intro h bytes item' isReadItemEnd hread
    have hle := length_le_asked hread
    by_cases hex : ∃ p, FirstCode item.rest p ∧ (p : ℤ) < item.asked size
    · obtain ⟨p, hp, hlt⟩ := hex
      obtain ⟨hseen, hzero⟩ := h p hp hlt
      have hfirst : ∀ j < p, ¬ CodeAt item.rest j := by
        intro j hj hcode
        rcases Nat.eq_zero_or_pos j with rfl | hj'
        · exact hzero hcode
        · exact hp.first j hj' hj hcode
      obtain ⟨item'', hread', hrest⟩ := readCheck_of_seen item size hseen hp.code hfirst
      rw [hread'] at hread
      obtain ⟨rfl, rfl, rfl⟩ :
          item.rest.take p = bytes ∧ item'' = item' ∧ true = isReadItemEnd := by
        simpa using hread
      refine ⟨fun q hq hcode => ?_, fun q hq _ => ?_⟩
      · exact (List.length_take_le _ _).trans (hp.le hq hcode)
      · obtain rfl := hp.unique hq
        exact ⟨rfl, hrest, rfl⟩
    · refine ⟨fun q hq hcode => ?_, fun q hq hlt => absurd ⟨q, hq, hlt⟩ hex⟩
      obtain ⟨p, hpq, hp⟩ := exists_firstCode hq hcode
      have hpast : ¬ (p : ℤ) < item.asked size := fun hlt => hex ⟨p, hp, hlt⟩
      omega

/-- A start code behind one other byte, and nothing else. -/
def shortItem : BufferItem := .ofSection ⟨[7, 0, 0, 1, 0xbd], by decide⟩

/-- **A start code at the end of a read is read with it.** -/
theorem not_guards_shortItem : ¬ ∀ (item : BufferItem) (size : ℤ), item.Guards size := by
  intro h
  have hread : shortItem.readCheck 5 = some ([7, 0, 0, 1, 0xbd],
    shortItem.consume 5 (by decide), false) := rfl
  exact absurd ((h shortItem 5 _ _ _ hread).1 1 (le_refl 1) (by decide)) (by decide)

end BufferItem

namespace DemuxSource
namespace State

open BufferItem Words

/-- **The next read begins at the start code.**  A read whose check sees a start code returns
what is in front of it, and the item is left at the start code. -/
theorem round_firstCode {s : State} {r : Reading} {item : BufferItem} {p : ℕ}
    (hitem : s.itemLeft = some item)
    (hguards : item.Guards (asSigned 32 (r.sizeAt item - r.got.length)))
    (hp : FirstCode item.rest p)
    (hlt : p < item.asked (asSigned 32 (r.sizeAt item - r.got.length))) :
    (s.round r).reading = none ∧
      (s.round r).returned = s.returned ++ (r.got ++ item.rest.take p) ∧
      (s.round r).mCurrentItem.elim [] BufferItem.rest = item.rest.drop p := by
  obtain ⟨⟨bytes, item', isReadItemEnd⟩, hread⟩ := exists_readCheck item
    (asSigned 32 (r.sizeAt item - r.got.length)) (by omega)
  obtain ⟨rfl, hrest, rfl⟩ := (hguards _ _ _ hread).2 p hp hlt
  unfold round
  rw [hitem]
  dsimp only
  rw [hread]
  dsimp only
  rw [if_pos (Or.inr rfl)]
  exact ⟨rfl, rfl, hrest⟩

end State
end DemuxSource
end AmlSubtitle
