import Mathlib.Data.List.GetD
import AmlSubtitle.Lib.ExchangeSort
import AmlSubtitle.Lib.Run

/-!
# `TeletextParser.cpp`: the array of subtitle pages

The numbers of the pages that turned out to carry subtitles are kept in an array of
`TELETEXT_SUBTITLE_MAX_NUMBER` cells, in increasing order and with zeros behind them.  A
new number is put into the first cell that is zero, and the cells up to there are sorted.
A look-up reads the cells up to the first that is zero or greater than the number.

* `Holds pages l`: the array begins with `l` and goes on with zeros.
* `isSubtitlePage_iff`: what a look-up finds.
* `saveSubtitlePage_holds`: recording a page adds it to `l`, unless it is there already or
  the array is full.
-/

namespace AmlSubtitle
namespace Teletext

def TELETEXT_SUBTITLE_MAX_NUMBER : ℕ := 800

/-- `isSubtitlePage`, with the cells from the current one on. -/
def isSubtitlePage : List ℤ → ℤ → Bool
  | [], _ => false
  | cell :: array, pageNumber =>
    if pageNumber = cell then true
    else if pageNumber < cell ∨ cell = 0 then false
    else isSubtitlePage array pageNumber

/-- `isRedundantSubtitlePage`. -/
def isRedundantSubtitlePage (array : List ℤ) (pageNumber : ℤ) (n : ℕ) : Bool :=
  if n = 0 then array.getD 0 0 = pageNumber else pageNumber ∈ array.take n

/-- `selectSortSubtitlePage` sorts the cells `0 .. n`. -/
def selectSortSubtitlePage (array : List ℤ) (n : ℕ) : List ℤ :=
  ExchangeSort.sort (array.take (n + 1)) ++ array.drop (n + 1)

/-- What the loop over the cells works on: the array, the cell the number was put into,
the numbers recorded, and the flag that asks for a subtitle page with the page it gets. -/
structure Recording where
  subtitlePages : List ℤ
  insertFlag : ℕ
  recorded : List ℤ
  gotoFlag : Bool
  gotoPage : Option ℤ
  deriving DecidableEq, Repr

/-- The number goes into cell `i`. -/
def Inserts (pgno : ℤ) (r : Recording) (i : ℕ) : Prop :=
  isRedundantSubtitlePage r.subtitlePages pgno i = false ∧ r.subtitlePages.getD i 0 = 0 ∧
    r.insertFlag = 0

instance (pgno : ℤ) (r : Recording) (i : ℕ) : Decidable (Inserts pgno r i) :=
  inferInstanceAs (Decidable (_ ∧ _))

/-- The first half of the body. -/
def insertAt (pgno : ℤ) (r : Recording) (i : ℕ) : Recording :=
  if Inserts pgno r i then
    { r with
      subtitlePages := r.subtitlePages.set i pgno
      insertFlag := i
      recorded := r.recorded ++ [pgno] }
  else r

/-- The second half of the body. -/
def gotoAt (r : Recording) (i : ℕ) : Recording :=
  if r.gotoFlag ∧ r.subtitlePages.getD i 0 ≠ 0 then
    { r with gotoPage := some (r.subtitlePages.getD i 0), gotoFlag := false }
  else r

/-- The body of the loop, for one cell. -/
def recordAt (pgno : ℤ) (r : Recording) (i : ℕ) : Recording := gotoAt (insertAt pgno r i) i

/-- The loop of `handler` over the cells. -/
def recordSubtitlePage (pgno : ℤ) (pages : List ℤ) (gotoFlag : Bool) : Recording :=
  (List.range TELETEXT_SUBTITLE_MAX_NUMBER).foldl (recordAt pgno) ⟨pages, 0, [], gotoFlag, none⟩

/-- The sort behind the loop. -/
def Recording.sort (r : Recording) : Recording :=
  { r with subtitlePages := selectSortSubtitlePage r.subtitlePages r.insertFlag }

@[simp] theorem Recording.sort_subtitlePages (r : Recording) :
    r.sort.subtitlePages = selectSortSubtitlePage r.subtitlePages r.insertFlag := rfl

@[simp] theorem Recording.sort_recorded (r : Recording) : r.sort.recorded = r.recorded := rfl

@[simp] theorem Recording.sort_gotoPage (r : Recording) : r.sort.gotoPage = r.gotoPage := rfl

/-- The loop and the sort behind it. -/
def saveSubtitlePage (pgno : ℤ) (pages : List ℤ) (gotoFlag : Bool) : Recording :=
  (recordSubtitlePage pgno pages gotoFlag).sort

/-! ## What the array holds -/

/-- The array holds the numbers of `l` and zeros behind them. -/
structure Holds (pages l : List ℤ) : Prop where
  pages_eq : pages = l ++ List.replicate (TELETEXT_SUBTITLE_MAX_NUMBER - l.length) 0
  length_le : l.length ≤ TELETEXT_SUBTITLE_MAX_NUMBER
  pos : ∀ p ∈ l, 0 < p

/-- The numbers are in strictly increasing order. -/
structure HoldsSorted (pages l : List ℤ) : Prop extends Holds pages l where
  sorted : l.Pairwise (· < ·)

theorem holdsSorted_nil :
    HoldsSorted (List.replicate TELETEXT_SUBTITLE_MAX_NUMBER 0) [] where
  pages_eq := rfl
  length_le := Nat.zero_le _
  pos := nofun
  sorted := List.Pairwise.nil

variable {pages l : List ℤ} {pgno : ℤ}

theorem Holds.length (h : Holds pages l) : pages.length = TELETEXT_SUBTITLE_MAX_NUMBER := by
  have hle := h.length_le
  rw [h.pages_eq, List.length_append, List.length_replicate]
  omega

theorem Holds.getD_of_lt (h : Holds pages l) {i : ℕ} (hi : i < l.length) :
    pages.getD i 0 = l[i] := by
  rw [h.pages_eq, List.getD_append _ _ _ _ hi, List.getD_eq_getElem _ _ hi]

theorem Holds.getD_of_le (h : Holds pages l) {i : ℕ} (hi : l.length ≤ i) :
    pages.getD i 0 = 0 := by
  rw [h.pages_eq, List.getD_append_right _ _ _ _ hi]
  by_cases hlt : i - l.length < TELETEXT_SUBTITLE_MAX_NUMBER - l.length
  · rw [List.getD_eq_getElem _ _ (by rwa [List.length_replicate]), List.getElem_replicate]
  · rw [List.getD_eq_default _ _ (by rw [List.length_replicate]; omega)]

/-- A cell is zero exactly behind the numbers. -/
theorem Holds.getD_eq_zero_iff (h : Holds pages l) {i : ℕ} :
    pages.getD i 0 = 0 ↔ l.length ≤ i := by
  refine ⟨fun hzero => ?_, h.getD_of_le⟩
  by_contra hlt
  rw [h.getD_of_lt (not_le.mp hlt)] at hzero
  exact (h.pos _ (List.getElem_mem _)).ne' hzero

/-! ## Look-ups -/

/-- A look-up in numbers in order, with zeros behind them. -/
theorem isSubtitlePage_append (hpos : ∀ p ∈ l, 0 < p) (hsorted : l.Pairwise (· < ·)) (m : ℕ)
    (p : ℤ) :
    isSubtitlePage (l ++ List.replicate m 0) p = true ↔ p ∈ l ∨ p = 0 ∧ l = [] ∧ 0 < m := by
  induction l with
  | nil =>
    cases m with
    | zero => simp [isSubtitlePage]
    | succ m =>
      rw [List.nil_append, List.replicate_succ, isSubtitlePage]
      by_cases hp : p = 0
      · simp [hp]
      · simp [hp]
  | cons a l ih =>
    obtain ⟨ha, hl⟩ := List.forall_mem_cons.mp hpos
    obtain ⟨hlt, hsorted⟩ := List.pairwise_cons.mp hsorted
    rw [List.cons_append, isSubtitlePage]
    by_cases hp : p = a
    · simp [hp]
    · rw [if_neg hp]
      by_cases hbelow : p < a
      · have hnot : p ∉ l := fun hmem => absurd (hlt p hmem) (not_lt.mpr hbelow.le)
        simp [hbelow, hp, hnot]
      · rw [if_neg (by omega), ih hl hsorted]
        have hzero : p ≠ 0 := by omega
        simp [hp, hzero]

/-- **A look-up finds the numbers, and zero in an array without any.** -/
theorem isSubtitlePage_iff (h : HoldsSorted pages l) (p : ℤ) :
    isSubtitlePage pages p = true ↔ p ∈ l ∨ p = 0 ∧ l = [] := by
  rw [h.pages_eq, isSubtitlePage_append h.pos h.sorted]
  refine or_congr_right (and_congr_right fun _ => and_iff_left_of_imp fun hl => ?_)
  rw [hl]
  decide

/-! ## The loop -/

theorem gotoAt_eq (r : Recording) (i : ℕ) :
    (gotoAt r i).subtitlePages = r.subtitlePages ∧ (gotoAt r i).insertFlag = r.insertFlag ∧
      (gotoAt r i).recorded = r.recorded := by
  unfold gotoAt
  split <;> exact ⟨rfl, rfl, rfl⟩

/-- A number is in the first cells of the array from the place on where it is first. -/
theorem redundant_of_mem {n i : ℕ} (h : pgno ∈ pages.take n) (hi : n ≤ i) :
    isRedundantSubtitlePage pages pgno i = true := by
  have hpos : i ≠ 0 := by
    rintro rfl
    rw [Nat.le_zero.mp hi, List.take_zero] at h
    cases h
  rw [isRedundantSubtitlePage, if_neg hpos, decide_eq_true_iff]
  exact (List.take_sublist_take_left hi).mem h

/-- The cells that do not take the number. -/
theorem foldl_recordAt_of_not (pgno : ℤ) (r : Recording) (is : List ℕ)
    (h : ∀ i ∈ is, ∀ r' : Recording, r'.subtitlePages = r.subtitlePages →
      r'.insertFlag = r.insertFlag → ¬ Inserts pgno r' i) :
    (is.foldl (recordAt pgno) r).subtitlePages = r.subtitlePages ∧
      (is.foldl (recordAt pgno) r).insertFlag = r.insertFlag ∧
      (is.foldl (recordAt pgno) r).recorded = r.recorded := by
  induction is generalizing r with
  | nil => exact ⟨rfl, rfl, rfl⟩
  | cons i is ih =>
    obtain ⟨hi, his⟩ := List.forall_mem_cons.mp h
    have hstep : recordAt pgno r i = gotoAt r i := by
      rw [recordAt, insertAt, if_neg (hi r rfl rfl)]
    obtain ⟨hpages, hflag, hrecorded⟩ := gotoAt_eq r i
    rw [List.foldl_cons, hstep]
    obtain ⟨hpages', hflag', hrecorded'⟩ := ih (gotoAt r i) (by rwa [hpages, hflag])
    exact ⟨hpages'.trans hpages, hflag'.trans hflag, hrecorded'.trans hrecorded⟩

/-- The cells before one of them, that one, and the cells behind it. -/
theorem range_split {k n : ℕ} (hk : k < n) :
    List.range n = List.range k ++ k :: List.range' (k + 1) (n - (k + 1)) := by
  obtain ⟨m, rfl⟩ := Nat.exists_eq_add_of_lt hk
  rw [List.range_eq_range', List.range_eq_range', ← List.range'_succ,
    show k + m + 1 - (k + 1) + 1 = m + 1 by omega, add_assoc]
  have happend := List.range'_append_1 (s := 0) (m := k) (n := m + 1)
  rw [Nat.zero_add] at happend
  exact happend.symm

/-- A cell that holds a number does not take another one. -/
theorem Holds.not_inserts_of_lt (h : Holds pages l) {i : ℕ} (hi : i < l.length) {r : Recording}
    (hr : r.subtitlePages = pages) : ¬ Inserts pgno r i := fun hins => by
  have hzero := hins.2.1
  rw [hr, h.getD_eq_zero_iff] at hzero
  omega

theorem not_inserts_of_mem {n i : ℕ} (h : pgno ∈ pages.take n) (hi : n ≤ i) {r : Recording}
    (hr : r.subtitlePages = pages) : ¬ Inserts pgno r i := fun hins => by
  have hredundant := hins.1
  rw [hr, redundant_of_mem h hi] at hredundant
  cases hredundant

theorem Holds.take_length (h : Holds pages l) : pages.take l.length = l := by
  rw [h.pages_eq, List.take_left]

/-- A number that is there already, or a full array: nothing is recorded. -/
theorem recordSubtitlePage_of_mem (h : Holds pages l)
    (hno : pgno ∈ l ∨ l.length = TELETEXT_SUBTITLE_MAX_NUMBER) (gotoFlag : Bool) :
    (recordSubtitlePage pgno pages gotoFlag).subtitlePages = pages ∧
      (recordSubtitlePage pgno pages gotoFlag).insertFlag = 0 ∧
      (recordSubtitlePage pgno pages gotoFlag).recorded = [] := by
  refine foldl_recordAt_of_not pgno ⟨pages, 0, [], gotoFlag, none⟩ _ fun i hi r' hr' _ => ?_
  rcases lt_or_ge i l.length with hlt | hge
  · exact h.not_inserts_of_lt hlt hr'
  · rcases hno with hmem | hfull
    · exact not_inserts_of_mem (by rwa [h.take_length]) hge hr'
    · exact absurd (List.mem_range.mp hi) (not_lt.mpr (hfull ▸ hge))

/-- The first cell that is zero takes a new number. -/
theorem Holds.inserts_length (h : Holds pages l) (hpos : 0 < pgno) (hnot : pgno ∉ l)
    {r : Recording} (hr : r.subtitlePages = pages) (hflag : r.insertFlag = 0) :
    Inserts pgno r l.length := by
  refine ⟨?_, by rw [hr, h.getD_of_le le_rfl], hflag⟩
  rw [isRedundantSubtitlePage, hr]
  by_cases hlength : l.length = 0
  · rw [if_pos hlength, h.getD_of_le (by omega), decide_eq_false_iff_not]
    exact hpos.ne
  · rw [if_neg hlength, h.take_length, decide_eq_false_iff_not]
    exact hnot

/-- The array with a number in the first cell that was zero. -/
theorem Holds.set_length (h : Holds pages l) (hpos : 0 < pgno)
    (hroom : l.length < TELETEXT_SUBTITLE_MAX_NUMBER) :
    Holds (pages.set l.length pgno) (l ++ [pgno]) := by
  have hsplit : TELETEXT_SUBTITLE_MAX_NUMBER - l.length =
      TELETEXT_SUBTITLE_MAX_NUMBER - (l ++ [pgno]).length + 1 := by
    rw [List.length_append, List.length_singleton]
    omega
  refine ⟨?_, ?_, fun p hp => ?_⟩
  · rw [h.pages_eq, hsplit, List.replicate_succ, List.set_append_right _ _ le_rfl, Nat.sub_self,
      List.set_cons_zero, List.append_assoc, List.singleton_append]
  · rw [List.length_append, List.length_singleton]
    omega
  · rcases List.mem_append.mp hp with hp | hp
    · exact h.pos p hp
    · rwa [List.mem_singleton.mp hp]

/-- **A new number is recorded once**, in the first cell that is zero. -/
theorem recordSubtitlePage_of_not_mem (h : Holds pages l) (hpos : 0 < pgno) (hnot : pgno ∉ l)
    (hroom : l.length < TELETEXT_SUBTITLE_MAX_NUMBER) (gotoFlag : Bool) :
    (recordSubtitlePage pgno pages gotoFlag).subtitlePages = pages.set l.length pgno ∧
      (recordSubtitlePage pgno pages gotoFlag).insertFlag = l.length ∧
      (recordSubtitlePage pgno pages gotoFlag).recorded = [pgno] := by
  rw [recordSubtitlePage, range_split hroom, List.foldl_append, List.foldl_cons]
  obtain ⟨hpages, hflag, hrecorded⟩ := foldl_recordAt_of_not pgno ⟨pages, 0, [], gotoFlag, none⟩
    (List.range l.length) fun i hi r' hr' _ => h.not_inserts_of_lt (List.mem_range.mp hi) hr'
  generalize (List.range l.length).foldl (recordAt pgno) ⟨pages, 0, [], gotoFlag, none⟩ = r
    at hpages hflag hrecorded ⊢
  have hins := h.inserts_length hpos hnot hpages hflag
  obtain ⟨hpages', hflag', hrecorded'⟩ := gotoAt_eq (insertAt pgno r l.length) l.length
  rw [← recordAt, insertAt, if_pos hins] at hpages' hflag' hrecorded'
  dsimp only at hpages' hflag' hrecorded'
  rw [hpages] at hpages'
  rw [hrecorded] at hrecorded'
  have hmem : pgno ∈ (pages.set l.length pgno).take (l.length + 1) := by
    have hset := h.set_length hpos hroom
    rw [show l.length + 1 = (l ++ [pgno]).length by rw [List.length_append]; rfl, hset.take_length]
    exact List.mem_append_right _ List.mem_cons_self
  obtain ⟨hpages'', hflag'', hrecorded''⟩ := foldl_recordAt_of_not pgno
    (recordAt pgno r l.length) (List.range' (l.length + 1) _) fun i hi r' hr' _ =>
      not_inserts_of_mem hmem (List.mem_range'_1.mp hi).1 (hr'.trans hpages')
  exact ⟨hpages''.trans hpages', hflag''.trans hflag', hrecorded''.trans hrecorded'⟩

/-! ## Recording a page -/

/-- Sorting the first cell does nothing. -/
theorem selectSortSubtitlePage_zero (h : Holds pages l) :
    selectSortSubtitlePage pages 0 = pages := by
  have hlength := h.length
  cases pages with
  | nil => cases hlength
  | cons p pages =>
    rw [selectSortSubtitlePage, Nat.zero_add, List.take_succ_cons, List.take_zero,
      ExchangeSort.sort_singleton, List.drop_succ_cons, List.drop_zero, List.singleton_append]

/-- **Recording a page**: a new number joins the others, in its place. -/
theorem saveSubtitlePage_holds (h : HoldsSorted pages l) (hpos : 0 < pgno) (gotoFlag : Bool) :
    ∃ l', HoldsSorted (saveSubtitlePage pgno pages gotoFlag).subtitlePages l' ∧
      l'.Perm (l ++ (saveSubtitlePage pgno pages gotoFlag).recorded) ∧
      (pgno ∈ l' ∨ l.length = TELETEXT_SUBTITLE_MAX_NUMBER) := by
  rw [saveSubtitlePage, Recording.sort_subtitlePages, Recording.sort_recorded]
  by_cases hno : pgno ∈ l ∨ l.length = TELETEXT_SUBTITLE_MAX_NUMBER
  · obtain ⟨hpages, hflag, hrecorded⟩ := recordSubtitlePage_of_mem h.toHolds hno gotoFlag
    rw [hpages, hflag, hrecorded, selectSortSubtitlePage_zero h.toHolds, List.append_nil]
    exact ⟨l, h, List.Perm.refl _, hno⟩
  · obtain ⟨hnot, hfull⟩ := not_or.mp hno
    have hroom := lt_of_le_of_ne h.length_le hfull
    obtain ⟨hpages, hflag, hrecorded⟩ :=
      recordSubtitlePage_of_not_mem h.toHolds hpos hnot hroom gotoFlag
    rw [hpages, hflag, hrecorded]
    have hset := h.set_length hpos hroom
    have hperm := ExchangeSort.sort_perm (l ++ [pgno])
    have hlength : l.length + 1 = (l ++ [pgno]).length := by rw [List.length_append]; rfl
    refine ⟨ExchangeSort.sort (l ++ [pgno]), ⟨⟨?_, ?_, fun p hp => ?_⟩, ?_⟩, hperm,
      Or.inl (hperm.mem_iff.mpr (List.mem_append_right _ List.mem_cons_self))⟩
    · rw [selectSortSubtitlePage, hlength, hset.take_length, hperm.length_eq]
      conv_lhs => rw [hset.pages_eq, List.drop_left]
    · rw [hperm.length_eq]
      exact hset.length_le
    · exact hset.pos p (hperm.mem_iff.mp hp)
    · refine ExchangeSort.sort_pairwise_lt (List.nodup_append.mpr ⟨?_, List.nodup_singleton _, ?_⟩)
      · exact h.sorted.imp ne_of_lt
      · intro a ha b hb
        rw [List.mem_singleton.mp hb]
        exact fun heq => hnot (heq ▸ ha)

/-! ## The page a flag asks for -/

/-- A cell that is not zero survives the insertion in another one. -/
theorem mem_set_of_ne {i : ℕ} {p : ℤ} (hzero : pages.getD i 0 = 0) (hp : p ∈ pages)
    (hne : p ≠ 0) : p ∈ pages.set i pgno := by
  obtain ⟨j, hj, rfl⟩ := List.mem_iff_getElem.mp hp
  have hij : i ≠ j := by
    rintro rfl
    rw [List.getD_eq_getElem _ _ hj] at hzero
    exact hne hzero
  rw [← List.getElem_set_ne hij (a := pgno) (by rwa [List.length_set])]
  exact List.getElem_mem _

theorem mem_of_getD_ne_zero {i : ℕ} (h : pages.getD i 0 ≠ 0) : pages.getD i 0 ∈ pages := by
  by_cases hi : i < pages.length
  · rw [List.getD_eq_getElem _ _ hi]
    exact List.getElem_mem _
  · exact absurd (List.getD_eq_default _ _ (not_lt.mp hi)) h

theorem recordAt_gotoPage (pgno : ℤ) (r : Recording) (i : ℕ)
    (h : ∀ p ∈ r.gotoPage, p ∈ r.subtitlePages ∧ p ≠ 0) :
    ∀ p ∈ (recordAt pgno r i).gotoPage, p ∈ (recordAt pgno r i).subtitlePages ∧ p ≠ 0 := by
  have hinsert : ∀ p ∈ (insertAt pgno r i).gotoPage,
      p ∈ (insertAt pgno r i).subtitlePages ∧ p ≠ 0 := by
    unfold insertAt
    split
    · rename_i hins
      intro p hp
      exact ⟨mem_set_of_ne hins.2.1 (h p hp).1 (h p hp).2, (h p hp).2⟩
    · exact h
  unfold recordAt gotoAt
  split
  · rename_i hgoto
    intro p hp
    rw [← Option.some_inj.mp hp]
    exact ⟨mem_of_getD_ne_zero hgoto.2, hgoto.2⟩
  · exact hinsert

theorem selectSortSubtitlePage_perm (array : List ℤ) (n : ℕ) :
    (selectSortSubtitlePage array n).Perm array := by
  have hperm := (ExchangeSort.sort_perm (array.take (n + 1))).append_right (array.drop (n + 1))
  rwa [List.take_append_drop] at hperm

/-- **The page that the flag gets is one of the array.** -/
theorem saveSubtitlePage_gotoPage (pgno : ℤ) (pages : List ℤ) (gotoFlag : Bool) :
    ∀ p ∈ (saveSubtitlePage pgno pages gotoFlag).gotoPage,
      p ∈ (saveSubtitlePage pgno pages gotoFlag).subtitlePages ∧ p ≠ 0 := by
  intro p hp
  rw [saveSubtitlePage, Recording.sort_gotoPage] at hp
  rw [saveSubtitlePage, Recording.sort_subtitlePages,
    (selectSortSubtitlePage_perm _ _).mem_iff]
  exact Run.invariant (I := fun r : Recording => ∀ p ∈ r.gotoPage, p ∈ r.subtitlePages ∧ p ≠ 0)
    (recordAt_gotoPage pgno) (fun _ hnone => by cases hnone) _ p hp

/-- A cell that is not zero holds a number. -/
theorem Holds.mem_of_ne_zero (h : Holds pages l) {p : ℤ} (hp : p ∈ pages) (hne : p ≠ 0) :
    p ∈ l := by
  rw [h.pages_eq] at hp
  refine (List.mem_append.mp hp).resolve_right fun hzero => hne (List.eq_of_mem_replicate hzero)

end Teletext
end AmlSubtitle
