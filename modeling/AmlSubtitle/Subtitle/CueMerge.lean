import AmlSubtitle.Subtitle.ExtPresentation

/-!
# Texts of several cues

`getShowingSpuFromList` and `combineSamePtsSubtitle` make one item out of several text cues.
Here they have the buffers they write to: C strings, in memory whose size they compute in an
`int`.

* `TextCue` is a cue whose text ends within its buffer.
* `MergesTexts` and `CombinesTexts` say that the item has all the texts, and that nothing is
  written outside the buffer.
* `mergesCues_iff`: when that is so.  The first computes the size of its buffer from the size of
  the first cue, as often as there are cues.
* `getShowingSpuFromList_eq`: then the item is that of the presentation.
-/

namespace AmlSubtitle
namespace Presentation
namespace CueMerge

open Words Spu ExtSub

/-! ## Buffers -/

/-- A write outside a buffer, or an array of a negative size. -/
inductive Fault where
  | outside
  | badArraySize
  deriving DecidableEq, Repr

/-- `new uint8_t[n]()`, an array of zeros: its size. -/
def newArray (n : ℤ) : Except Fault ℕ := if n < 0 then .error .badArraySize else .ok n.toNat

/-- `strcat` to an array of `size` bytes that has a text and behind it zeros: the text
afterwards. -/
def strcat (size : ℕ) (text s : List UInt8) : Except Fault (List UInt8) :=
  if text.length + s.length + 1 ≤ size then .ok (text ++ s) else .error .outside

/-- `strncpy` to a new array.  It fills all `n` bytes. -/
def strncpy (size : ℕ) (s : List UInt8) (n : ℕ) : Except Fault (List UInt8) :=
  if n ≤ size then .ok (cText (s.take n)) else .error .outside

/-- `strncat`. -/
def strncat (size : ℕ) (text s : List UInt8) (n : ℕ) : Except Fault (List UInt8) :=
  strcat size text (cText (s.take n))

/-- The text of an item. -/
def text (spu : Spu) : List UInt8 := cText (spu.spuData.getD [])

/-! ## The functions -/

/-- The loop that appends the texts, each with a newline. -/
def combineLines (size : ℕ) (newText : List UInt8) : List Spu → Except Fault (List UInt8)
  | [] => .ok newText
  | s :: list => do
    let newText ← strcat size newText (text s)
    let newText ← strcat size newText [10]
    combineLines size newText list

/-- `totalSize`: the same summand for each cue. -/
def totalSize (front : Spu) (list : List Spu) : ℤ :=
  asSigned 32 (list.length * (front.bufferSize + 1))

/-- `getShowingSpuFromList`; `object` is the identity of an object that is made. -/
def getShowingSpuFromList (list : List Spu) (object : ℕ) : Except Fault (Option Spu) :=
  match list with
  | [] => .ok none
  | front :: rest =>
    if !front.isSimpleText then .ok (front :: rest).getLast?
    else if rest ≠ [] then do
      let size ← newArray (asSigned 32 (totalSize front (front :: rest) + 1))
      let newText ← combineLines size [] (front :: rest)
      let newData := newText ++ List.replicate (size - newText.length) 0
      .ok (some { front with
        id := object
        spuData := some (newData.set (totalSize front (front :: rest)).toNat 0) })
    else .ok (some front)

/-- `newSize`, of two sizes as `int`s. -/
def newSize (spu1 spu2 : Spu) : ℤ :=
  asSigned 32 (asSigned 32 spu1.bufferSize + 1 + asSigned 32 spu2.bufferSize + 1)

/-- `combineSamePtsSubtitle`: the first of the two items afterwards, if they are combined. -/
def combineSamePtsSubtitle (spu1 spu2 : Spu) : Except Fault (Option Spu) :=
  if spu1.isExtSub || spu1.isImmediatePresent || !spu1.isSimpleText then
    .ok none
  else if spu2.isExtSub || spu2.isImmediatePresent || !spu2.isSimpleText then
    .ok none
  else if spu1.pts ≠ spu2.pts then
    .ok none
  else do
    let dataLen1 := asSigned 32 spu1.bufferSize
    let dataLen2 := asSigned 32 spu2.bufferSize
    let size ← newArray (newSize spu1 spu2)
    let newText ← strncpy size (spu1.spuData.getD []) (asUnsigned 64 dataLen1)
    let newText ← strncat size newText [10] 1
    let newText ← strncat size newText (spu2.spuData.getD []) (asUnsigned 64 dataLen2)
    .ok (some { spu1 with
      spuData := some (newText ++ List.replicate (size - newText.length) 0)
      bufferSize := asUnsigned 32 (newSize spu1 spu2) })

/-! ## What they are for -/

/-- A cue with a text that ends within its buffer. -/
structure TextCue where
  spu : Spu
  isSimpleText : spu.isSimpleText = true
  terminated : (0 : UInt8) ∈ (spu.spuData.getD []).take spu.bufferSize
  size_lt : spu.bufferSize < 2 ^ 32

namespace TextCue

/-- The text of a cue. -/
def text (cue : TextCue) : List UInt8 := CueMerge.text cue.spu

end TextCue

/-- The texts of some items, each with a newline behind it. -/
def lines (list : List Spu) : List UInt8 := list.flatMap fun s => text s ++ [10]

/-- **The texts of some cues are merged**: one cue is left as it is, and each of several has a
newline behind it. -/
def MergesTexts (front : TextCue) (rest : List TextCue) (object : ℕ) : Prop :=
  ∃ spu, getShowingSpuFromList ((front :: rest).map TextCue.spu) object = .ok (some spu) ∧
    text spu = if rest = [] then front.text else lines ((front :: rest).map TextCue.spu)

/-- The two cues are for the same time, and from a stream. -/
structure Accepted (cue1 cue2 : TextCue) : Prop where
  isExtSub₁ : cue1.spu.isExtSub = false
  isExtSub₂ : cue2.spu.isExtSub = false
  isImmediatePresent₁ : cue1.spu.isImmediatePresent = false
  isImmediatePresent₂ : cue2.spu.isImmediatePresent = false
  pts : cue1.spu.pts = cue2.spu.pts

/-- **The texts of two cues are combined**, if they are accepted. -/
def CombinesTexts (cue1 cue2 : TextCue) : Prop :=
  Accepted cue1 cue2 → ∃ spu, combineSamePtsSubtitle cue1.spu cue2.spu = .ok (some spu) ∧
    text spu = cue1.text ++ [10] ++ cue2.text

/-- All texts with their newlines fit in the buffer that is made for them, and its size with the
byte behind is an `int`. -/
def ListFits (front : TextCue) (rest : List TextCue) : Prop :=
  rest = [] ∨
    ((lines ((front :: rest).map TextCue.spu)).length : ℤ) ≤
        totalSize front.spu ((front :: rest).map TextCue.spu) ∧
      totalSize front.spu ((front :: rest).map TextCue.spu) < 2 ^ 31 - 1

/-- The new buffer is as large as the first one, and large enough for both texts. -/
def PairFits (cue1 cue2 : TextCue) : Prop :=
  Accepted cue1 cue2 →
    (asUnsigned 64 (asSigned 32 cue1.spu.bufferSize) : ℤ) ≤ newSize cue1.spu cue2.spu ∧
      (cue1.text.length + 1 + cue2.text.length + 1 : ℕ) ≤ newSize cue1.spu cue2.spu

/-! ## Faults -/

theorem ok_bind {α β : Type} (a : α) (f : α → Except Fault β) : (Except.ok a >>= f) = f a := rfl

theorem error_bind {α β : Type} (fault : Fault) (f : α → Except Fault β) :
    (Except.error fault >>= f) = Except.error fault := rfl

/-! ## Texts in buffers -/

section Texts

variable {size : ℕ} {newText data : List UInt8} {list : List Spu} {front : Spu} {n k : ℕ}

theorem zero_notMem_cText (data : List UInt8) : (0 : UInt8) ∉ cText data := by
  intro h
  have hall : (cText data).all (· ≠ 0) = true := List.all_takeWhile
  exact of_decide_eq_true (List.all_eq_true.mp hall 0 h) rfl

/-- A text with zeros behind it is read back. -/
theorem cText_append_replicate (h : (0 : UInt8) ∉ newText) (k : ℕ) :
    cText (newText ++ List.replicate k 0) = newText := by
  have hall : ∀ b ∈ newText, decide (b ≠ 0) = true := fun b hb =>
    decide_eq_true fun hzero => h (hzero ▸ hb)
  rw [cText, List.takeWhile_append_of_pos hall]
  cases k with
  | zero => exact List.append_nil _
  | succ k => exact List.append_nil _

/-- A text that ends within `n` bytes is not cut there. -/
theorem cText_take (h : (0 : UInt8) ∈ data.take n) : cText (data.take n) = cText data := by
  induction data generalizing n with
  | nil => rw [List.take_nil]
  | cons b data ih =>
    cases n with
    | zero => exact absurd h List.not_mem_nil
    | succ n =>
      rw [List.take_succ_cons] at h ⊢
      by_cases hzero : b = 0
      · rw [hzero]
        rfl
      · have hrest : (0 : UInt8) ∈ data.take n :=
          (List.mem_cons.mp h).resolve_left fun heq => hzero heq.symm
        have hstep : ∀ l, cText (b :: l) = b :: cText l := fun l =>
          List.takeWhile_cons_of_pos (decide_eq_true hzero)
        rw [hstep, hstep, ih hrest]

theorem zero_notMem_lines (list : List Spu) : (0 : UInt8) ∉ lines list := by
  intro h
  obtain ⟨s, -, hs⟩ := List.mem_flatMap.mp h
  rcases List.mem_append.mp hs with htext | hnewline
  · exact zero_notMem_cText _ htext
  · exact absurd (List.mem_singleton.mp hnewline) (by decide)

theorem combineLines_of_le (h : newText.length + (lines list).length + 1 ≤ size) :
    combineLines size newText list = .ok (newText ++ lines list) := by
  induction list generalizing newText with
  | nil => rw [combineLines, lines, List.flatMap_nil, List.append_nil]
  | cons s list ih =>
    have hcons : lines (s :: list) = text s ++ [10] ++ lines list := List.flatMap_cons
    simp only [hcons, List.length_append, List.length_singleton] at h
    have hlength : (newText ++ text s).length = newText.length + (text s).length :=
      List.length_append
    have hlength' : (newText ++ text s ++ [10]).length = newText.length + (text s).length + 1 := by
      rw [List.length_append, hlength, List.length_singleton]
    rw [combineLines, strcat, if_pos (by omega), ok_bind, strcat,
      if_pos (by rw [hlength, List.length_singleton]; omega), ok_bind, ih (by omega), hcons]
    simp only [List.append_assoc]

/-- **Texts that do not fit** are written outside the buffer. -/
theorem combineLines_of_lt (hne : list ≠ []) (h : size < newText.length + (lines list).length + 1) :
    combineLines size newText list = .error .outside := by
  induction list generalizing newText with
  | nil => exact absurd rfl hne
  | cons s list ih =>
    have hcons : lines (s :: list) = text s ++ [10] ++ lines list := List.flatMap_cons
    simp only [hcons, List.length_append, List.length_singleton] at h
    rw [combineLines, strcat]
    split_ifs with htext
    swap
    · rfl
    rw [ok_bind, strcat]
    split_ifs with hnewline
    swap
    · rfl
    rw [ok_bind]
    simp only [List.length_append, List.length_singleton] at hnewline
    refine ih (fun hnil => ?_) (by simp only [List.length_append, List.length_singleton]; omega)
    rw [hnil, lines, List.flatMap_nil, List.length_nil] at h
    omega

end Texts

/-! ## The two functions -/

section Functions

variable {front : TextCue} {rest : List TextCue} {cue1 cue2 : TextCue}

theorem totalSize_lt (front : Spu) (list : List Spu) : totalSize front list < 2 ^ 31 := by
  have hlt : 2 * totalSize front list < 2 ^ 32 := asSigned_lt 31 _
  omega

/-- The size of the buffer is an `int` unless the sum of the sizes is the largest one. -/
theorem newArray_totalSize (front : Spu) (list : List Spu) :
    newArray (asSigned 32 (totalSize front list + 1)) =
      if totalSize front list = 2 ^ 31 - 1 ∨ totalSize front list < -1 then .error .badArraySize
      else .ok (totalSize front list + 1).toNat := by
  have hlt := totalSize_lt front list
  have hle : -(2 ^ 32 : ℤ) ≤ 2 * totalSize front list := le_asSigned 32 _
  rw [newArray]
  by_cases hmax : totalSize front list = 2 ^ 31 - 1
  · have hneg : asSigned 32 (totalSize front list + 1) < 0 := by
      rw [hmax]
      decide
    rw [if_pos hneg, if_pos (Or.inl hmax)]
  · have hint : asSigned 32 (totalSize front list + 1) = totalSize front list + 1 :=
      asSigned_eq (by omega) (by omega)
    rw [hint]
    split_ifs with hneg hcases hcases
    · rfl
    · omega
    · omega
    · rfl

/-- **Several cues**: the item, or what goes wrong. -/
theorem getShowingSpuFromList_several (front : TextCue) (hne : rest ≠ []) (object : ℕ) :
    (ListFits front rest → getShowingSpuFromList ((front :: rest).map TextCue.spu) object =
        .ok (some { front.spu with
          id := object
          spuData := some (lines ((front :: rest).map TextCue.spu) ++ List.replicate
            ((totalSize front.spu ((front :: rest).map TextCue.spu) + 1).toNat -
              (lines ((front :: rest).map TextCue.spu)).length) 0) })) ∧
      (¬ ListFits front rest → ∃ fault,
        getShowingSpuFromList ((front :: rest).map TextCue.spu) object = .error fault) := by
  have hmap : rest.map TextCue.spu ≠ [] := fun h => hne (List.map_eq_nil_iff.mp h)
  have htext : (!front.spu.isSimpleText) = false := by
    rw [front.isSimpleText]
    rfl
  have hlines : 0 < (lines ((front :: rest).map TextCue.spu)).length := by
    rw [List.map_cons, lines, List.flatMap_cons, List.length_append, List.length_append,
      List.length_singleton]
    omega
  have htotal := totalSize_lt front.spu ((front :: rest).map TextCue.spu)
  unfold ListFits
  rw [List.map_cons] at hlines htotal ⊢
  rw [getShowingSpuFromList, if_neg (by rw [htext]; exact Bool.false_ne_true), if_pos hmap,
    newArray_totalSize]
  generalize totalSize front.spu (front.spu :: rest.map TextCue.spu) = total at *
  constructor
  · intro hfits
    obtain ⟨hle, hlt⟩ := hfits.resolve_left hne
    rw [if_neg (by omega), ok_bind, combineLines_of_le (by rw [List.length_nil]; omega), ok_bind,
      List.nil_append]
    dsimp only
    rw [List.set_append_right _ _ (by omega), List.set_replicate_self]
  · intro hfits
    by_cases hsize : total = 2 ^ 31 - 1 ∨ total < -1
    · rw [if_pos hsize]
      exact ⟨_, error_bind _ _⟩
    · have hlong : (total + 1).toNat <
          ([] : List UInt8).length + (lines (front.spu :: rest.map TextCue.spu)).length + 1 := by
        rw [List.length_nil]
        by_contra hshort
        exact hfits (Or.inr ⟨by omega, by omega⟩)
      rw [if_neg hsize, ok_bind, combineLines_of_lt (List.cons_ne_nil _ _) hlong]
      exact ⟨_, error_bind _ _⟩

/-- **When the texts of some cues are merged.** -/
theorem mergesTexts_iff (front : TextCue) (rest : List TextCue) (object : ℕ) :
    MergesTexts front rest object ↔ ListFits front rest := by
  by_cases hne : rest = []
  · subst hne
    refine iff_of_true ⟨front.spu, ?_, ?_⟩ (Or.inl rfl)
    · rw [List.map_cons, getShowingSpuFromList, front.isSimpleText]
      rfl
    · rw [if_pos rfl]
      rfl
  obtain ⟨hok, hfault⟩ := getShowingSpuFromList_several front hne object
  constructor
  · rintro ⟨spu, hspu, -⟩
    by_contra hfits
    obtain ⟨fault, herror⟩ := hfault hfits
    cases hspu.symm.trans herror
  · intro hfits
    refine ⟨_, hok hfits, ?_⟩
    rw [if_neg hne]
    exact cText_append_replicate (zero_notMem_lines _) _

/-- A size as an `int` and then as a `size_t` is not smaller. -/
theorem le_asUnsigned_asSigned {n : ℕ} (h : n < 2 ^ 32) : n ≤ asUnsigned 64 (asSigned 32 n) := by
  by_cases hsmall : 2 * n < 2 ^ 32
  · rw [asSigned_of_lt hsmall, asUnsigned_of_lt (by omega)]
  · have hneg : asSigned 32 n = n - 2 ^ 32 := asSigned_of_le (by omega) h
    have hlarge := asUnsigned_of_neg (w := 64) (n := asSigned 32 n) (by omega) (by omega)
    omega

/-- The text of a cue is copied whole. -/
theorem cText_take_bufferSize (cue : TextCue) :
    cText ((cue.spu.spuData.getD []).take (asUnsigned 64 (asSigned 32 cue.spu.bufferSize))) =
      cue.text :=
  cText_take (List.mem_of_mem_take (i := cue.spu.bufferSize) (by
    rw [List.take_take, min_eq_left (le_asUnsigned_asSigned cue.size_lt)]
    exact cue.terminated))

/-- **When the texts of two cues are combined.** -/
theorem combinesTexts_iff (cue1 cue2 : TextCue) :
    CombinesTexts cue1 cue2 ↔ PairFits cue1 cue2 := by
  unfold CombinesTexts PairFits
  refine forall_congr' fun haccepted => ?_
  have hnewline : cText (([10] : List UInt8).take 1) = [10] := rfl
  have hlength : (cue1.text ++ [10]).length = cue1.text.length + 1 := by
    rw [List.length_append, List.length_singleton]
  have hcombine : combineSamePtsSubtitle cue1.spu cue2.spu = (do
      let size ← newArray (newSize cue1.spu cue2.spu)
      let newText ← strncpy size (cue1.spu.spuData.getD [])
        (asUnsigned 64 (asSigned 32 cue1.spu.bufferSize))
      let newText ← strncat size newText [10] 1
      let newText ← strncat size newText (cue2.spu.spuData.getD [])
        (asUnsigned 64 (asSigned 32 cue2.spu.bufferSize))
      .ok (some { cue1.spu with
        spuData := some (newText ++ List.replicate (size - newText.length) 0)
        bufferSize := asUnsigned 32 (newSize cue1.spu cue2.spu) })) := by
    have hguard₁ : ¬ (cue1.spu.isExtSub || cue1.spu.isImmediatePresent ||
        !cue1.spu.isSimpleText) = true := by
      rw [haccepted.isExtSub₁, haccepted.isImmediatePresent₁, cue1.isSimpleText]
      decide
    have hguard₂ : ¬ (cue2.spu.isExtSub || cue2.spu.isImmediatePresent ||
        !cue2.spu.isSimpleText) = true := by
      rw [haccepted.isExtSub₂, haccepted.isImmediatePresent₂, cue2.isSimpleText]
      decide
    rw [combineSamePtsSubtitle, if_neg hguard₁, if_neg hguard₂,
      if_neg (not_not.mpr haccepted.pts)]
  rw [hcombine, newArray]
  generalize newSize cue1.spu cue2.spu = total
  by_cases hneg : total < 0
  · rw [if_pos hneg]
    refine iff_of_false ?_ fun h => ?_
    · rintro ⟨spu, hspu, -⟩
      cases hspu
    · omega
  rw [if_neg hneg, ok_bind, strncpy, cText_take_bufferSize]
  by_cases hfirst : asUnsigned 64 (asSigned 32 cue1.spu.bufferSize) ≤ total.toNat
  swap
  · rw [if_neg hfirst]
    refine iff_of_false ?_ fun h => ?_
    · rintro ⟨spu, hspu, -⟩
      cases hspu
    · omega
  rw [if_pos hfirst, ok_bind, strncat, hnewline, strcat, List.length_singleton]
  by_cases hboth : cue1.text.length + 1 + cue2.text.length + 1 ≤ total.toNat
  · rw [if_pos (by omega), ok_bind, strncat, cText_take_bufferSize, strcat, hlength, if_pos hboth,
      ok_bind]
    refine iff_of_true ⟨_, rfl, ?_⟩ ⟨by omega, by omega⟩
    refine cText_append_replicate (fun hzero => ?_) _
    rcases List.mem_append.mp hzero with hleft | hright
    · rcases List.mem_append.mp hleft with htext | hten
      · exact zero_notMem_cText _ htext
      · exact absurd (List.mem_singleton.mp hten) (by decide)
    · exact zero_notMem_cText _ hright
  · refine iff_of_false ?_ fun h => hboth (by omega)
    rintro ⟨spu, hspu, -⟩
    split_ifs at hspu
    · rw [ok_bind, strncat, cText_take_bufferSize, strcat, hlength, if_neg hboth] at hspu
      cases hspu
    · cases hspu

/-- **The item of the presentation** is this one, where the sizes are small enough. -/
theorem getShowingSpuFromList_eq (hne : rest ≠ []) (object : ℕ) (hfits : ListFits front rest)
    (hsmall : ((front :: rest).map TextCue.spu).length * (front.spu.bufferSize + 1) < 2 ^ 31) :
    getShowingSpuFromList ((front :: rest).map TextCue.spu) object =
      .ok (ExtSub.getShowingSpuFromList ((front :: rest).map TextCue.spu) object) := by
  have hmap : rest.map TextCue.spu ≠ [] := fun h => hne (List.map_eq_nil_iff.mp h)
  have htotal : totalSize front.spu ((front :: rest).map TextCue.spu) =
      (((front :: rest).map TextCue.spu).length * (front.spu.bufferSize + 1) : ℕ) := by
    rw [totalSize]
    exact_mod_cast asSigned_of_lt (n := ((front :: rest).map TextCue.spu).length *
      (front.spu.bufferSize + 1)) (by omega)
  have hle := (hfits.resolve_left hne).1
  rw [(getShowingSpuFromList_several front hne object).1 hfits, htotal]
  rw [htotal] at hle
  rw [List.map_cons] at hle ⊢
  rw [ExtSub.getShowingSpuFromList, front.isSimpleText, if_neg (by decide), if_pos hmap, newCue]
  have htext : ((front.spu :: rest.map TextCue.spu).flatMap fun s =>
      cText (s.spuData.getD []) ++ [10]) = lines (front.spu :: rest.map TextCue.spu) := rfl
  dsimp only
  rw [htext, List.set_append_right _ _ (by omega), List.set_replicate_self]
  congr 4

end Functions

/-- **When the texts of cues are merged**: those of a list exactly if they fit in as much as the
first needs, as often as there are cues, and those of two cues exactly if the sum of their sizes
is large enough as an `int`. -/
theorem mergesCues_iff (front : TextCue) (rest : List TextCue) (object : ℕ)
    (cue1 cue2 : TextCue) : (MergesTexts front rest object ↔ ListFits front rest) ∧
      (CombinesTexts cue1 cue2 ↔ PairFits cue1 cue2) :=
  ⟨mergesTexts_iff front rest object, combinesTexts_iff cue1 cue2⟩

/-- A cue of a subtitle file. -/
def fileCue (data : List UInt8) : Spu :=
  ⟨0, data.length, true, 90, false, true, false, 0, 900, some data, .external⟩

/-- The text "A". -/
def shortCue : TextCue := ⟨fileCue [65, 0], rfl, by decide, by decide⟩

/-- The text "Hello". -/
def longCue : TextCue := ⟨fileCue [72, 101, 108, 108, 111, 0], rfl, by decide, by decide⟩

/-- A longer text behind a shorter one is written outside the buffer. -/
theorem not_mergesTexts_longer : ¬ MergesTexts shortCue [longCue] 0 := by
  rintro ⟨spu, hspu, -⟩
  have hfits : ¬ ListFits shortCue [longCue] := by
    rintro (hnil | ⟨hle, -⟩)
    · exact absurd hnil (List.cons_ne_nil _ _)
    · exact absurd hle (by decide +kernel)
  obtain ⟨fault, hfault⟩ :=
    (getShowingSpuFromList_several _ (List.cons_ne_nil longCue []) 0).2 hfits
  cases hspu.symm.trans hfault

end CueMerge
end Presentation
end AmlSubtitle
