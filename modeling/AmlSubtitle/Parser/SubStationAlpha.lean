import AmlSubtitle.Parser.AssParser
import AmlSubtitle.Parser.TextSubtitle

/-!
# `parser/ExtParser/SubStationAlpha.cpp`: the decoder of SSA and ASS files

`decodedItem` reads lines up to one that has nine commas and two times.  The loops over the
text of such a line are those of `AssParser`.
-/

namespace AmlSubtitle
namespace SubStationAlpha

open Words Lines AssParser ExtSubStreamReader TextSubtitle

/-! ## The decoder -/

/-- A time in hundredths of a second, in a `uint32_t`. -/
def centiseconds : ℤ × ℤ × ℤ × ℤ → ℕ
  | (hour, min, sec, ms) => asUnsigned 32 ((hour * 60 * 60 + min * 60 + sec) * 100 + ms)

/-- The body of the loop of `decodedItem`: the item of a line, unless it goes on. -/
def decodeLine (line : List UInt8) : Option ExtSubItem :=
  let (items, ss, str) := readItems (eventSections true) (Stream.ofString line) []
  if items.length < eventSections true then none
  else
    let str := rewriteText (ss.getline 10 str).2.2
    match scanTime (items.getD 1 []), scanTime (items.getD 2 []) with
    | some start, some stop => some ⟨centiseconds start, centiseconds stop, [str]⟩
    | _, _ => none

/-- The loop of `decodedItem`. -/
def findItem : ℕ → Decoder
  | 0, r, _ => (none, r)
  | fuel + 1, r, line =>
    match getLine r line with
    | (none, r) => (none, r)
    | (some line, r) =>
      match decodeLine line.string with
      | none => findItem fuel r line
      | some item => (some item, r)

/-- `decodedItem`. -/
def decodedItem : Decoder := fun r line => findItem ((toRead r).length + 1) r line

/-! ## Progress -/

/-- An item takes at least one byte. -/
theorem length_findItem_lt : ∀ (fuel : ℕ) (r : Reader) (s : Memory) (item : ExtSubItem)
    (r' : Reader), findItem fuel r s = (some item, r') →
      (toRead r').length < (toRead r).length := by
  intro fuel
  induction fuel with
  | zero => exact fun _ _ _ _ h => absurd (congrArg Prod.fst h).symm (Option.some_ne_none _)
  | succ fuel ih =>
    intro r s item r' h
    rw [findItem] at h
    split at h
    · exact absurd (congrArg Prod.fst h).symm (Option.some_ne_none _)
    · next line r1 hget =>
      have hlt := length_toRead_lt hget
      split at h
      · exact (ih r1 line item r' h).trans hlt
      · rw [← show r1 = r' from congrArg Prod.snd h]
        exact hlt

/-- The hunt for an event ends by itself. -/
theorem findItem_succ : ∀ (fuel : ℕ) (r : Reader) (s : Memory), (toRead r).length < fuel →
    findItem (fuel + 1) r s = findItem fuel r s := by
  intro fuel
  induction fuel with
  | zero => exact fun _ _ h => absurd h (Nat.not_lt_zero _)
  | succ fuel ih =>
    intro r s h
    rw [findItem]
    conv_rhs => rw [findItem]
    split
    · rfl
    · next line r1 hget =>
      have hlt := length_toRead_lt hget
      split
      · exact ih r1 line (by omega)
      · rfl

theorem progresses_decodedItem : Progresses decodedItem := fun r s item r' h =>
  length_findItem_lt _ r s item r' h

/-- More fuel than there are bytes left changes none of the items. -/
theorem decodeItems_of_lt {fuel : ℕ} {r : Reader} (h : (toRead r).length < fuel)
    (stack : ℕ → Memory) :
    decodeItems decodedItem fuel r stack = decodeSubtitles decodedItem r stack :=
  decodeItems_eq progresses_decodedItem fuel r stack h

/-- An item of the line that `getLine` gives. -/
theorem decodedItem_of_getLine {r r' : Reader} {s m : Memory} {item : ExtSubItem}
    (hget : getLine r s = (some m, r')) (hitem : decodeLine m.string = some item) :
    decodedItem r s = (some item, r') := by
  rw [decodedItem, findItem, hget]
  dsimp only
  rw [hitem]

end SubStationAlpha
end AmlSubtitle
