import AmlSubtitle.Parser.AssAgreement
import AmlSubtitle.Parser.ExtSubDelivery
import Mathlib.Data.List.ReduceOption

/-!
# SSA and ASS files

The items that `SubStationAlpha` makes of the lines of a file.

* `Accounts line part`: what a line should give.  An event gives its item, and a line that is no
  `Dialogue:` line gives none; nothing is said about any other line.
* `takesFirst_decodedItem`: each line is decoded on its own, in their order.
* `decodes_iff`: the file gives what it should if no line other than the events has nine sections
  with times in the second and the third, and the times of the events have room in 32 bits.
-/

namespace AmlSubtitle
namespace AssFile

open Words Scanf Lines Rewrite AssParser AssAgreement ExtSubStreamReader TextSubtitle
  SubStationAlpha

/-- The line of a `Dialogue:` event. -/
structure Dialogue extends Sections where
  no_comma : ∀ field ∈ [layer, style, name, marginL, marginR, marginV, effect], 44 ∉ field
  no_newline : 10 ∉ toSections.line

/-- The item of the event: its times in hundredths of a second, and what is shown of its text. -/
def Dialogue.item (e : Dialogue) : ExtSubItem :=
  ⟨e.start.centis, e.stop.centis, [displayText e.text]⟩

/-- What a line should give. -/
structure Accounts (line : List UInt8) (part : Option ExtSubItem) : Prop where
  event : ∀ e : Dialogue, e.line = line → part = some e.item
  other : isDialogue line = false → part = none
  unspecified : isDialogue line = true → (∀ e : Dialogue, e.line ≠ line) → part = decodeLine line

/-- The file gives what its lines should. -/
def Decodes (r : Reader) (lines : List (List UInt8)) : Prop :=
  ∀ stack, ∃ parts, List.Forall₂ Accounts lines parts ∧
    decodeSubtitles decodedItem r stack = parts.reduceOption.map finishItem

/-- A line with nine sections, and times in the second and the third of them. -/
def HasTimes (line : List UInt8) : Prop :=
  let items := (readItems (eventSections true) (Stream.ofString line) []).1
  items.length = eventSections true ∧ (scanTime (items.getD 1 [])).isSome ∧
    (scanTime (items.getD 2 [])).isSome

instance (line : List UInt8) : Decidable (HasTimes line) :=
  inferInstanceAs (Decidable (_ ∧ _ ∧ _))

/-- The times of an event have room in 32 bits, and no other line has times. -/
structure LineOk (line : List UInt8) : Prop where
  event : ∀ e : Dialogue, e.line = line → e.start.centis < 2 ^ 32 ∧ e.stop.centis < 2 ^ 32
  other : isDialogue line = false → ¬ HasTimes line

/-! ## One line -/

theorem readItems_length_le (n : ℕ) (ss : Stream) (str : List UInt8) :
    (readItems n ss str).1.length ≤ n := by
  induction n generalizing ss str with
  | zero => exact le_rfl
  | succ n ih =>
    rw [readItems]
    split
    · exact Nat.succ_le_succ (ih _ _)
    · exact Nat.zero_le _

theorem decodeLine_isSome_iff (line : List UInt8) :
    (decodeLine line).isSome ↔ HasTimes line := by
  have hle := readItems_length_le (eventSections true) (Stream.ofString line) []
  unfold decodeLine HasTimes
  generalize readItems (eventSections true) (Stream.ofString line) [] = read at hle
  obtain ⟨items, ss, str⟩ := read
  dsimp only at hle ⊢
  split_ifs with hshort
  · exact iff_of_false Bool.false_ne_true fun h => absurd h.1 hshort.ne
  · rw [and_iff_right (le_antisymm hle (not_lt.mp hshort))]
    cases scanTime (items.getD 1 []) with
    | none => exact iff_of_false Bool.false_ne_true fun h => Bool.false_ne_true h.1
    | some start =>
      cases scanTime (items.getD 2 []) with
      | none => exact iff_of_false Bool.false_ne_true fun h => Bool.false_ne_true h.2
      | some stop => exact iff_of_true rfl ⟨rfl, rfl⟩

theorem decimal_hundredths_lt (t : Time) : decimal t.hundredths < 100 := by
  obtain ⟨c, d, hdigits⟩ := List.length_eq_two.mp t.length_hundredths
  have hmem : ∀ c ∈ t.hundredths, c.toNat ≤ 57 := fun c hc =>
    (toNat_of_isDigit (t.isDigits c (List.mem_append_right _ hc))).2
  rw [hdigits] at hmem ⊢
  have hc := hmem c List.mem_cons_self
  have hd := hmem d (List.mem_cons_of_mem c List.mem_cons_self)
  have hvalue : decimal [c, d] = 10 * (10 * 0 + (c.toNat - 48)) + (d.toNat - 48) := rfl
  omega

/-- A time is that of its digits exactly if it has room in 32 bits. -/
theorem centiseconds_values_iff (t : Time) :
    centiseconds t.values = t.centis ↔ t.centis < 2 ^ 32 := by
  constructor
  · intro h
    rw [← h, centiseconds.eq_def]
    dsimp only
    rw [asUnsigned]
    have hlt := Int.emod_lt_of_pos ((t.values.1 * 60 * 60 + t.values.2.1 * 60 + t.values.2.2.1) *
      100 + t.values.2.2.2) (b := 2 ^ 32) (by decide)
    omega
  · intro h
    have hlast := decimal_hundredths_lt t
    rw [Time.centis] at h ⊢
    rw [Time.values, toInt_natCast (by omega), toInt_natCast (by omega), toInt_natCast (by omega),
      toInt_natCast (by omega), centiseconds, asUnsigned,
      Int.emod_eq_of_lt (by omega) (by omega)]
    omega

namespace Dialogue

variable (e : Dialogue)

/-- What the decoder makes of the line of an event. -/
theorem decodeLine_line : decodeLine e.line =
    some ⟨centiseconds e.start.values, centiseconds e.stop.values, [displayText e.text]⟩ :=
  e.toSections.decodeLine_line e.no_comma e.no_newline

/-- **The item of an event** is decoded exactly if its times have room. -/
theorem finishItem_iff : (decodeLine e.line).map finishItem = some (finishItem e.item) ↔
    e.start.centis < 2 ^ 32 ∧ e.stop.centis < 2 ^ 32 := by
  rw [e.decodeLine_line, ← centiseconds_values_iff, ← centiseconds_values_iff, Option.map_some,
    Option.some_inj]
  simp only [finishItem, Dialogue.item, sub_ms2pts, ExtSubItem.mk.injEq, List.map_cons,
    List.map_nil, and_true]
  omega

end Dialogue

theorem decodeLine_eq_none_iff (line : List UInt8) : decodeLine line = none ↔ ¬ HasTimes line := by
  rw [← decodeLine_isSome_iff, Option.not_isSome_iff_eq_none]

/-- The line gives what it should. -/
theorem map_finishItem_iff {line : List UInt8} {part : Option ExtSubItem}
    (h : Accounts line part) :
    (decodeLine line).map finishItem = part.map finishItem ↔ LineOk line := by
  constructor
  · intro heq
    refine ⟨?_, fun hother => ?_⟩
    · rintro e rfl
      rw [h.event e rfl, Option.map_some] at heq
      exact e.finishItem_iff.mp heq
    · rw [h.other hother, Option.map_none, Option.map_eq_none_iff] at heq
      exact (decodeLine_eq_none_iff line).mp heq
  · intro hok
    cases hdialogue : isDialogue line with
    | false =>
      rw [h.other hdialogue, (decodeLine_eq_none_iff line).mpr (hok.other hdialogue)]
    | true =>
      by_cases hevent : ∃ e : Dialogue, e.line = line
      · obtain ⟨e, rfl⟩ := hevent
        rw [h.event e rfl, Option.map_some]
        exact e.finishItem_iff.mpr (hok.event e rfl)
      · rw [h.unspecified hdialogue fun e he => hevent ⟨e, he⟩]

/-- A line that should give an item gives one. -/
theorem isSome_decodeLine {line : List UInt8} {part : Option ExtSubItem}
    (h : Accounts line part) (hpart : part.isSome) : (decodeLine line).isSome := by
  cases hdialogue : isDialogue line with
  | false =>
    rw [h.other hdialogue] at hpart
    exact absurd hpart Bool.false_ne_true
  | true =>
    by_cases hevent : ∃ e : Dialogue, e.line = line
    · obtain ⟨e, rfl⟩ := hevent
      rw [e.decodeLine_line]
      rfl
    · rwa [← h.unspecified hdialogue fun e he => hevent ⟨e, he⟩]

theorem accounts_of_lineOk {line : List UInt8} (h : LineOk line) :
    Accounts line (decodeLine line) := by
  refine ⟨?_, fun hother => (decodeLine_eq_none_iff line).mpr (h.other hother), fun _ _ => rfl⟩
  rintro e rfl
  obtain ⟨hstart, hstop⟩ := h.event e rfl
  rw [e.decodeLine_line, (centiseconds_values_iff _).mpr hstart,
    (centiseconds_values_iff _).mpr hstop]
  rfl

/-! ## The lines of a file -/

/-- A line is decoded on its own. -/
theorem findItem_of_delivers (fuel : ℕ) {r : Reader} {lines : List (List UInt8)}
    (h : Delivers r lines) (hfuel : lines.length < fuel) (s : Memory) :
    lines.filterMap decodeLine = [] ∧ (findItem fuel r s).1 = none ∨
    ∃ item rest r', lines.filterMap decodeLine = item :: rest.filterMap decodeLine ∧
      rest.length < lines.length ∧ findItem fuel r s = (some item, r') ∧ Delivers r' rest := by
  induction fuel generalizing r lines s with
  | zero => exact absurd hfuel (Nat.not_lt_zero _)
  | succ fuel ih =>
    rw [findItem]
    cases lines with
    | nil =>
      obtain ⟨r', hget⟩ := h.nil s
      rw [hget]
      exact .inl ⟨rfl, rfl⟩
    | cons line lines =>
      obtain ⟨m, r', hget, hm, hrest⟩ := h s
      rw [hget]
      dsimp only
      rw [hm]
      cases hitem : decodeLine line with
      | some item =>
        refine .inr ⟨item, lines, r', ?_, Nat.lt_succ_self _, rfl, hrest⟩
        rw [List.filterMap_cons, hitem]
      | none =>
        rw [List.filterMap_cons, hitem]
        rcases ih hrest (Nat.lt_of_succ_lt_succ hfuel) m with hnone | ⟨item, rest, r'', hitems,
          hlen, hfound, hdelivers⟩
        · exact .inl hnone
        · exact .inr ⟨item, rest, r'', hitems, hlen.trans (Nat.lt_succ_self _), hfound, hdelivers⟩

theorem takesFirst_decodedItem : TakesFirst decodedItem (List.filterMap decodeLine) :=
  fun _ _ s h => findItem_of_delivers _ h (Nat.lt_succ_of_le h.length_le) s

/-- Two lists of items are the same exactly if they are line by line, where the first has an item
wherever the second has one. -/
theorem filterMap_eq_iff {α β γ : Type*} {f : α → Option β} {g : β → γ} {as : List α}
    {parts : List (Option β)}
    (hsome : List.Forall₂ (fun a part => part.isSome → (f a).isSome) as parts) :
    (as.filterMap f).map g = parts.reduceOption.map g ↔
      List.Forall₂ (fun a part => (f a).map g = part.map g) as parts := by
  have hlength : ∀ {as : List α} {parts : List (Option β)},
      List.Forall₂ (fun a part => part.isSome → (f a).isSome) as parts →
      parts.reduceOption.length ≤ (as.filterMap f).length := by
    intro as parts h
    induction h with
    | nil => exact le_rfl
    | @cons a part as parts hone _ ih =>
      cases part with
      | none =>
        rw [List.reduceOption_cons_of_none, List.filterMap_cons]
        cases f a with
        | none => exact ih
        | some b => exact ih.trans (Nat.le_succ _)
      | some b =>
        obtain ⟨c, hc⟩ := Option.isSome_iff_exists.mp (hone rfl)
        rw [List.reduceOption_cons_of_some, List.filterMap_cons, hc]
        exact Nat.succ_le_succ ih
  induction hsome with
  | nil => exact iff_of_true rfl .nil
  | @cons a part as parts hone hrest ih =>
    rw [List.forall₂_cons, List.filterMap_cons]
    refine Iff.trans ?_ (and_congr_right' ih)
    cases part with
    | none =>
      rw [List.reduceOption_cons_of_none, Option.map_none, Option.map_eq_none_iff]
      cases hfa : f a with
      | none => exact (and_iff_right rfl).symm
      | some b =>
        refine iff_of_false (fun heq => ?_) fun h => Option.some_ne_none b h.1
        have hle := hlength hrest
        have hlen := congrArg List.length heq
        rw [List.length_map, List.length_map, List.length_cons] at hlen
        omega
    | some b =>
      obtain ⟨c, hc⟩ := Option.isSome_iff_exists.mp (hone rfl)
      rw [hc, List.reduceOption_cons_of_some, List.map_cons, List.map_cons, List.cons.injEq,
        Option.map_some, Option.map_some, Option.some_inj]

/-- **SSA and ASS files.**  The items are those of the events, in their order, exactly if the times
of the events have room in 32 bits and no other line has nine sections with two times. -/
theorem decodes_iff {r : Reader} {lines : List (List UInt8)} (h : Delivers r lines) :
    Decodes r lines ↔ ∀ line ∈ lines, LineOk line := by
  have hsome : ∀ {parts : List (Option ExtSubItem)}, List.Forall₂ Accounts lines parts →
      List.Forall₂ (fun line part => part.isSome → (decodeLine line).isSome) lines parts :=
    fun hparts => hparts.imp fun _ _ => isSome_decodeLine
  unfold Decodes
  simp only [decodeSubtitles_of_delivers takesFirst_decodedItem h]
  constructor
  · intro hdecodes
    obtain ⟨parts, hparts, heq⟩ := hdecodes fun _ => filled
    rw [filterMap_eq_iff (hsome hparts)] at heq
    clear h hsome hdecodes
    induction hparts with
    | nil => exact fun _ hmem => absurd hmem List.not_mem_nil
    | cons haccounts _ ih =>
      obtain ⟨hone, hrest⟩ := List.forall₂_cons.mp heq
      exact List.forall_mem_cons.mpr ⟨(map_finishItem_iff haccounts).mp hone, ih hrest⟩
  · intro hok _
    refine ⟨lines.map decodeLine, ?_, ?_⟩
    · rw [List.forall₂_map_right_iff, List.forall₂_same]
      exact fun line hmem => accounts_of_lineOk (hok line hmem)
    · rw [List.reduceOption, List.filterMap_map]
      rfl

theorem isPlain_italicHello : IsPlain italicHello.line where
  no_newline := italicHello.no_newline
  no_null := italicHello.no_null
  no_cr := by decide +kernel
  short := by decide +kernel

/-- A file with an event of italics. -/
theorem decodes_italicHello :
    Decodes (inOneRead [italicHello.line] (by decide +kernel) (by decide +kernel))
        [italicHello.line] ↔ ∀ line ∈ [italicHello.line], LineOk line :=
  decodes_iff (delivers_inOneRead _ _
    (fun _ hl => List.eq_of_mem_singleton hl ▸ isPlain_italicHello) (by decide +kernel))

/-- `Comment: 0,0:00:00.25,0:00:00.25,,,,,,,x`. -/
def commentLine : List UInt8 :=
  [67, 111, 109, 109, 101, 110, 116, 58, 32, 48, 44] ++ quarterSecond.text ++ 44 ::
    quarterSecond.text ++ [44, 44, 44, 44, 44, 44, 44, 120]

/-- A comment with times is decoded as an event. -/
theorem not_decodes_comment : ¬ ∀ (r : Reader) (lines : List (List UInt8)),
    Delivers r lines → Decodes r lines := by
  intro h
  have hdelivers := @delivers_inOneRead [commentLine] (by decide +kernel) (by decide +kernel)
    (by decide +kernel) (by decide +kernel)
  have hok := (decodes_iff hdelivers).mp (h _ _ hdelivers) commentLine List.mem_cons_self
  exact hok.other (by decide +kernel) (by decide +kernel)

end AssFile
end AmlSubtitle
