import AmlSubtitle.Lib.Lines
import AmlSubtitle.Lib.Rewrite
import AmlSubtitle.Lib.Scanf
import AmlSubtitle.Subtitle.Spu

/-!
# `parser/AssParser.cpp`: the text of an embedded event

`__getAssSpu` finds the times and the text of an event that a container has in a packet.

* The event is read field by field from a stream over the packet, up to its last comma but
  those of the text.  A text with an override block is then found once more, from the
  commas of the whole event.
* Two loops rewrite the text: `removeBlock` takes the first override block out, and
  `replaceNewline` makes a newline of an escape.
* An event with a line break in it has a second one behind the break, whose text comes first.
-/

namespace AmlSubtitle
namespace AssParser

open Words Scanf Lines Rewrite

/-! ## Fields -/

/-- `ASS_EVENT_SECTIONS`, and `BUILTIN_ASS_EVENT_SECTIONS` where the event is not normal. -/
def eventSections (isNormal : Bool) : ℕ := if isNormal then 9 else 8

/-- `"Dialogue:"`. -/
def dialogue : List UInt8 := [68, 105, 97, 108, 111, 103, 117, 101, 58]

/-- The comparison with `"Dialogue:"`. -/
def isDialogue (s : List UInt8) : Bool := dialogue.isPrefixOf s

/-- The loop of `getline` at commas: at most `n` items, the stream and the string afterwards. -/
def readItems : ℕ → Stream → List UInt8 → List (List UInt8) × Stream × List UInt8
  | 0, ss, str => ([], ss, str)
  | n + 1, ss, str =>
    match ss.getline 44 str with
    | (true, ss, str) =>
      let (items, ss, last) := readItems n ss str
      (str :: items, ss, last)
    | (false, ss, str) => ([], ss, str)

/-- The loop that splits a string at its first `n` commas. -/
def splitTokens : ℕ → List UInt8 → List (List UInt8)
  | 0, s => [s]
  | n + 1, s =>
    match cut [44] s with
    | none => [s]
    | some (token, rest) => token :: splitTokens n rest

/-! ## Times -/

/-- `"%d:%d:%d.%d"`. -/
def timeFormat : List Directive :=
  [.int, .literal 58, .int, .literal 58, .int, .literal 46, .int]

/-- `sscanf` of a time: hour, minute, second and hundredths, if it finds all four. -/
def scanTime (item : List UInt8) : Option (ℤ × ℤ × ℤ × ℤ) :=
  match scan timeFormat item with
  | [.int hour, .int min, .int sec, .int ms] => some (hour, min, sec, ms)
  | _ => none

/-- A time in milliseconds, in a `uint32_t`. -/
def milliseconds : ℤ × ℤ × ℤ × ℤ → ℕ
  | (hour, min, sec, ms) =>
    asUnsigned 32 ((hour * 60 * 60 + min * 60 + sec) * 1000 + ms * 10)

/-- The time stamps that a normal event has in its second and third item. -/
def fillTimes (items : List (List UInt8)) (spu : Spu) : Spu :=
  let spu :=
    match scanTime (items.getD 1 []) with
    | some t => { spu with pts := milliseconds t * 90 }
    | none => spu
  match scanTime (items.getD 2 []) with
  | some t => { spu with mDelay := milliseconds t * 90 }
  | none => spu

/-! ## Text -/

/-- `"{\\"`. -/
def openTag : List UInt8 := [123, 92]

/-- `"{\\p0}"`. -/
def drawingEnd : List UInt8 := [123, 92, 112, 48, 125]

/-- A round of the loop over the override blocks: the text with its first one erased. -/
def removeBlock (str : List UInt8) : Option (List UInt8) :=
  match cut openTag str with
  | none => none
  | some (before, rest) =>
    match cut [125] rest with
    | none => none
    | some (_, after) => some (before ++ after)

/-- A round of the loop over the escapes: `"\\n"` is looked for first, and then `"\\N"`. -/
def replaceNewline (str : List UInt8) : Option (List UInt8) :=
  match cut [92, 110] str, cut [92, 78] str with
  | some (before, after), _ => some (before ++ 10 :: after)
  | none, some (before, after) => some (before ++ 10 :: after)
  | none, none => none

/-- Both loops. -/
def rewriteText (str : List UInt8) : List UInt8 :=
  exhaust replaceNewline (exhaust removeBlock str)

/-- The text of the event, from the stream or from the commas of the whole event. -/
def content (tempStr : List UInt8) (ss : Stream) (str : List UInt8) : List UInt8 :=
  match cut openTag tempStr with
  | none => (ss.getline 10 str).2.2
  | some _ => (splitTokens 8 tempStr).getD 8 str

/-- `getSecondTextForDoubleLanguage`. -/
def getSecondTextForDoubleLanguage (source : List UInt8) : List UInt8 :=
  match cut [10] source with
  | none => []
  | some (_, secondStr) =>
    let (_, ss, str) :=
      readItems (eventSections (isDialogue secondStr)) (Stream.ofString secondStr) []
    match cut openTag secondStr with
    | none => (ss.getline 10 str).2.2
    | some (before, _) => secondStr.drop before.length

/-- `stringConvert2Stream`. -/
def stringConvert2Stream (s1 s2 : List UInt8) : List UInt8 :=
  if s1 = [] then s2 else s1 ++ 10 :: s2

/-- `strcpy`. -/
def strcpy (dest src : List UInt8) : List UInt8 :=
  string src ++ 0 :: dest.drop ((string src).length + 1)

/-- `__getAssSpu`: what it returns, and the item.  `spuBuf` is the data of the item. -/
def getAssSpu (spuBuf : List UInt8) (spu : Spu) : ℤ × Spu :=
  let tempStr := string spuBuf
  let isNormal := isDialogue tempStr
  let (items, ss, str) := readItems (eventSections isNormal) (Stream.ofString tempStr) []
  if items.length < eventSections false then (-1, spu)
  else
    let spu := if isNormal then fillTimes items spu else spu
    if (cut drawingEnd tempStr).isSome then (-1, spu)
    else
      let str := rewriteText (content tempStr ss str)
      let str := stringConvert2Stream (getSecondTextForDoubleLanguage tempStr) str
      (0, { spu with spuData := some (strcpy spuBuf str) })

/-! ## Items and tokens -/

/-- Fields, each with a comma behind it, in front of a text. -/
def joinFields (fields : List (List UInt8)) (text : List UInt8) : List UInt8 :=
  fields.foldr (fun field s => field ++ 44 :: s) text

/-- **The items are the fields**, and the stream has the text left. -/
theorem readItems_joinFields {fields : List (List UInt8)} (h : ∀ field ∈ fields, 44 ∉ field)
    (text str : List UInt8) :
    readItems fields.length (Stream.ofString (joinFields fields text)) str =
      (fields, Stream.ofString text, fields.getLast?.getD str) := by
  induction fields generalizing str with
  | nil => rfl
  | cons field fields ih =>
    have hget := Stream.getline_append (h field List.mem_cons_self) (joinFields fields text) str
    rw [List.length_cons, readItems, show joinFields (field :: fields) text =
      field ++ 44 :: joinFields fields text from rfl, hget]
    dsimp only
    rw [ih fun f hf => h f (List.mem_cons_of_mem field hf), List.getLast?_cons]
    rfl

/-- The tokens are the fields, and then the text. -/
theorem splitTokens_joinFields {fields : List (List UInt8)} (h : ∀ field ∈ fields, 44 ∉ field)
    (text : List UInt8) :
    splitTokens fields.length (joinFields fields text) = fields ++ [text] := by
  induction fields with
  | nil => rfl
  | cons field fields ih =>
    rw [List.length_cons, splitTokens, show joinFields (field :: fields) text =
      field ++ 44 :: joinFields fields text from rfl,
      cut_singleton (h field List.mem_cons_self)]
    dsimp only
    rw [ih fun f hf => h f (List.mem_cons_of_mem field hf)]
    rfl

/-! ## Override blocks -/

theorem removeBlock_eq_some {str t : List UInt8} (h : removeBlock str = some t) :
    ∃ before rest inner after, cut openTag str = some (before, rest) ∧
      cut [125] rest = some (inner, after) ∧ t = before ++ after := by
  rw [removeBlock] at h
  cases htag : cut openTag str with
  | none =>
    rw [htag] at h
    exact absurd h.symm (Option.some_ne_none t)
  | some p =>
    obtain ⟨before, rest⟩ := p
    rw [htag] at h
    dsimp only at h
    cases hend : cut [125] rest with
    | none =>
      rw [hend] at h
      exact absurd h.symm (Option.some_ne_none t)
    | some q =>
      obtain ⟨inner, after⟩ := q
      rw [hend] at h
      exact ⟨before, rest, inner, after, rfl, hend, (Option.some.inj h).symm⟩

theorem removeBlock_of_cut {str before rest : List UInt8}
    (h : cut openTag str = some (before, rest)) :
    removeBlock str = (cut [125] rest).map fun p => before ++ p.2 := by
  rw [removeBlock, h]
  dsimp only
  cases cut [125] rest <;> rfl

theorem removeBlock_of_none {str : List UInt8} (h : cut openTag str = none) :
    removeBlock str = none := by
  rw [removeBlock, h]

theorem shortens_removeBlock : Shortens removeBlock := by
  intro s t h
  obtain ⟨before, rest, inner, after, htag, hend, rfl⟩ := removeBlock_eq_some h
  rw [cut_eq_some htag, cut_eq_some hend]
  simp only [List.length_append, openTag, List.length_cons, List.length_nil]
  omega

/-- The first block of a text is that of the longer text. -/
theorem removeBlock_append (t : List UInt8) (s s' : List UInt8) (h : removeBlock s = some s') :
    removeBlock (s ++ t) = some (s' ++ t) := by
  obtain ⟨before, rest, inner, after, htag, hend, rfl⟩ := removeBlock_eq_some h
  rw [removeBlock_of_cut (cut_append htag t), cut_append hend t, Option.map_some,
    List.append_assoc]

/-- A text with no `}` has no block. -/
theorem removeBlock_of_notMem {str : List UInt8} (h : 125 ∉ str) : removeBlock str = none := by
  cases htag : cut openTag str with
  | none => exact removeBlock_of_none htag
  | some p =>
    obtain ⟨before, rest⟩ := p
    have hrest : 125 ∉ rest := by
      intro hmem
      refine h ?_
      rw [cut_eq_some htag]
      exact List.mem_append_right _ (List.mem_append_right _ hmem)
    rw [removeBlock_of_cut htag, cut_singleton_eq_none.mpr hrest]
    rfl

/-- A comma after a text with no `{\` in it: the blocks are those of what follows. -/
theorem exhaust_removeBlock_comma {s : List UInt8} (h : cut openTag s = none) (t : List UInt8) :
    exhaust removeBlock (s ++ 44 :: t) = s ++ 44 :: exhaust removeBlock t := by
  refine exhaust_map (f := fun t => s ++ 44 :: t) shortens_removeBlock (fun t => ?_) t
  have hcut := cut_append_cons (c := 44) (by decide) h t
  cases htag : cut openTag t with
  | none =>
    rw [htag] at hcut
    rw [removeBlock_of_none hcut, removeBlock_of_none htag]
    rfl
  | some p =>
    obtain ⟨before, rest⟩ := p
    rw [htag] at hcut
    rw [removeBlock_of_cut hcut, removeBlock_of_cut htag, Option.map_map]
    congr 1
    funext p
    exact List.append_assoc s (44 :: before) p.2

end AssParser
end AmlSubtitle
