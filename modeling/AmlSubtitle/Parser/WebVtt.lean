import AmlSubtitle.Lib.Rewrite
import AmlSubtitle.Parser.ExtSubDelivery
import AmlSubtitle.Parser.SubViewer

/-!
# `parser/ExtParser/WebVtt.cpp`: the decoder of WebVTT files

`decodedItem` reads lines up to one with the times of a cue, and then the lines of its text up to
an empty one.  The times are looked for with hours first, and then without them; `a1` is an
hour in the first format and keeps what that has assigned.

* `itemsOf`: what the decoder makes of some lines.
* `Cue` is a cue as a WebVTT file has it: lines with no arrow in them in front of its times, the
  times, and the lines of the text.
* `decodes_cues_iff`: the cues of a file are decoded exactly if the last one is followed by an empty
  line, both times of each are in one form, and times without hours begin in the first minute.
-/

namespace AmlSubtitle
namespace WebVtt

open Scanf Rewrite ExtSubStreamReader TextSubtitle

/-! ## The decoder -/

/-- `"-->"`. -/
def arrow : List UInt8 := [45, 45, 62]

/-- `"%d:%d.%d"`. -/
def shortFormat : List Directive := [.int, .literal 58, .int, .literal 46, .int]

/-- `"%d:%d:%d.%d"`. -/
def longFormat : List Directive := .int :: .literal 58 :: shortFormat

/-- `" --> "` between two formats. -/
def timesFormat (format : List Directive) : List Directive :=
  format ++ .blank :: (arrow.map .literal ++ .blank :: format)

/-- A variable that `sscanf` may have assigned, and was zero. -/
def assigned (values : List Value) (i : ℕ) : ℤ :=
  match values[i]? with
  | some (.int z) => z
  | _ => 0

/-- The times of a line, if it has any. -/
def scanTimes (line : List UInt8) : Option (ℤ × ℤ) :=
  let v := scan (timesFormat longFormat) line
  if 8 ≤ v.length then
    some (SubViewer.centiseconds (assigned v 0) (assigned v 1) (assigned v 2) (assigned v 3),
      SubViewer.centiseconds (assigned v 4) (assigned v 5) (assigned v 6) (assigned v 7))
  else
    let w := scan (timesFormat shortFormat) line
    if 6 ≤ w.length then
      -- `a1` and `b1` are those of the first attempt
      some (SubViewer.centiseconds (assigned v 0) (assigned w 0) (assigned w 1) (assigned w 2),
        SubViewer.centiseconds (assigned v 4) (assigned w 3) (assigned w 4) (assigned w 5))
    else none

/-- The text of a line, up to its end. -/
def textOf (line : List UInt8) : List UInt8 := line.takeWhile fun c => c ≠ 10 && c ≠ 13

/-- `removeHtmlToken`: the matches of `(<[^>]*>)` are erased one by one. -/
def removeHtmlToken (s : List UInt8) : List UInt8 := exhaust (removeSpan [60] [62]) s

/-- The dash in front of what a speaker says is taken off. -/
def dropDash (s : List UInt8) : List UInt8 :=
  if 2 < s.length ∧ s.take 2 = [45, 32] then s.drop 2 else s

/-- A line of the text as it is shown. -/
def shownLine (s : List UInt8) : List UInt8 := removeHtmlToken (dropDash s)

/-- The loop over the lines of the text, whose counter is never counted: the lines, unless the file
ends first. -/
def readText : ℕ → Reader → Memory → Option (List (List UInt8)) × Reader
  | 0, r, _ => (none, r)
  | fuel + 1, r, line =>
    match getLine r line with
    | (none, r) => (none, r)
    | (some line, r) =>
      if textOf line.string = [] then (some [], r)
      else
        let (lines, r) := readText fuel r line
        (lines.map (shownLine (textOf line.string) :: ·), r)

/-- The outer loop of `decodedItem`. -/
def findItem : ℕ → Decoder
  | 0, r, _ => (none, r)
  | fuel + 1, r, line =>
    match getLine r line with
    | (none, r) => (none, r)
    | (some line, r) =>
      match scanTimes line.string with
      | none => findItem fuel r line
      | some (start, stop) =>
        let (lines, r) := readText ((toRead r).length + 1) r line
        (lines.map (⟨start, stop, ·⟩), r)

/-- `decodedItem`. -/
def decodedItem : Decoder := fun r line => findItem ((toRead r).length + 1) r line

/-! ## What is made of some lines -/

/-- The items of some lines, behind the times and the first lines of a text if there are any.  A
text that the file ends gives none. -/
def itemsFrom : Option (ℤ × ℤ × List (List UInt8)) → List (List UInt8) → List ExtSubItem
  | _, [] => []
  | none, line :: lines =>
    match scanTimes line with
    | none => itemsFrom none lines
    | some (start, stop) => itemsFrom (some (start, stop, [])) lines
  | some (start, stop, texts), line :: lines =>
    if textOf line = [] then ⟨start, stop, texts⟩ :: itemsFrom none lines
    else itemsFrom (some (start, stop, texts ++ [shownLine (textOf line)])) lines

/-- The items of some lines. -/
def itemsOf : List (List UInt8) → List ExtSubItem := itemsFrom none

theorem readText_of_delivers (fuel : ℕ) {r : Reader} {lines : List (List UInt8)}
    (h : Delivers r lines) (hfuel : lines.length < fuel) (s : Memory) (start stop : ℤ)
    (before : List (List UInt8)) :
    itemsFrom (some (start, stop, before)) lines = [] ∧ (readText fuel r s).1 = none ∨
    ∃ texts rest r', itemsFrom (some (start, stop, before)) lines =
        ⟨start, stop, before ++ texts⟩ :: itemsOf rest ∧ rest.length < lines.length ∧
      readText fuel r s = (some texts, r') ∧ Delivers r' rest := by
  induction fuel generalizing r lines s before with
  | zero => exact absurd hfuel (Nat.not_lt_zero _)
  | succ fuel ih =>
    rw [readText]
    cases lines with
    | nil =>
      obtain ⟨r', hget⟩ := h.nil s
      rw [hget]
      exact .inl ⟨rfl, rfl⟩
    | cons line lines =>
      obtain ⟨m, r', hget, hm, hrest⟩ := h s
      rw [hget, itemsFrom]
      dsimp only
      rw [hm]
      split_ifs with hempty
      · refine .inr ⟨[], lines, r', ?_, Nat.lt_succ_self _, rfl, hrest⟩
        rw [List.append_nil]
        rfl
      · rcases ih hrest (Nat.lt_of_succ_lt_succ hfuel) m (before ++ [shownLine (textOf line)]) with
          ⟨hitems, hnone⟩ | ⟨texts, rest, r'', hitems, hlen, hread, hdelivers⟩
        · refine .inl ⟨hitems, ?_⟩
          rw [hnone]
          rfl
        · refine .inr ⟨shownLine (textOf line) :: texts, rest, r'', ?_,
            hlen.trans (Nat.lt_succ_self _), ?_, hdelivers⟩
          · rw [hitems, List.append_assoc]
            rfl
          · rw [hread]
            rfl

theorem findItem_of_delivers (fuel : ℕ) {r : Reader} {lines : List (List UInt8)}
    (h : Delivers r lines) (hfuel : lines.length < fuel) (s : Memory) :
    itemsOf lines = [] ∧ (findItem fuel r s).1 = none ∨
    ∃ item rest r', itemsOf lines = item :: itemsOf rest ∧ rest.length < lines.length ∧
      findItem fuel r s = (some item, r') ∧ Delivers r' rest := by
  induction fuel generalizing r lines s with
  | zero => exact absurd hfuel (Nat.not_lt_zero _)
  | succ fuel ih =>
    rw [findItem]
    cases lines with
    | nil =>
      obtain ⟨r', hget⟩ := h.nil s
      rw [hget]
      exact .inl ⟨rfl, rfl⟩
    | cons line lines =>
      obtain ⟨m, r', hget, hm, hrest⟩ := h s
      rw [hget, itemsOf, itemsFrom]
      dsimp only
      rw [hm]
      cases htimes : scanTimes line with
      | none =>
        rcases ih hrest (Nat.lt_of_succ_lt_succ hfuel) m with hnone |
          ⟨item, rest, r'', hitems, hlen, hfound, hdelivers⟩
        · exact .inl hnone
        · exact .inr ⟨item, rest, r'', hitems, hlen.trans (Nat.lt_succ_self _), hfound, hdelivers⟩
      | some times =>
        obtain ⟨start, stop⟩ := times
        rcases readText_of_delivers ((toRead r').length + 1) hrest
          (Nat.lt_succ_of_le hrest.length_le) m start stop [] with
          ⟨hitems, hnone⟩ | ⟨texts, rest, r'', hitems, hlen, hread, hdelivers⟩
        · refine .inl ⟨hitems, ?_⟩
          dsimp only
          rw [hnone]
          rfl
        · refine .inr ⟨⟨start, stop, texts⟩, rest, r'', hitems, hlen.trans (Nat.lt_succ_self _), ?_,
            hdelivers⟩
          dsimp only
          rw [hread]
          rfl

/-- **The decoder** takes the items of the lines one by one. -/
theorem takesFirst_decodedItem : TakesFirst decodedItem itemsOf :=
  fun _ _ s h => findItem_of_delivers _ h (Nat.lt_succ_of_le h.length_le) s

/-! ## Cues -/

/-- A time stamp, with its hours or without. -/
structure Stamp where
  time : SubViewer.Time
  hasHours : Bool
  hours_eq_zero : hasHours = false → time.hours = 0

/-- `mm:ss.mmm`. -/
def shortText (t : SubViewer.Time) : List UInt8 :=
  padded 2 t.minutes ++ 58 :: (padded 2 t.seconds ++ 46 :: padded 3 t.millis)

/-- `hh:mm:ss.mmm` or `mm:ss.mmm`. -/
def Stamp.text (t : Stamp) : List UInt8 :=
  if t.hasHours then padded 2 t.time.hours ++ 58 :: shortText t.time else shortText t.time

/-- A line of a text: there is something in it, and no arrow. -/
structure IsText (line : List UInt8) : Prop where
  ne_nil : line ≠ []
  no_newline : 10 ∉ line
  no_cr : 13 ∉ line
  no_arrow : ¬ arrow <:+: line

/-- Lines with no arrow in them: headers, comments and identifiers. -/
structure Remarks where
  lines : List (List UInt8)
  no_arrow : ∀ line ∈ lines, ¬ arrow <:+: line

/-- A cue: the lines in front of its times, with an identifier if it has one, the times, and the
lines of its text. -/
structure Cue where
  lead : Remarks
  start : Stamp
  before : List UInt8
  behind : List UInt8
  stop : Stamp
  settings : List UInt8
  texts : List (List UInt8)
  before_blank : ∀ c ∈ before, isBlank c = true
  behind_blank : ∀ c ∈ behind, isBlank c = true
  settings_blank : ∀ c ∈ settings.head?, isBlank c = true
  isText : ∀ line ∈ texts, IsText line

/-- The line with the times. -/
def Cue.times (c : Cue) : List UInt8 :=
  c.start.text ++ (c.before ++ (arrow ++ (c.behind ++ (c.stop.text ++ c.settings))))

/-- The lines of a cue. -/
def Cue.lines (c : Cue) : List (List UInt8) := c.lead.lines ++ c.times :: c.texts

/-- The item of the cue. -/
def Cue.item (c : Cue) : ExtSubItem where
  start := c.start.time.pts
  stop := c.stop.time.pts
  lines := c.texts.map fun line => replaceLine (shownLine line)

/-- The lines of a file: those of its cues with an empty one behind each, and then remarks; or
without the empty line behind the last cue. -/
def fileLines (cues : List Cue) : Option Remarks → List (List UInt8)
  | some trailer => cues.flatMap (fun c => c.lines ++ [[]]) ++ trailer.lines
  | none => (cues.flatMap fun c => c.lines ++ [[]]).dropLast

/-- The file is decoded to the items of its cues. -/
def Decodes (r : Reader) (cues : List Cue) : Prop :=
  ∀ stack, decodeSubtitles decodedItem r stack = cues.map Cue.item

/-- Both times have hours, or both have none and the first is in the first minute. -/
def Cue.TimesOk (c : Cue) : Prop :=
  c.start.hasHours = c.stop.hasHours ∧ (c.start.hasHours = false → c.start.time.minutes = 0)

/-! ## The times of a cue -/

section Scan

variable (t : SubViewer.Time) (format : List Directive) {rest : List UInt8}

theorem scanInt_two {n : ℕ} (hn : n < 100) (c : UInt8) (hc : isDigit c = false) :
    scanInt (padded 2 n ++ c :: rest) = some ((n : ℤ), c :: rest) :=
  SubViewer.scanInt_padded (by decide) hn (hn.trans (by decide)) fun _ hmem =>
    Option.some.inj hmem ▸ hc

/-- The format without hours, on a time without. -/
theorem scan_short (hrest : ∀ c ∈ rest.head?, isDigit c = false) :
    scan (shortFormat ++ format) (shortText t ++ rest) =
      [.int t.minutes, .int t.seconds, .int t.millis] ++ scan format rest := by
  rw [shortFormat, shortText]
  simp only [List.append_assoc, List.cons_append]
  rw [scan, scanInt_two (t.minutes_lt.trans (by decide)) 58 rfl]
  dsimp only
  rw [scan, if_pos rfl, scan, scanInt_two (t.seconds_lt.trans (by decide)) 46 rfl]
  dsimp only
  rw [scan, if_pos rfl, scan, List.nil_append,
    SubViewer.scanInt_padded (by decide) t.millis_lt (t.millis_lt.trans (by decide)) hrest]
  rfl

/-- The format with hours, on a time with them. -/
theorem scan_long (hrest : ∀ c ∈ rest.head?, isDigit c = false) :
    scan (longFormat ++ format) (padded 2 t.hours ++ 58 :: shortText t ++ rest) =
      [.int t.hours, .int t.minutes, .int t.seconds, .int t.millis] ++ scan format rest := by
  rw [longFormat, List.append_assoc, List.cons_append, List.cons_append, List.cons_append, scan,
    scanInt_two t.hours_lt 58 rfl]
  dsimp only
  rw [scan, if_pos rfl, scan_short t format hrest]
  rfl

/-- The format with hours takes the minutes of a time without for hours, and stops behind the
seconds. -/
theorem scan_long_short :
    scan (longFormat ++ format) (shortText t ++ rest) = [.int t.minutes, .int t.seconds] := by
  rw [longFormat, shortFormat, shortText]
  simp only [List.append_assoc, List.cons_append]
  rw [scan, scanInt_two (t.minutes_lt.trans (by decide)) 58 rfl]
  dsimp only
  rw [scan, if_pos rfl, scan, scanInt_two (t.seconds_lt.trans (by decide)) 46 rfl]
  rfl

/-- The format without hours stops behind the minutes of a time with hours. -/
theorem scan_short_long :
    scan (shortFormat ++ format) (padded 2 t.hours ++ 58 :: shortText t ++ rest) =
      [.int t.hours, .int t.minutes] := by
  rw [shortFormat, shortText]
  simp only [List.append_assoc, List.cons_append]
  rw [scan, scanInt_two t.hours_lt 58 rfl]
  dsimp only
  rw [scan, if_pos rfl, scan, scanInt_two (t.minutes_lt.trans (by decide)) 58 rfl]
  rfl

end Scan

theorem isDigit_head_text (t : Stamp) (s : List UInt8) : ∃ d ds, t.text ++ s = d :: ds ∧
    isDigit d = true := by
  have hpadded : ∀ n s, ∃ d ds, padded 2 n ++ s = d :: ds ∧ isDigit d = true := by
    intro n s
    obtain ⟨d, ds, hds, hd⟩ := exists_padded_eq_cons (k := 2) (by decide) n
    exact ⟨d, ds ++ s, by rw [hds, List.cons_append], hd⟩
  unfold Stamp.text shortText
  split_ifs
  · rw [List.append_assoc]
    exact hpadded _ _
  · rw [List.append_assoc]
    exact hpadded _ _

/-- What is taken for the hours of the first time. -/
def Stamp.hoursTaken (t : Stamp) : ℕ := if t.hasHours then t.time.hours else t.time.minutes

namespace Cue

variable (c : Cue)

/-- What stands behind the first time. -/
def afterStart : List UInt8 :=
  c.before ++ (arrow ++ (c.behind ++ (c.stop.text ++ c.settings)))

theorem head_afterStart : ∀ d ∈ c.afterStart.head?, isDigit d = false := by
  intro d hd
  unfold afterStart at hd
  cases hbefore : c.before with
  | nil =>
    rw [hbefore] at hd
    rw [← Option.some.inj hd]
    rfl
  | cons b bs =>
    rw [hbefore] at hd
    rw [← Option.some.inj hd]
    exact isDigit_of_isBlank (c.before_blank b (hbefore ▸ List.mem_cons_self))

theorem head_settings : ∀ d ∈ c.settings.head?, isDigit d = false :=
  fun d hd => isDigit_of_isBlank (c.settings_blank d hd)

/-- The arrow is scanned, with the blanks around it. -/
theorem scan_afterStart (format : List Directive) :
    scan (.blank :: (arrow.map .literal ++ .blank :: format)) c.afterStart =
      scan format (c.stop.text ++ c.settings) := by
  obtain ⟨d, ds, hds, hd⟩ := isDigit_head_text c.stop c.settings
  have hbefore : c.afterStart.dropWhile isSpace =
      arrow ++ (c.behind ++ (c.stop.text ++ c.settings)) := by
    rw [afterStart,
      List.dropWhile_append_of_pos fun b hb => isSpace_of_isBlank (c.before_blank b hb)]
    rfl
  have hbehind : (c.behind ++ (c.stop.text ++ c.settings)).dropWhile isSpace =
      c.stop.text ++ c.settings := by
    rw [List.dropWhile_append_of_pos fun b hb => isSpace_of_isBlank (c.behind_blank b hb), hds]
    exact List.dropWhile_cons_of_neg ((Bool.not_eq_true _).mpr (isSpace_of_isDigit hd))
  rw [scan, hbefore]
  exact congrArg (scan format) hbehind

/-- The times of the cue, as the decoder takes them. -/
def scanned : Option (ℤ × ℤ) :=
  if c.start.hasHours = c.stop.hasHours then
    some (SubViewer.centiseconds c.start.hoursTaken c.start.time.minutes c.start.time.seconds
        c.start.time.millis,
      SubViewer.centiseconds c.stop.time.hours c.stop.time.minutes c.stop.time.seconds
        c.stop.time.millis)
  else none

/-- **The line with the times**: nothing is found if only one of them has hours, and the minutes are
counted as hours too if none has. -/
theorem scanTimes_times : scanTimes c.times = c.scanned := by
  have hlong := c.scan_afterStart longFormat
  have hshort := c.scan_afterStart shortFormat
  have hrest := c.head_afterStart
  have hsettings := c.head_settings
  have hnil : ∀ format, scan format (c.stop.text ++ c.settings) =
      scan (format ++ []) (c.stop.text ++ c.settings) := fun format => by rw [List.append_nil]
  rw [hnil] at hlong hshort
  have htimes : c.times = c.start.text ++ c.afterStart := rfl
  unfold scanTimes timesFormat scanned
  rw [htimes]
  unfold Stamp.hoursTaken
  unfold Stamp.text at hlong hshort ⊢
  cases hstart : c.start.hasHours <;> cases hstop : c.stop.hasHours
  · have hhours := c.stop.hours_eq_zero hstop
    rw [hstop, if_neg Bool.false_ne_true] at hlong hshort
    rw [if_neg Bool.false_ne_true, scan_long_short, scan_short _ _ hrest, hshort,
      scan_short _ _ hsettings, hhours]
    simp [assigned]
  · rw [hstop, if_pos rfl] at hshort
    rw [if_neg Bool.false_ne_true, scan_long_short, scan_short _ _ hrest, hshort, scan_short_long]
    simp
  · rw [hstop, if_neg Bool.false_ne_true] at hlong
    rw [if_pos rfl, scan_long _ _ hrest, hlong, scan_long_short, scan_short_long]
    simp
  · rw [hstop, if_pos rfl] at hlong
    rw [if_pos rfl, scan_long _ _ hrest, hlong, scan_long _ _ hsettings]
    simp [assigned]

end Cue

/-- A line with no arrow has no times. -/
theorem scanTimes_eq_none {line : List UInt8} (h : ¬ arrow <:+: line) : scanTimes line = none := by
  have hle : ∀ format, (scan (timesFormat format) line).length ≤ conversions format := by
    intro format
    by_contra hlt
    have hscan : timesFormat format = (format ++ [.blank]) ++
        (arrow.map .literal ++ .blank :: format) := by
      rw [timesFormat, List.append_assoc]
      rfl
    have hblank : ∀ format, conversions (format ++ [.blank]) = conversions format := by
      intro format
      induction format with
      | nil => rfl
      | cons directive format ih =>
        cases directive <;> simp only [List.cons_append, conversions, ih]
    rw [hscan, ← hblank] at hlt
    exact h (infix_of_scan (not_le.mp hlt))
  have hlong : (scan (timesFormat longFormat) line).length ≤ 4 := hle longFormat
  have hshort : (scan (timesFormat shortFormat) line).length ≤ 3 := hle shortFormat
  unfold scanTimes
  dsimp only
  rw [if_neg (by omega), if_neg (by omega)]

/-! ## The lines of a file -/

theorem itemsOf_noArrow {lines : List (List UInt8)} (h : ∀ line ∈ lines, ¬ arrow <:+: line)
    (rest : List (List UInt8)) : itemsOf (lines ++ rest) = itemsOf rest := by
  induction lines with
  | nil => rfl
  | cons line lines ih =>
    obtain ⟨hline, hlines⟩ := List.forall_mem_cons.mp h
    rw [← ih hlines, itemsOf, List.cons_append, itemsFrom, scanTimes_eq_none hline]

theorem textOf_of_isText {line : List UInt8} (h : IsText line) : textOf line = line := by
  rw [textOf, List.takeWhile_eq_self_iff]
  intro c hc
  have h10 : c ≠ 10 := fun heq => h.no_newline (heq ▸ hc)
  have h13 : c ≠ 13 := fun heq => h.no_cr (heq ▸ hc)
  rw [Bool.and_eq_true, decide_eq_true_iff, decide_eq_true_iff]
  exact ⟨h10, h13⟩

/-- A text is kept, and an item is made of it at the empty line. -/
theorem itemsFrom_texts {texts : List (List UInt8)} (h : ∀ line ∈ texts, IsText line)
    (start stop : ℤ) (before : List (List UInt8)) :
    itemsFrom (some (start, stop, before)) texts = [] ∧ ∀ rest,
      itemsFrom (some (start, stop, before)) (texts ++ [] :: rest) =
        ⟨start, stop, before ++ texts.map shownLine⟩ :: itemsOf rest := by
  induction texts generalizing before with
  | nil =>
    refine ⟨rfl, fun rest => ?_⟩
    rw [List.map_nil, List.append_nil]
    rfl
  | cons line texts ih =>
    obtain ⟨hline, htexts⟩ := List.forall_mem_cons.mp h
    obtain ⟨hended, hitems⟩ := ih htexts (before ++ [shownLine line])
    have hne : textOf line ≠ [] := (textOf_of_isText hline).symm ▸ hline.ne_nil
    constructor
    · rw [itemsFrom, if_neg hne, textOf_of_isText hline]
      exact hended
    · intro rest
      rw [List.cons_append, itemsFrom, if_neg hne, textOf_of_isText hline, hitems,
        List.append_assoc]
      rfl

/-- What is decoded of a cue. -/
def Cue.found (c : Cue) : Option ExtSubItem :=
  c.scanned.map fun times => ⟨times.1, times.2, c.texts.map shownLine⟩

/-- **One cue**: its item comes with the empty line behind it. -/
theorem itemsOf_lines (c : Cue) : itemsOf c.lines = [] ∧ ∀ rest,
    itemsOf (c.lines ++ [] :: rest) = c.found.toList ++ itemsOf rest := by
  have hlead : ∀ rest, itemsOf (c.lines ++ rest) = itemsOf (c.times :: (c.texts ++ rest)) := by
    intro rest
    rw [Cue.lines, List.append_assoc]
    exact itemsOf_noArrow c.lead.no_arrow _
  have htimes : ∀ rest, itemsOf (c.times :: rest) = match c.scanned with
      | none => itemsOf rest
      | some (start, stop) => itemsFrom (some (start, stop, [])) rest := by
    intro rest
    rw [itemsOf, itemsFrom, c.scanTimes_times]
  have hended := hlead []
  rw [List.append_nil, List.append_nil] at hended
  have htexts : ∀ line ∈ c.texts, ¬ arrow <:+: line := fun line hl => (c.isText line hl).no_arrow
  rw [hended, htimes, Cue.found]
  simp only [hlead, htimes]
  cases c.scanned with
  | none =>
    refine ⟨?_, fun rest => ?_⟩
    · have hnone := itemsOf_noArrow htexts []
      rwa [List.append_nil] at hnone
    · dsimp only
      rw [itemsOf_noArrow htexts]
      exact @itemsOf_noArrow [[]]
        (fun line hl => List.eq_of_mem_singleton hl ▸ by decide) rest
  | some times => exact itemsFrom_texts c.isText times.1 times.2 []

theorem itemsOf_flatMap (cues : List Cue) (rest : List (List UInt8)) :
    itemsOf (cues.flatMap (fun c => c.lines ++ [[]]) ++ rest) =
      cues.filterMap Cue.found ++ itemsOf rest := by
  induction cues with
  | nil => rfl
  | cons c cues ih =>
    rw [List.flatMap_cons, List.append_assoc, List.append_assoc, List.singleton_append,
      (itemsOf_lines c).2, ih, ← List.append_assoc, List.filterMap_cons]
    cases c.found <;> rfl

/-- What is decoded of a file. -/
theorem itemsOf_fileLines (cues : List Cue) (trailer : Option Remarks) :
    itemsOf (fileLines cues trailer) =
      (if trailer.isSome then cues else cues.dropLast).filterMap Cue.found := by
  cases trailer with
  | some trailer =>
    have htrailer := itemsOf_noArrow trailer.no_arrow []
    rw [List.append_nil] at htrailer
    rw [fileLines, itemsOf_flatMap, htrailer]
    exact List.append_nil _
  | none =>
    rw [fileLines, Option.isSome_none, if_neg Bool.false_ne_true]
    rcases cues.eq_nil_or_concat with rfl | ⟨cues, c, rfl⟩
    · rfl
    · rw [List.concat_eq_append, List.flatMap_append, List.flatMap_singleton, ← List.append_assoc,
        List.dropLast_concat, List.dropLast_concat, itemsOf_flatMap, (itemsOf_lines c).1,
        List.append_nil]

/-- With other hours, a time is another one. -/
theorem pts_hours_iff (t : SubViewer.Time) {hours : ℕ} (h : hours < 100) :
    sub_ms2pts (SubViewer.centiseconds hours t.minutes t.seconds t.millis) = t.pts ↔
      hours = t.hours := by
  have htime : sub_ms2pts (SubViewer.centiseconds hours t.minutes t.seconds t.millis) =
      SubViewer.Time.pts { t with hours := hours, hours_lt := h } :=
    SubViewer.centiseconds_time { t with hours := hours, hours_lt := h }
  rw [htime, SubViewer.Time.pts, SubViewer.Time.pts, sub_ms2pts, sub_ms2pts]
  dsimp only
  omega

theorem hoursTaken_iff (t : Stamp) :
    t.hoursTaken = t.time.hours ↔ (t.hasHours = false → t.time.minutes = 0) := by
  have hhours := t.hours_eq_zero
  rw [Stamp.hoursTaken]
  cases hforms : t.hasHours with
  | false =>
    rw [if_neg Bool.false_ne_true, hhours hforms]
    exact ⟨fun h _ => h, fun h => h rfl⟩
  | true => exact iff_of_true rfl fun h => absurd h.symm Bool.false_ne_true

theorem hoursTaken_lt (t : Stamp) : t.hoursTaken < 100 := by
  have hhours := t.time.hours_lt
  have hminutes := t.time.minutes_lt
  rw [Stamp.hoursTaken]
  split_ifs
  · exact hhours
  · omega

/-- The item of a cue is right exactly if its times are in the forms for which they are. -/
theorem map_finishItem_found_iff (c : Cue) :
    c.found.map finishItem = some c.item ↔ c.TimesOk := by
  rw [Cue.found, Cue.scanned, Cue.TimesOk]
  split_ifs with hforms
  · rw [and_iff_right hforms, ← hoursTaken_iff,
      ← pts_hours_iff c.start.time (hoursTaken_lt c.start)]
    simp only [Option.map_some, Option.some_inj, finishItem, Cue.item, ExtSubItem.mk.injEq,
      SubViewer.centiseconds_time, List.map_map]
    exact and_iff_left ⟨trivial, rfl⟩
  · exact iff_of_false (Option.some_ne_none _).symm fun h => hforms h.1

/-- **WebVTT files.**  The items are those of the cues exactly if an empty line stands behind the
last cue, and the times of each are both with hours, or both without and the first in the first
minute. -/
theorem decodes_cues_iff {r : Reader} {cues : List Cue} {trailer : Option Remarks}
    (h : Delivers r (fileLines cues trailer)) :
    Decodes r cues ↔ (cues = [] ∨ trailer.isSome) ∧ ∀ c ∈ cues, c.TimesOk := by
  have hitems : Decodes r cues ↔
      ((if trailer.isSome then cues else cues.dropLast).filterMap Cue.found).map finishItem =
        cues.map Cue.item := by
    unfold Decodes
    simp only [decodeSubtitles_of_delivers takesFirst_decodedItem h, itemsOf_fileLines]
    exact ⟨fun heq => heq fun _ => filled, fun heq _ => heq⟩
  rw [hitems, List.map_filterMap]
  split_ifs with htrailer
  · rw [List.filterMap_eq_map_iff_forall_eq_some, and_iff_right (Or.inr htrailer)]
    exact forall₂_congr fun c _ => map_finishItem_found_iff c
  · rw [or_iff_left htrailer]
    constructor
    · intro heq
      have hle := List.length_filterMap_le (fun c : Cue => c.found.map finishItem) cues.dropLast
      rw [heq, List.length_map, List.length_dropLast] at hle
      have hnil : cues = [] := List.eq_nil_of_length_eq_zero (by omega)
      exact ⟨hnil, hnil ▸ fun _ hc => absurd hc List.not_mem_nil⟩
    · rintro ⟨rfl, -⟩
      rfl

/-- A time without hours. -/
def shortStamp (minutes seconds : ℕ) (hm : minutes < 60) (hs : seconds < 60) : Stamp where
  time := ⟨0, minutes, seconds, 0, (Nat.zero_le minutes).trans_lt (hm.trans (by decide)), hm, hs,
    (Nat.zero_le seconds).trans_lt (hs.trans (by decide))⟩
  hasHours := false
  hours_eq_zero := fun _ => rfl

theorem one_lt_sixty : 1 < 60 := by decide

theorem four_lt_sixty : 4 < 60 := by decide

theorem isBlank_of_mem_space : ∀ c ∈ [(32 : UInt8)], isBlank c = true := fun _ hc =>
  List.eq_of_mem_singleton hc ▸ rfl

theorem isBlank_of_mem_nil : ∀ c ∈ ([] : List UInt8).head?, isBlank c = true := fun _ hc =>
  absurd hc (Option.not_mem_none _)

/-- A cue of three seconds with the text `Hi`, behind the header. -/
def shortCue (minutes : ℕ) (h : minutes < 60) : Cue where
  lead := ⟨[[87, 69, 66, 86, 84, 84], []], by decide⟩
  start := shortStamp minutes 1 h one_lt_sixty
  before := [32]
  behind := [32]
  stop := shortStamp minutes 4 h four_lt_sixty
  settings := []
  texts := [[72, 105]]
  before_blank := isBlank_of_mem_space
  behind_blank := isBlank_of_mem_space
  settings_blank := isBlank_of_mem_nil
  isText := fun line hl => List.eq_of_mem_singleton hl ▸ by constructor <;> decide

/-- A reader of the file with the cue. -/
def shortReader (minutes : ℕ) (h : minutes < 60)
    (hlen : (joinLines (fileLines [shortCue minutes h] (some ⟨[], nofun⟩))).length ≤ LINE_LEN) :
    Reader :=
  inOneRead (fileLines [shortCue minutes h] (some ⟨[], nofun⟩)) (by simp [joinLines, fileLines])
    hlen

/-- A cue in the first minute. -/
theorem decodes_firstMinute :
    Decodes (shortReader 0 (by decide) (by decide +kernel)) [shortCue 0 (by decide)] ↔
      ([shortCue 0 (by decide)] = [] ∨ (some (⟨[], nofun⟩ : Remarks)).isSome) ∧
        ∀ c ∈ [shortCue 0 (by decide)], c.TimesOk :=
  decodes_cues_iff (delivers_inOneRead _ _ (by decide +kernel) (by decide +kernel))

/-- A cue in the second minute is shown an hour later. -/
theorem not_decodes_secondMinute : ¬ ∀ (r : Reader) (cues : List Cue) (trailer : Option Remarks),
    Delivers r (fileLines cues trailer) → Decodes r cues := by
  intro h
  have hdelivers : Delivers (shortReader 1 (by decide) (by decide +kernel))
      (fileLines [shortCue 1 (by decide)] (some ⟨[], nofun⟩)) :=
    delivers_inOneRead _ _ (by decide +kernel) (by decide +kernel)
  have hok := ((decodes_cues_iff hdelivers).mp (h _ _ _ hdelivers)).2 _ List.mem_cons_self
  exact absurd (hok.2 rfl) (by decide)

end WebVtt
end AmlSubtitle
