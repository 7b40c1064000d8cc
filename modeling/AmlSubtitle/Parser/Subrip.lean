import AmlSubtitle.Parser.ExtSubFactory
import AmlSubtitle.Lib.Rewrite

/-!
# `parser/ExtParser/Subrip.cpp`: files with a line of times and a line of text

`decodedItem` reads lines up to one that has the times of a cue, and then the line of its text,
which it cuts at bars and at `[br]`.

* `splitText` is the loop that cuts the text; `splitText_joined` puts the parts together again.
* `items`: the cues of some lines, `takesFirst_decodedItem`: a call takes the first of them.
* `decodes_subrip`: a file of such cues, with any lines between them that have no times, is told by
  `detect`, and it is decoded to its cues.
-/

namespace AmlSubtitle
namespace Subrip

open Words Scanf ExtSubStreamReader TextSubtitle ExtSubFactory

/-! ## The decoder -/

/-- A time in hundredths of a second. -/
def centiseconds (a1 a2 a3 a4 : ℤ) : ℤ := asSigned 32 (a1 * 360000 + a2 * 6000 + a3 * 100 + a4)

/-- The times of a line that has all eight fields. -/
def scanTimes (line : List UInt8) : Option (ℤ × ℤ) :=
  match scan subrip line with
  | [.int a1, .int a2, .int a3, .int a4, .int b1, .int b2, .int b3, .int b4] =>
    some (centiseconds a1 a2 a3 a4, centiseconds b1 b2 b3 b4)
  | _ => none

/-- `[br]`. -/
def br : List UInt8 := [91, 98, 114, 93]

/-- The loop that cuts the text.  The first `skip` bytes are the rest of a `[br]`. -/
def splitText : ℕ → List UInt8 → List (List UInt8)
  | _, [] => [[]]
  | skip + 1, _ :: s => splitText skip s
  | 0, c :: s =>
    if c = 13 ∨ c = 10 then [[]]
    else if c = 124 then [] :: splitText 0 s
    else if br <+: c :: s then [] :: splitText 3 s
    else
      match splitText 0 s with
      | [] => [[c]]
      | l :: ls => (c :: l) :: ls

/-- The loop of `decodedItem`. -/
def findItem : ℕ → Decoder
  | 0, r, _ => (none, r)
  | fuel + 1, r, line =>
    match getLine r line with
    | (none, r) => (none, r)
    | (some line, r) =>
      match scanTimes line.string with
      | none => findItem fuel r line
      | some (start, stop) =>
        match getLine r line with
        | (none, r) => (none, r)
        | (some line, r) => (some ⟨start, stop, splitText 0 line.string⟩, r)

/-- `decodedItem`. -/
def decodedItem : Decoder := fun r line => findItem ((toRead r).length + 1) r line

/-! ## The cues of some lines -/

/-- The cues of some lines. -/
def items : List (List UInt8) → List ExtSubItem
  | [] => []
  | line :: lines =>
    match scanTimes line with
    | none => items lines
    | some (start, stop) =>
      match lines with
      | [] => []
      | text :: lines => ⟨start, stop, splitText 0 text⟩ :: items lines

theorem items_cons_none {line : List UInt8} (h : scanTimes line = none)
    (lines : List (List UInt8)) : items (line :: lines) = items lines := by
  rw [items.eq_def]
  dsimp only
  rw [h]

theorem items_cons_some {line : List UInt8} {start stop : ℤ}
    (h : scanTimes line = some (start, stop)) (text : List UInt8) (lines : List (List UInt8)) :
    items (line :: text :: lines) = ⟨start, stop, splitText 0 text⟩ :: items lines := by
  rw [items.eq_def]
  dsimp only
  rw [h]

theorem items_append {gap : List (List UInt8)} (h : ∀ l ∈ gap, scanTimes l = none)
    (lines : List (List UInt8)) : items (gap ++ lines) = items lines := by
  induction gap with
  | nil => rfl
  | cons l gap ih =>
    rw [List.cons_append, items_cons_none (h l List.mem_cons_self),
      ih fun l' hl' => h l' (List.mem_cons_of_mem l hl')]

/-- **A call takes the first cue** of the lines that are delivered. -/
theorem takesFirst_decodedItem : TakesFirst decodedItem items := by
  have hfuel : ∀ (lines : List (List UInt8)) (r : Reader) (s : Memory) (fuel : ℕ),
      Delivers r lines → lines.length < fuel →
      items lines = [] ∧ (findItem fuel r s).1 = none ∨
      ∃ item rest r', items lines = item :: items rest ∧ rest.length < lines.length ∧
        findItem fuel r s = (some item, r') ∧ Delivers r' rest := by
    intro lines
    induction lines with
    | nil =>
      intro r s fuel h hlt
      obtain ⟨fuel, rfl⟩ := Nat.exists_eq_succ_of_ne_zero (Nat.ne_zero_of_lt hlt)
      obtain ⟨r', hget⟩ := h.nil s
      refine .inl ⟨rfl, ?_⟩
      rw [findItem, hget]
    | cons line lines ih =>
      intro r s fuel h hlt
      obtain ⟨fuel, rfl⟩ := Nat.exists_eq_succ_of_ne_zero (Nat.ne_zero_of_lt hlt)
      obtain ⟨m, r', hget, hm, hrest⟩ := h s
      rw [findItem, hget]
      dsimp only
      rw [hm]
      cases htimes : scanTimes line with
      | none =>
        rw [items_cons_none htimes]
        rcases ih r' m fuel hrest (Nat.lt_of_succ_lt_succ hlt) with hnone |
          ⟨item, rest, r'', hitems, hlen, hfound⟩
        · exact .inl hnone
        · exact .inr ⟨item, rest, r'', hitems, hlen.trans (Nat.lt_succ_self _), hfound⟩
      | some times =>
        obtain ⟨start, stop⟩ := times
        cases lines with
        | nil =>
          obtain ⟨r'', hnone⟩ := hrest.nil m
          refine .inl ⟨?_, ?_⟩
          · rw [items.eq_def]
            dsimp only
            rw [htimes]
          · dsimp only
            rw [hnone]
        | cons text lines =>
          obtain ⟨m', r'', htext, hm', hrest'⟩ := hrest m
          refine .inr ⟨_, lines, r'', items_cons_some htimes text lines, ?_, ?_, hrest'⟩
          · exact Nat.lt_succ_of_lt (Nat.lt_succ_self _)
          · dsimp only
            rw [htext]
            dsimp only
            rw [hm']
  exact fun r lines s h => hfuel lines r s _ h (Nat.lt_succ_of_le h.length_le)

/-! ## Texts -/

/-- A part of a text: it has no newline and nothing that a text is cut at. -/
structure IsPart (part : List UInt8) : Prop where
  no_newline : ∀ c ∈ part, c ≠ 13 ∧ c ≠ 10
  no_bar : 124 ∉ part
  no_br : ¬ br <:+: part

/-- A part behind a bar, or behind a `[br]`. -/
def behind (p : Bool × List UInt8) : List UInt8 := (if p.1 then [124] else br) ++ p.2

/-- A text of some parts. -/
def joined (first : List UInt8) (others : List (Bool × List UInt8)) : List UInt8 :=
  first ++ others.flatMap behind

theorem splitText_bar (s : List UInt8) : splitText 0 (124 :: s) = [] :: splitText 0 s := by
  rw [splitText, if_neg (by decide), if_pos rfl]

theorem splitText_br (s : List UInt8) : splitText 0 (br ++ s) = [] :: splitText 0 s := by
  have hcut : ∀ t, br <+: 91 :: t → splitText 0 (91 :: t) = [] :: splitText 3 t := fun t ht => by
    rw [splitText, if_neg (by decide), if_neg (by decide), if_pos ht]
  exact hcut (98 :: 114 :: 93 :: s) ⟨s, rfl⟩

theorem splitText_behind (p : Bool × List UInt8) (s : List UInt8) :
    splitText 0 (behind p ++ s) = [] :: splitText 0 (p.2 ++ s) := by
  obtain ⟨bar, part⟩ := p
  cases bar
  · exact (congrArg (splitText 0) (List.append_assoc br part s)).trans (splitText_br _)
  · exact splitText_bar _

/-- A `[br]` does not begin in a part and end behind it. -/
theorem not_br_prefix {part s : List UInt8} {c : UInt8} (h : ¬ br <+: part) (hne : part ≠ [])
    (hc : c = 124 ∨ c = 91) : ¬ br <+: part ++ c :: s := by
  intro hbr
  obtain ⟨d, part, rfl⟩ := List.exists_cons_of_ne_nil hne
  rw [List.cons_append, br, List.cons_prefix_cons] at hbr
  have hmem : c ∉ ([98, 114, 93] : List UInt8) := by
    rcases hc with rfl | rfl <;> decide
  refine h ?_
  rw [br, List.cons_prefix_cons]
  exact ⟨hbr.1, Rewrite.prefix_of_prefix_append_cons hmem hbr.2⟩

/-- **The first part of a text** is cut off where the next one begins. -/
theorem splitText_part {part rest : List UInt8} (hpart : IsPart part)
    (hrest : ∀ c ∈ rest.head?, c = 124 ∨ c = 91) {l : List UInt8} {ls : List (List UInt8)}
    (h : splitText 0 rest = l :: ls) : splitText 0 (part ++ rest) = (part ++ l) :: ls := by
  induction part with
  | nil => exact h
  | cons c part ih =>
    have htail : IsPart part :=
      ⟨fun d hd => hpart.no_newline d (List.mem_cons_of_mem c hd),
        fun hbar => hpart.no_bar (List.mem_cons_of_mem c hbar),
        fun hbr => hpart.no_br (hbr.trans (List.suffix_cons c part).isInfix)⟩
    have hnewline : ¬ (c = 13 ∨ c = 10) := by
      have hc := hpart.no_newline c List.mem_cons_self
      exact not_or.mpr hc
    have hbar : c ≠ 124 := fun hc => hpart.no_bar (hc ▸ List.mem_cons_self)
    have hbr : ¬ br <+: c :: (part ++ rest) := by
      have hpre : ¬ br <+: c :: part := fun hh => hpart.no_br hh.isInfix
      cases rest with
      | nil => rwa [List.append_nil]
      | cons d rest => exact not_br_prefix hpre (List.cons_ne_nil c part) (hrest d rfl)
    rw [List.cons_append, splitText, if_neg hnewline, if_neg hbar, if_neg hbr, ih htail]
    rfl

/-- **A text is cut into its parts.** -/
theorem splitText_joined {first : List UInt8} {others : List (Bool × List UInt8)}
    (hfirst : IsPart first) (hothers : ∀ p ∈ others, IsPart p.2) :
    splitText 0 (joined first others) = first :: others.map Prod.snd := by
  have hhead : ∀ (others : List (Bool × List UInt8)),
      ∀ c ∈ (others.flatMap behind).head?, c = 124 ∨ c = 91 := by
    intro others c hc
    cases others with
    | nil => exact absurd hc (Option.not_mem_none _)
    | cons p others =>
      obtain ⟨bar, part⟩ := p
      cases bar
      · exact .inr (Option.some.inj hc).symm
      · exact .inl (Option.some.inj hc).symm
  induction others generalizing first with
  | nil =>
    have hcut : splitText 0 (first ++ []) = [first ++ []] :=
      splitText_part hfirst (hhead []) rfl
    rw [List.append_nil] at hcut
    rw [joined, List.flatMap_nil, List.append_nil]
    exact hcut
  | cons p others ih =>
    have hcut : splitText 0 ((p :: others).flatMap behind) = [] :: p.2 :: others.map Prod.snd := by
      rw [List.flatMap_cons, splitText_behind]
      exact congrArg _ (ih (hothers p List.mem_cons_self) fun q hq =>
        hothers q (List.mem_cons_of_mem p hq))
    have h := splitText_part hfirst (hhead (p :: others)) hcut
    rwa [List.append_nil] at h

/-! ## Files -/

/-- A time, as a cue has it. -/
structure Clock where
  hours : Numeral
  minutes : Numeral
  seconds : Numeral
  centis : Numeral
  lt : hours.value * 360000 + minutes.value * 6000 + seconds.value * 100 + centis.value < 2 ^ 31

/-- The time in hundredths of a second. -/
def Clock.value (t : Clock) : ℕ :=
  t.hours.value * 360000 + t.minutes.value * 6000 + t.seconds.value * 100 + t.centis.value

/-- `h:m:s.c`. -/
def Clock.pieces (t : Clock) : List Piece :=
  [.number t.hours, .letter 58, .number t.minutes, .letter 58, .number t.seconds, .letter 46,
    .number t.centis]

/-- A cue: the line of its times, the line of its text, and lines that have no times. -/
structure Cue where
  start : Clock
  stop : Clock
  first : List UInt8
  others : List (Bool × List UInt8)
  gap : List (List UInt8)
  isPart_first : IsPart first
  isPart_others : ∀ p ∈ others, IsPart p.2
  gap_untimed : ∀ l ∈ gap, sscanf subrip l < 8

/-- The pieces of the line of its times. -/
def Cue.pieces (cue : Cue) : List Piece := cue.start.pieces ++ (.letter 44 :: cue.stop.pieces)

/-- The lines of the cue. -/
def Cue.lines (cue : Cue) : List (List UInt8) :=
  written cue.pieces :: joined cue.first cue.others :: cue.gap

/-- The item of the cue. -/
def Cue.item (cue : Cue) : ExtSubItem where
  start := sub_ms2pts cue.start.value
  stop := sub_ms2pts cue.stop.value
  lines := (cue.first :: cue.others.map Prod.snd).map replaceLine

theorem centiseconds_value (t : Clock) : centiseconds t.hours.value t.minutes.value
    t.seconds.value t.centis.value = t.value := by
  have hlt := t.lt
  have hsigned := asSigned_of_lt (w := 32) (n := t.value) (by rw [Clock.value]; omega)
  rw [centiseconds, ← hsigned, Clock.value]
  push_cast
  rfl

theorem separated_clock (t : Clock) {pieces : List Piece} {rest : List UInt8}
    (h : Separated pieces rest) (hhead : ∀ c ∈ (written pieces ++ rest).head?, isDigit c = false) :
    Separated (t.pieces ++ pieces) rest :=
  separated_number rfl (separated_number rfl (separated_number rfl ⟨hhead, h⟩))

theorem scan_times (cue : Cue) :
    scan subrip (written cue.pieces) = cue.pieces.flatMap Piece.values := by
  have hstop : Separated cue.stop.pieces [] := by
    have h := @separated_clock cue.stop [] [] trivial
      fun _ hc => absurd hc (Option.not_mem_none _)
    rwa [List.append_nil] at h
  exact scan_written (separated_clock cue.start (separated_letter hstop)
    fun c hc => Option.some.inj hc ▸ rfl)

theorem scanTimes_written (cue : Cue) : scanTimes (written cue.pieces) =
    some ((cue.start.value : ℤ), (cue.stop.value : ℤ)) := by
  rw [scanTimes, scan_times, ← centiseconds_value, ← centiseconds_value]
  rfl

theorem scanTimes_of_lt {line : List UInt8} (h : sscanf subrip line < 8) :
    scanTimes line = none := by
  rw [scanTimes]
  split
  · next heq =>
    rw [sscanf, heq] at h
    exact absurd h (lt_irrefl 8)
  · rfl

/-- The line of the times tells the format. -/
theorem detectLine_times (xml : Format) (cue : Cue) :
    detectLine xml (written cue.pieces) = some .SUB_SUBRIP := by
  have hline : written cue.pieces = cue.start.hours.digits ++ 58 ::
      written (cue.pieces.drop 2) := rfl
  have hsubrip : sscanf subrip (written cue.pieces) = 8 := congrArg List.length (scan_times cue)
  have hmpl1 : sscanf mpl1 (written cue.pieces) = 1 := by
    rw [hline, sscanf, mpl1, scan_int_numeral _ (not_digit_cons rfl _), scan_literal_ne (by decide)]
    rfl
  rw [detectLine, hsubrip, hmpl1, hline, microdvd, sscanf_numeral rfl, if_neg (by decide),
    microdvdOpen, sscanf_numeral rfl, if_neg (by decide), webvtt, startsWith_numeral rfl,
    if_neg (by decide), if_neg (by decide), mpl2, sscanf_numeral rfl, if_neg (by decide),
    if_pos rfl]

/-- The items of a file. -/
theorem items_lines (cues : List Cue) :
    (items (cues.flatMap Cue.lines)).map finishItem = cues.map Cue.item := by
  induction cues with
  | nil => rfl
  | cons cue cues ih =>
    have hgap : items (cue.gap ++ cues.flatMap Cue.lines) = items (cues.flatMap Cue.lines) :=
      items_append (fun l hl => scanTimes_of_lt (cue.gap_untimed l hl)) _
    rw [List.flatMap_cons, Cue.lines, List.cons_append, List.cons_append,
      items_cons_some (scanTimes_written cue), hgap,
      splitText_joined cue.isPart_first cue.isPart_others, List.map_cons, ih]
    rfl

/-- **A file with a header is told by the times of its first cue, and decoded to its cues**: each
text is cut at its bars and `[br]`s, and lines between the cues are skipped. -/
theorem decodes_subrip {xml : Format} {header : List (List UInt8)} {cues : List Cue}
    (hne : cues ≠ []) (hheader : ∀ l ∈ header, detectLine xml l = none) (hlen : header.length < 100)
    (file : TextFile (header ++ cues.flatMap Cue.lines)) (n n' : ℕ) {source source' : List Chunk}
    (hsource : bytesOf source = file.content) (hsource' : bytesOf source' = file.content)
    (stack stack' : ℕ → Memory) :
    detect xml (create (file.content.take n) source) stack = .SUB_SUBRIP ∧
      decodeSubtitles decodedItem (create (file.content.take n') source') stack' =
        cues.map Cue.item := by
  have huntimed : ∀ l ∈ header, scanTimes l = none := fun l hl =>
    scanTimes_of_lt (lt_of_le_of_ne (sscanf_le subrip l) (not_told (hheader l hl)).1)
  constructor
  · obtain ⟨cue, cues, rfl⟩ := List.exists_cons_of_ne_nil hne
    exact detect_of_delivers (file.delivers n hsource) (detectLine_times xml cue) hheader hlen stack
  · rw [decodeSubtitles_of_delivers takesFirst_decodedItem (file.delivers n' hsource'),
      items_append huntimed, items_lines]

/-- A cue from the first second to the second, with two lines and an empty line behind it. -/
def subripExample : Cue where
  start := ⟨twoDigits 0, twoDigits 0, twoDigits 1, twoDigits 0, by decide⟩
  stop := ⟨twoDigits 0, twoDigits 0, twoDigits 2, twoDigits 0, by decide⟩
  first := [72, 105, 33]
  others := [(false, [72, 111, 33])]
  gap := [[]]
  isPart_first := ⟨by simp, by decide, by decide⟩
  isPart_others := by
    intro p hp
    rw [List.eq_of_mem_singleton hp]
    exact ⟨by simp, by decide, by decide⟩
  gap_untimed := by decide

theorem decodes_subripExample :
    decodeSubtitles decodedItem
        (create [] [⟨joinLines ([123] :: subripExample.lines), by decide, by decide⟩])
        (fun _ => ⟨0, []⟩) = [⟨90000, 180000, [[72, 105, 33], [72, 111, 33]]⟩] :=
  (@decodes_subrip .SUB_XML [[123]] [subripExample] (by decide) (by decide) (by decide)
    (TextFile.ofPlain _ (by decide) rfl) 0 0
    [⟨joinLines ([123] :: subripExample.lines), by decide, by decide⟩]
    [⟨joinLines ([123] :: subripExample.lines), by decide, by decide⟩] (List.append_nil _)
    (List.append_nil _) (fun _ => ⟨0, []⟩) (fun _ => ⟨0, []⟩)).2.trans (by decide)

end Subrip
end AmlSubtitle
