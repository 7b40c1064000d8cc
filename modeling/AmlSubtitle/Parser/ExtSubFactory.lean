import AmlSubtitle.Lib.Printed
import AmlSubtitle.Parser.ExtSubObjects

/-!
# `parser/ExtParser/ExtSubFactory.cpp`: the format of a subtitle file

`detect` reads at most a hundred lines, and asks of each of them a chain of questions.  The first
one that is answered tells the format.

* `detectLine` is the chain, `detect` the loop.  The XML formats are told apart by a library for
  XML, so that `detectXml` is a parameter.
* `detect_of_delivers`: the first line that tells a format decides.
* `sscanf_numeral` and `sscanf_letter`: the questions that a line fails with its first character.
-/

namespace AmlSubtitle
namespace ExtSubFactory

open Scanf ExtSubStreamReader TextSubtitle

/-- `ExtSubtitleType`, as far as `detect` returns it. -/
inductive Format where
  | SUB_INVALID
  | SUB_MICRODVD
  | SUB_SUBRIP
  | SUB_SUBVIEWER
  | SUB_SAMI
  | SUB_VPLAYER
  | SUB_RT
  | SUB_SSA
  | SUB_PJS
  | SUB_MPSUB
  | SUB_AQTITLE
  | SUB_SUBVIEWER2
  | SUB_SUBVIEWER3
  | SUB_SUBRIP09
  | SUB_JACOSUB
  | SUB_MPL1
  | SUB_MPL2
  | SUB_XML
  | SUB_TTML
  | SUB_LRC
  | SUB_WEBVTT
  | SUB_IDXSUB
  deriving DecidableEq, Repr

/-! ## The questions about a line -/

/-- What `sscanf` returns, where it is not negative. -/
def sscanf (format : List Directive) (line : List UInt8) : ℕ := (scan format line).length

/-- `strstr` finds the needle. -/
def strstr (needle line : List UInt8) : Bool := decide (needle <:+: line)

/-- `strncmp` or `memcmp` with the whole needle, which has no null. -/
def startsWith (needle line : List UInt8) : Bool := decide (needle <+: line)

/-- A letter of a format for each letter of a text. -/
def letters (text : List UInt8) : List Directive := text.map Directive.literal

/-- `"%d:%d:%d"`. -/
def clock : List Directive := [.int, .literal 58, .int, .literal 58, .int]

/-- A time of day, as `clock` reads it. -/
structure TimeOfDay where
  hours : Numeral
  minutes : Numeral
  seconds : Numeral
  lt : hours.value * 360000 + minutes.value * 6000 + seconds.value * 100 < 2 ^ 31

/-- The time in hundredths of a second. -/
def TimeOfDay.value (t : TimeOfDay) : ℕ :=
  t.hours.value * 360000 + t.minutes.value * 6000 + t.seconds.value * 100

/-- The pieces of the time. -/
def TimeOfDay.pieces (t : TimeOfDay) : List Piece :=
  [.number t.hours, .letter 58, .number t.minutes, .letter 58, .number t.seconds]

/-- What is assigned of the time. -/
def TimeOfDay.values (t : TimeOfDay) : List Value :=
  [.int t.hours.value, .int t.minutes.value, .int t.seconds.value]

/-- A time in hundredths of a second, in an `int`. -/
def centiseconds (a1 a2 a3 : ℤ) : ℤ := Words.asSigned 32 (a1 * 360000 + a2 * 6000 + a3 * 100)

theorem centiseconds_value (t : TimeOfDay) :
    centiseconds t.hours.value t.minutes.value t.seconds.value = t.value := by
  have hlt := t.lt
  have hsigned := Words.asSigned_of_lt (w := 32) (n := t.value) (by rw [TimeOfDay.value]; omega)
  rw [centiseconds, ← hsigned, TimeOfDay.value]
  push_cast
  rfl

/-- The time is read back, and the format goes on behind it. -/
theorem scan_clock (t : TimeOfDay) (format : List Directive) {rest : List UInt8}
    (hrest : ∀ c ∈ rest.head?, isDigit c = false) :
    scan (clock ++ format) (written t.pieces ++ rest) = t.values ++ scan format rest :=
  scan_pieces t.pieces format
    (separated_number rfl (separated_number rfl ⟨hrest, trivial⟩))

/-- `"%d:%d:%d.%d"`. -/
def clockDot : List Directive := clock ++ [.literal 46, .int]

/-- `"%d:%d:%d,%d"`. -/
def clockComma : List Directive := clock ++ [.literal 44, .int]

/-- `"%d:%d:%d%[,.:]%d"`. -/
def clockMark : List Directive := clock ++ [.oneOf [44, 46, 58], .int]

/-- `%c` at the end of a format: any character.  Its value is not looked at but for its first
character. -/
def char : Directive := .noneOf []

/-- `{%d}{%d}`. -/
def microdvd : List Directive :=
  [.literal 123, .int, .literal 125, .literal 123, .int, .literal 125]

/-- `{%d}{}`. -/
def microdvdOpen : List Directive :=
  [.literal 123, .int, .literal 125, .literal 123, .literal 125]

/-- `WEBVTT`. -/
def webvtt : List UInt8 := [87, 69, 66, 86, 84, 84]

/-- `%d,%d,%d`. -/
def mpl1 : List Directive := [.int, .literal 44, .int, .literal 44, .int]

/-- `[%d][%d]`. -/
def mpl2 : List Directive := [.literal 91, .int, .literal 93, .literal 91, .int, .literal 93]

/-- `%d:%d:%d.%d,%d:%d:%d.%d`. -/
def subrip : List Directive := clockDot ++ [.literal 44] ++ clockDot

/-- `%d:%d:%d%[,.:]%d --> %d:%d:%d%[,.:]%d`. -/
def subviewer : List Directive :=
  clockMark ++ [.blank, .literal 45, .literal 45, .literal 62, .blank] ++ clockMark

/-- `{T %d:%d:%d:%d`. -/
def subviewer2 : List Directive :=
  [.literal 123, .literal 84, .blank] ++ clock ++ [.literal 58, .int]

/-- `%d  %d:%d:%d,%d  %d:%d:%d,%d`. -/
def subviewer3 : List Directive := [.int, .blank] ++ clockComma ++ [.blank] ++ clockComma

/-- `<SAMI>`. -/
def sami : List UInt8 := [60, 83, 65, 77, 73, 62]

/-- `<sami>`. -/
def samiLower : List UInt8 := [60, 115, 97, 109, 105, 62]

/-- `%d:%d:%d.%d %d:%d:%d.%d`. -/
def jacosub : List Directive := clockDot ++ [.blank] ++ clockDot

/-- `@%d @%d`. -/
def jacosubAt : List Directive := [.literal 64, .int, .blank, .literal 64, .int]

/-- `[%d:%d.%d:`. -/
def lrc : List Directive :=
  [.literal 91, .int, .literal 58, .int, .literal 46, .int, .literal 58]

/-- `<?xml`. -/
def xmlDeclaration : List UInt8 := [60, 63, 120, 109, 108]

/-- `<tt`. -/
def ttElement : List UInt8 := [60, 116, 116]

/-- `Dialogue: Marked`. -/
def dialogueMarked : List UInt8 :=
  [68, 105, 97, 108, 111, 103, 117, 101, 58, 32, 77, 97, 114, 107, 101, 100]

/-- `Dialogue: `. -/
def dialogue : List UInt8 := [68, 105, 97, 108, 111, 103, 117, 101, 58, 32]

/-- `%d,%d,\"%c`. -/
def pjs : List Directive := [.int, .literal 44, .int, .literal 44, .literal 34, char]

/-- `%d,%d, \"%c`. -/
def pjsBlank : List Directive := [.int, .literal 44, .int, .literal 44, .blank, .literal 34, char]

/-- `FORMAT=`. -/
def formatEq : List UInt8 := [70, 79, 82, 77, 65, 84, 61]

/-- `TIM`. -/
def tim : List UInt8 := [84, 73, 77]

/-- `FORMAT=TIM%c`, with `E` for the last letter. -/
def isFormatTime (line : List UInt8) : Bool :=
  match scan (letters formatEq ++ letters tim ++ [char]) line with
  | [.text t] => t.head? = some 69
  | _ => false

/-- `-->>`. -/
def aqtitle : List UInt8 := [45, 45, 62, 62]

/-- `[%d:%d:%d]`. -/
def subrip09 : List Directive := .literal 91 :: (clock ++ [.literal 93])

/-- `VobSub index file`. -/
def vobSubIndexFile : List UInt8 :=
  [86, 111, 98, 83, 117, 98, 32, 105, 110, 100, 101, 120, 32, 102, 105, 108, 101]

/-- `timestamp:`. -/
def timestamp : List UInt8 := [116, 105, 109, 101, 115, 116, 97, 109, 112, 58]

/-- `{QTtext}`. -/
def qtText : List UInt8 := [123, 81, 84, 116, 101, 120, 116, 125]

/-- `{QTText}`. -/
def qtTextUpper : List UInt8 := [123, 81, 84, 84, 101, 120, 116, 125]

/-- The body of the loop of `detect`: what the line tells, if it tells something. -/
def detectLine (detectXml : Format) (line : List UInt8) : Option Format :=
  if sscanf microdvd line = 2 then some .SUB_MICRODVD
  else if sscanf microdvdOpen line = 1 then some .SUB_MICRODVD
  else if startsWith webvtt line then some .SUB_WEBVTT
  else if sscanf mpl1 line = 3 then some .SUB_MPL1
  else if sscanf mpl2 line = 2 then some .SUB_MPL2
  else if sscanf subrip line = 8 then some .SUB_SUBRIP
  else if sscanf subviewer line = 10 then some .SUB_SUBVIEWER
  else if sscanf subviewer2 line = 4 then some .SUB_SUBVIEWER2
  else if sscanf subviewer3 line = 9 then some .SUB_SUBVIEWER3
  else if strstr sami line || strstr samiLower line then some .SUB_SAMI
  else if sscanf jacosub line = 8 then some .SUB_JACOSUB
  else if sscanf jacosubAt line = 2 then some .SUB_JACOSUB
  else if sscanf (clock ++ [.literal 58]) line = 3 then some .SUB_VPLAYER
  else if sscanf lrc line = 3 then some .SUB_LRC
  else if sscanf (clock ++ [.blank]) line = 3 then some .SUB_VPLAYER
  else if strstr xmlDeclaration line then some detectXml
  else if strstr ttElement line then some .SUB_TTML
  else if line.head? = some 60 then some .SUB_RT
  else if startsWith dialogueMarked line then some .SUB_SSA
  else if startsWith dialogue line then some .SUB_SSA
  else if sscanf pjs line = 3 then some .SUB_PJS
  else if sscanf pjsBlank line = 3 then some .SUB_PJS
  else if sscanf (letters formatEq ++ [.int]) line = 1 then some .SUB_MPSUB
  else if isFormatTime line then some .SUB_MPSUB
  else if strstr aqtitle line then some .SUB_AQTITLE
  else if sscanf subrip09 line = 3 then some .SUB_SUBRIP09
  else if strstr vobSubIndexFile line || startsWith timestamp line then some .SUB_IDXSUB
  else if sscanf subrip09 line = 3 then some .SUB_SUBRIP09
  else if strstr qtText line || strstr qtTextUpper line then some .SUB_INVALID
  else none

/-! ## The loop over the lines -/

/-- The loop of `detect` from `maxLineDetect = 100 - n` on; `stack i` is what the line buffer has
in the `i`-th round, before it is set to zeros. -/
def detectLoop (detectXml : Format) : ℕ → Reader → (ℕ → Memory) → Format
  | 0, _, _ => .SUB_INVALID
  | n + 1, r, stack =>
    match getLine r (clear LINE_LEN (stack 0)) with
    | (none, _) => .SUB_INVALID
    | (some line, r) =>
      match detectLine detectXml line.string with
      | some format => format
      | none => detectLoop detectXml n r fun i => stack (i + 1)

/-- `detect`. -/
def detect (detectXml : Format) (r : Reader) (stack : ℕ → Memory) : Format :=
  detectLoop detectXml 100 r stack

theorem detectLoop_of_delivers {xml format : Format} {line : List UInt8}
    (hline : detectLine xml line = some format) (rest : List (List UInt8)) :
    ∀ (before : List (List UInt8)) (n : ℕ) {r : Reader} (stack : ℕ → Memory),
      Delivers r (before ++ line :: rest) → before.length < n →
      (∀ l ∈ before, detectLine xml l = none) → detectLoop xml n r stack = format := by
  intro before
  induction before with
  | nil =>
    intro n r stack h hlt _
    obtain ⟨n, rfl⟩ := Nat.exists_eq_succ_of_ne_zero (Nat.ne_zero_of_lt hlt)
    obtain ⟨m, r', hget, hm, -⟩ := h (clear LINE_LEN (stack 0))
    rw [detectLoop, hget]
    dsimp only
    rw [hm, hline]
  | cons l before ih =>
    intro n r stack h hlt hbefore
    obtain ⟨n, rfl⟩ := Nat.exists_eq_succ_of_ne_zero (Nat.ne_zero_of_lt hlt)
    obtain ⟨m, r', hget, hm, hrest⟩ := h (clear LINE_LEN (stack 0))
    rw [detectLoop, hget]
    dsimp only
    rw [hm, hbefore l List.mem_cons_self]
    exact ih n _ hrest (Nat.lt_of_succ_lt_succ hlt) fun l' hl' =>
      hbefore l' (List.mem_cons_of_mem l hl')

/-- **The first line that tells a format decides**, if it is one of the first hundred. -/
theorem detect_of_delivers {xml format : Format} {before rest : List (List UInt8)}
    {line : List UInt8} {r : Reader} (h : Delivers r (before ++ line :: rest))
    (hline : detectLine xml line = some format) (hbefore : ∀ l ∈ before, detectLine xml l = none)
    (hlt : before.length < 100) (stack : ℕ → Memory) : detect xml r stack = format :=
  detectLoop_of_delivers hline rest before 100 stack h hlt hbefore

theorem detect_of_first {xml format : Format} {rest : List (List UInt8)} {line : List UInt8}
    {r : Reader} (h : Delivers r (line :: rest)) (hline : detectLine xml line = some format)
    (stack : ℕ → Memory) : detect xml r stack = format :=
  @detect_of_delivers xml format [] rest line r h hline (fun _ hl => absurd hl List.not_mem_nil)
    (by decide) stack

/-! ## Lines that tell nothing -/

/-- No more values are assigned than the format has. -/
theorem sscanf_le (format : List Directive) (line : List UInt8) :
    sscanf format line ≤ conversions format := by
  have h := scan_append format [] line
  rw [List.append_nil] at h
  rcases h with ⟨values, rest, hlen, -, heq⟩ | hle
  · rw [sscanf, heq, scan, List.append_nil, hlen]
  · exact hle

/-- A line that tells nothing has no times and no arrow of the formats that may have a header. -/
theorem not_told {xml : Format} {line : List UInt8} (h : detectLine xml line = none) :
    sscanf subrip line ≠ 8 ∧ sscanf subrip09 line ≠ 3 ∧ strstr aqtitle line = false := by
  have hite : ∀ {p : Prop} [Decidable p] {a : Format} {b : Option Format},
      (if p then some a else b) = none → ¬ p ∧ b = none := by
    intro p _ a b hp
    split_ifs at hp with hc
    exact ⟨hc, hp⟩
  rw [detectLine] at h
  iterate 5 replace h := (hite h).2
  have hsubrip := (hite h).1
  iterate 19 replace h := (hite h).2
  have haqtitle := (hite h).1
  exact ⟨hsubrip, (hite (hite h).2).1, (Bool.not_eq_true _).mp haqtitle⟩

/-! ## Questions that the first characters fail -/

/-- A question that begins with another character than a number. -/
theorem sscanf_numeral {c : UInt8} (h : isDigit c = false) (format : List Directive) (n : Numeral)
    (s : List UInt8) : sscanf (.literal c :: format) (n.digits ++ s) = 0 :=
  congrArg List.length (scan_literal_numeral h format n s)

/-- A question that begins with another character. -/
theorem sscanf_letter {c d : UInt8} (h : d ≠ c) (format : List Directive) (s : List UInt8) :
    sscanf (.literal c :: format) (d :: s) = 0 :=
  congrArg List.length (scan_literal_ne h format s)

/-- A question that begins with a number. -/
theorem sscanf_int {c : UInt8} (hspace : isSpace c = false) (hdigit : isDigit c = false)
    (h45 : c ≠ 45) (h43 : c ≠ 43) (format : List Directive) (s : List UInt8) :
    sscanf (.int :: format) (c :: s) = 0 :=
  congrArg List.length (scan_int_ne hspace hdigit h45 h43 format s)

theorem startsWith_numeral {c : UInt8} (h : isDigit c = false) (needle : List UInt8) (n : Numeral)
    (s : List UInt8) : startsWith (c :: needle) (n.digits ++ s) = false := by
  obtain ⟨d, ds, hds, hd⟩ := n.exists_cons
  refine decide_eq_false fun hh => ?_
  rw [hds, List.cons_append, List.cons_prefix_cons] at hh
  rw [hh.1, hd] at h
  exact absurd h (by decide)

theorem startsWith_letter {c d : UInt8} (h : c ≠ d) (needle s : List UInt8) :
    startsWith (c :: needle) (d :: s) = false :=
  decide_eq_false fun hh => h (List.cons_prefix_cons.mp hh).1

/-- What has no `<` has no tag. -/
theorem strstr_of_notMem {c : UInt8} {line : List UInt8} (h : c ∉ line) (needle : List UInt8) :
    strstr (c :: needle) line = false :=
  decide_eq_false fun hh => h (hh.subset List.mem_cons_self)

/-- No question about a tag is answered. -/
structure Untagged (line : List UInt8) : Prop where
  sami : strstr sami line = false
  samiLower : strstr samiLower line = false
  xml : strstr xmlDeclaration line = false
  tt : strstr ttElement line = false

theorem untagged_of_notMem {line : List UInt8} (h : 60 ∉ line) : Untagged line where
  sami := strstr_of_notMem h _
  samiLower := strstr_of_notMem h _
  xml := strstr_of_notMem h _
  tt := strstr_of_notMem h _

/-- Any text that is not empty has a character. -/
theorem scan_char {t : List UInt8} (h : t ≠ []) : scan [char] t = [.text t] := by
  have hscan : scan [char] (t ++ []) = [.text t] :=
    scan_written (separated_without h fun _ _ => List.not_mem_nil)
  rwa [List.append_nil] at hscan

/-! ## Lines that begin with a number -/

/-- A number that no colon follows is no time. -/
theorem sscanf_clock {n : Numeral} {s : List UInt8}
    (h : ∀ c ∈ s.head?, isDigit c = false ∧ c ≠ 58) (format : List Directive) :
    sscanf (clock ++ format) (n.digits ++ s) = 1 := by
  have hformat : clock ++ format =
      .int :: .literal 58 :: ([.int, .literal 58, .int] ++ format) := rfl
  rw [sscanf, hformat, scan_int_numeral n fun c hc => (h c hc).1]
  cases s with
  | nil => rfl
  | cons c s =>
    rw [scan_literal_ne (h c rfl).2]
    rfl

/-- **The questions about a line that begins with a digit**, if it is no time and its text tells no
other format. -/
theorem detectLine_digit (xml : Format) {d : UInt8} {s : List UInt8} (hd : isDigit d = true)
    (hclock : ∀ format, sscanf (clock ++ format) (d :: s) = 1) (htags : Untagged (d :: s)) :
    detectLine xml (d :: s) =
      if sscanf mpl1 (d :: s) = 3 then some .SUB_MPL1
      else if sscanf subviewer3 (d :: s) = 9 then some .SUB_SUBVIEWER3
      else if sscanf pjs (d :: s) = 3 then some .SUB_PJS
      else if sscanf pjsBlank (d :: s) = 3 then some .SUB_PJS
      else if strstr aqtitle (d :: s) then some .SUB_AQTITLE
      else if strstr vobSubIndexFile (d :: s) then some .SUB_IDXSUB
      else if strstr qtText (d :: s) || strstr qtTextUpper (d :: s) then some .SUB_INVALID
      else none := by
  have hne : ∀ c, isDigit c = false → d ≠ c := fun c hc hdc => by
    rw [← hdc, hd] at hc
    exact absurd hc (by decide)
  have hletter : ∀ c format, isDigit c = false → sscanf (.literal c :: format) (d :: s) = 0 :=
    fun c format hc => sscanf_letter (hne c hc) _ _
  have hstarts : ∀ c needle, isDigit c = false → startsWith (c :: needle) (d :: s) = false :=
    fun c needle hc => startsWith_letter (hne c hc).symm _ _
  have htail : ∀ format tail, format = clock ++ tail → sscanf format (d :: s) = 1 :=
    fun format tail hformat => by rw [hformat, hclock]
  have hsubrip : sscanf subrip (d :: s) = 1 :=
    htail _ (.literal 46 :: .int :: .literal 44 :: clockDot) rfl
  have hsubviewer : sscanf subviewer (d :: s) = 1 :=
    htail _ (.oneOf [44, 46, 58] :: .int :: .blank :: .literal 45 :: .literal 45 ::
      .literal 62 :: .blank :: clockMark) rfl
  have hjacosub : sscanf jacosub (d :: s) = 1 :=
    htail _ (.literal 46 :: .int :: .blank :: clockDot) rfl
  have hmpsub : sscanf (letters formatEq ++ [.int]) (d :: s) = 0 :=
    sscanf_letter (hne 70 rfl) (letters formatEq.tail ++ [Directive.int]) s
  have htime : isFormatTime (d :: s) = false := by
    have hscan : scan (letters formatEq ++ letters tim ++ [char]) (d :: s) = [] :=
      scan_literal_ne (hne 70 rfl) (letters formatEq.tail ++ letters tim ++ [char]) s
    rw [isFormatTime, hscan]
  have hmicrodvd : sscanf microdvd (d :: s) = 0 := hletter _ _ rfl
  have hopen : sscanf microdvdOpen (d :: s) = 0 := hletter _ _ rfl
  have hmpl2 : sscanf mpl2 (d :: s) = 0 := hletter _ _ rfl
  have hsubviewer2 : sscanf subviewer2 (d :: s) = 0 := hletter 123 _ rfl
  have hat : sscanf jacosubAt (d :: s) = 0 := hletter _ _ rfl
  have hlrc : sscanf lrc (d :: s) = 0 := hletter _ _ rfl
  have hsubrip09 : sscanf subrip09 (d :: s) = 0 := hletter _ _ rfl
  have hwebvtt : startsWith webvtt (d :: s) = false := hstarts _ _ rfl
  have hmarked : startsWith dialogueMarked (d :: s) = false := hstarts _ _ rfl
  have hdialogue : startsWith dialogue (d :: s) = false := hstarts _ _ rfl
  have htimestamp : startsWith timestamp (d :: s) = false := hstarts _ _ rfl
  have hhead : ¬ (d :: s).head? = some 60 := fun hh => hne 60 rfl (Option.some.inj hh)
  rw [detectLine, hmicrodvd, hopen, hwebvtt, hmpl2, hsubrip, hsubviewer, hsubviewer2, htags.sami,
    htags.samiLower, hjacosub, hat, hclock, hlrc, hclock, htags.xml, htags.tt,
    if_neg hhead, hmarked, hdialogue, hmpsub, htime, hsubrip09, htimestamp]
  simp only [OfNat.zero_ne_ofNat, OfNat.one_ne_ofNat, zero_ne_one, Bool.false_eq_true,
    Bool.or_false, if_false]

/-- The same, of a line that begins with a number. -/
theorem detectLine_number (xml : Format) {n : Numeral} {s : List UInt8}
    (h : ∀ c ∈ s.head?, isDigit c = false ∧ c ≠ 58) (htags : Untagged (n.digits ++ s)) :
    detectLine xml (n.digits ++ s) =
      if sscanf mpl1 (n.digits ++ s) = 3 then some .SUB_MPL1
      else if sscanf subviewer3 (n.digits ++ s) = 9 then some .SUB_SUBVIEWER3
      else if sscanf pjs (n.digits ++ s) = 3 then some .SUB_PJS
      else if sscanf pjsBlank (n.digits ++ s) = 3 then some .SUB_PJS
      else if strstr aqtitle (n.digits ++ s) then some .SUB_AQTITLE
      else if strstr vobSubIndexFile (n.digits ++ s) then some .SUB_IDXSUB
      else if strstr qtText (n.digits ++ s) || strstr qtTextUpper (n.digits ++ s) then
        some .SUB_INVALID
      else none := by
  have hclock : ∀ format, sscanf (clock ++ format) (n.digits ++ s) = 1 := sscanf_clock h
  obtain ⟨d, ds, hds, hd⟩ := n.exists_cons
  rw [hds, List.cons_append] at htags hclock ⊢
  exact detectLine_digit xml hd hclock htags

end ExtSubFactory
end AmlSubtitle
