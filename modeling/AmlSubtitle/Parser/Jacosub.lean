import AmlSubtitle.Lib.Rewrite
import AmlSubtitle.Lib.Scanf
import AmlSubtitle.Parser.ExtSubCalls
import AmlSubtitle.Parser.ExtSubDelivery

/-!
# `parser/ExtParser/Jacosub.cpp`: the decoder of JACOsub files

The constructor reads the directives at the beginning of the file, up to the first line that has no
`#` in front, and rewinds the reader.  `decodedItem` reads lines up to one with the times of a cue.

* `parseHeaderInfo`, `create`: the constructor.  `rewindStream` keeps the buffer: what is in it
  behind the first line is read once more when the file is.
* `copyText`: the text of a cue as it is shown, where a line may go on in the next one.
* `Cue` is the line of a cue as a JACOsub file has it, and `Shows` is what is to be seen of a text.
* `decodesEachOnce_iff`: the cues of a file are decoded once each, in every way to read it, if there
  is only one.
-/

namespace AmlSubtitle
namespace Jacosub

open Words Scanf Rewrite ExtSubStreamReader TextSubtitle

/-! ## The header -/

/-- `isalpha`. -/
def isAlpha (c : UInt8) : Bool := (65 ≤ c && c ≤ 90) || (97 ≤ c && c ≤ 122)

/-- `toupper`. -/
def toUpper (c : UInt8) : UInt8 := if 97 ≤ c && c ≤ 122 then c - 32 else c

/-- The string at an offset of a buffer. -/
def stringAt (s : Memory) (p : ℕ) : List UInt8 := Lines.string (s.bytes.drop p)

/-- `strcpy` to an offset of a buffer. -/
def copyAt (s : Memory) (p : ℕ) (string : List UInt8) : Memory :=
  { s with bytes := s.bytes.take p ++ (string ++ 0 :: s.bytes.drop (p + string.length + 1)) }

/-- `mShift` and `mTimerRes`. -/
structure Settings where
  mShift : ℤ
  mTimerRes : ℤ
  deriving DecidableEq, Repr

/-- What `sscanf` returns for a format that begins with a number: `EOF` if the text ends in front of
it. -/
def result (format : List Directive) (s : List UInt8) : ℤ :=
  if s.dropWhile isSpace = [] then -1 else (scan format s).length

/-- A variable that `sscanf` may have assigned. -/
def valueAt (values : List Value) (i : ℕ) (old : ℤ) : ℤ :=
  match values[i]? with
  | some (.int z) => z
  | _ => old

/-- The time of `#S`, as hours, minutes and seconds, minutes and seconds, or seconds. -/
def scanShift (settings : Settings) (s : List UInt8) : Settings :=
  if result [.int] s = 0 then settings
  else
    let signed := valueAt (scan [.int] s) 0 0
    let inverter := if signed < 0 then -1 else 1
    let (hours, minutes, seconds, units) :=
      if result [.skipInt, .literal 58, .int] s = 0 then
        let v := scan [.int, .literal 46, .int] s
        (0, 0, valueAt v 0 0 * inverter, valueAt v 1 settings.mShift)
      else
        let minutes := valueAt (scan [.skipInt, .literal 58, .int] s) 0 0
        let toSeconds := [.skipInt, .literal 58, .skipInt, .literal 58]
        if result (toSeconds ++ [.int]) s = 0 then
          let v := scan [.int, .literal 58, .int, .literal 46, .int] s
          (0, valueAt v 0 minutes * inverter, valueAt v 1 0, valueAt v 2 settings.mShift)
        else
          (signed * inverter, minutes, valueAt (scan (toSeconds ++ [.int]) s) 0 0,
            valueAt (scan (toSeconds ++ [.skipInt, .literal 46, .int]) s) 0 settings.mShift)
    { settings with
      mShift := asSigned 32
        (((hours * 3600 + minutes * 60 + seconds) * settings.mTimerRes + units) * inverter) }

/-- A line of the header: `#S` is the shift, and `#T` the resolution of the times. -/
def headerLine (settings : Settings) (line : Memory) : Settings :=
  let delta := fun long => if isAlpha ((line.bytes.drop 2).headD 0) then long else 2
  let letter := toUpper ((line.bytes.drop 1).headD 0)
  if letter = 83 then scanShift settings (stringAt line (delta 6))
  else if letter = 84 then
    let v := scan [.unsigned] (stringAt line (delta 8))
    { settings with mTimerRes := asSigned 32 (valueAt v 0 settings.mTimerRes) }
  else settings

/-- The loop of `parseHeaderInfo`. -/
def parseHeader : ℕ → Settings → Reader → Memory → Settings × Reader
  | 0, settings, r, _ => (settings, r)
  | fuel + 1, settings, r, line =>
    match getLine r line with
    | (none, r) => (settings, r)
    | (some line, r) =>
      if line.bytes.headD 0 = 35 then parseHeader fuel (headerLine settings line) r line
      else (settings, r)

/-- `parseHeaderInfo`. -/
def parseHeaderInfo (settings : Settings) (r : Reader) (line : Memory) : Settings × Reader :=
  parseHeader ((toRead r).length + 1) settings r line

/-- The constructor: `source` and `again` are what the file gives to the reads before the reader is
rewound, and to those behind. -/
def create (header : List UInt8) (source again : List Chunk) (line : Memory) :
    Settings × Reader :=
  let (settings, r) := parseHeaderInfo ⟨0, 30⟩ (ExtSubStreamReader.create header source) line
  (settings, rewindStream r again)

/-! ## The times -/

/-- `"%u:%u:%u.%u"`. -/
def clockFormat : List Directive :=
  [.unsigned, .literal 58, .unsigned, .literal 58, .unsigned, .literal 46, .unsigned]

/-- `"%u:%u:%u.%u %u:%u:%u.%u %[^\n\r]"`. -/
def clockLine : List Directive :=
  clockFormat ++ .blank :: (clockFormat ++ [.blank, .noneOf [10, 13]])

/-- `"@%u @%u %[^\n\r]"`. -/
def frameLine : List Directive :=
  [.literal 64, .unsigned, .blank, .literal 64, .unsigned, .blank, .noneOf [10, 13]]

/-- A time in units of `mTimerRes`, with the shift. -/
def ticks (settings : Settings) (a1 a2 a3 a4 : ℤ) : ℕ :=
  asUnsigned 32 ((a1 * 3600 + a2 * 60 + a3) * settings.mTimerRes + a4 + settings.mShift)

/-- A time in hundredths of a second.  The quotient is a double whose integral part is exact: the
product has less than 40 bits. -/
def centiseconds (settings : Settings) (ticks : ℕ) : ℤ := ticks * 100 / settings.mTimerRes

/-- The times of a line and its text, if it has them. -/
def scanTimes (settings : Settings) (line : List UInt8) : Option (ℤ × ℤ × List UInt8) :=
  match scan clockLine line with
  | [.int a1, .int a2, .int a3, .int a4, .int b1, .int b2, .int b3, .int b4, .text text] =>
    some (centiseconds settings (ticks settings a1 a2 a3 a4),
      centiseconds settings (ticks settings b1 b2 b3 b4), text)
  | _ =>
    match scan frameLine line with
    | [.int a4, .int b4, .text text] =>
      some (centiseconds settings (ticks settings 0 0 0 a4),
        centiseconds settings (ticks settings 0 0 0 b4), text)
    | _ => none

/-! ## The text -/

/-- `isEolCharacter`. -/
def isEolCharacter (c : UInt8) : Bool := c = 13 || c = 10 || c = 0

/-- `trimSpace`, on the string in a buffer. -/
def trimSpace (s : Memory) : Memory :=
  let kept := (s.string.dropWhile isSpace).rdropWhile isSpace
  s.copy (kept ++ List.replicate (s.string.length + 1 - kept.length) 0)

/-- `removeComments`: the matches of `(\{([^}])*\})` are erased one by one. -/
def removeComments (s : List UInt8) : List UInt8 := exhaust (removeSpan [123] [125]) s

/-- `RDB`, `RDC`, `RLB` and `RLG`. -/
def skipped : List (List UInt8) := [[82, 68, 66], [82, 68, 67], [82, 76, 66], [82, 76, 71]]

/-- The directives in front of the text at `p`: where the text is now, unless the line is skipped,
and the buffers. -/
def takeDirective (line1 line2 directive : Memory) (p : ℕ) :
    Option ℕ × Memory × Memory × Memory :=
  let first := (line2.bytes.drop p).headD 0
  if isAlpha first || first = 91 then
    match scan [.word, .blank, .noneOf [10, 13]] (stringAt line2 p) with
    | [.text word, .text text] =>
      let upper := word.map toUpper
      if skipped.any (· <:+: upper) then
        (none, copyAt line1 0 text, line2, copyAt directive 0 upper)
      else (some 0, copyAt line1 0 text, copyAt line2 0 text, copyAt directive 0 upper)
    | [.text word] => (none, line1, line2, copyAt directive 0 word)
    | _ => (none, line1, line2, directive)
  else (some p, line1, line2, directive)

/-- `strncat` to `line2`, of at most `LINE_LEN - 1` bytes. -/
def appendLine (line2 directive : Memory) : Memory :=
  copyAt line2 line2.string.length (directive.string.take (LINE_LEN - 1))

/-- The loop over the text, from `p` in `line2` on: `subStr` has the lines that are complete, and
`q` what is in `line1`.  It ends with a null pointer if the file does where a line goes on. -/
def copyText : ℕ → Reader → Memory → Memory → ℕ → List UInt8 → List UInt8 →
    Option (List UInt8) × Reader
  | 0, r, _, _, _, _, _ => (none, r)
  | fuel + 1, r, line2, directive, p, subStr, q =>
    let c := (line2.bytes.drop p).headD 0
    let next := (line2.bytes.drop (p + 1)).headD 0
    if isEolCharacter c then (some (subStr ++ q), r)
    else if c = 123 ∨ c = 126 then
      copyText fuel r line2 directive (p + 1) subStr (q ++ [32])
    else if isBlank c then
      copyText fuel r line2 directive (p + 1) subStr (if isBlank next then q else q ++ [32])
    else if c = 92 then
      if next = 110 then copyText fuel r line2 directive (p + 2) (subStr ++ q ++ [10]) []
      else if toUpper next = 67 ∨ toUpper next = 70 then
        copyText fuel r line2 directive (p + 3) subStr q
      -- `B`, `b`, `D`, `I`, `i`, `N`, `T`, `U` and `u`
      else if next ∈ ([66, 98, 68, 73, 105, 78, 84, 85, 117] : List UInt8) then
        copyText fuel r line2 directive (p + 2) subStr q
      else if next = 92 ∨ next = 126 ∨ next = 123 then
        copyText fuel r line2 directive (p + 2) subStr (q ++ [next])
      else if isEolCharacter next then
        match getLine r directive with
        | (none, r) => (none, r)
        | (some directive, r) =>
          let directive := trimSpace directive
          copyText fuel r (appendLine line2 directive) directive (p + 1) subStr q
      else copyText fuel r line2 directive (p + 1) subStr (q ++ [c])
    else copyText fuel r line2 directive (p + 1) subStr (q ++ [c])

/-- The loop of `decodedItem`. -/
def findItem (settings : Settings) : ℕ → Reader → Memory → Memory → Memory →
    Option ExtSubItem × Reader
  | 0, r, _, _, _ => (none, r)
  | fuel + 1, r, line1, line2, directive =>
    match getLine r line1 with
    | (none, r) => (none, r)
    | (some line1, r) =>
      match scanTimes settings line1.string with
      | none => findItem settings fuel r line1 line2 directive
      | some (start, stop, text) =>
        let line2 := copyAt line2 0 text
        let p := line2.bytes.length - (triml line2.bytes).length
        match takeDirective line1 line2 directive p with
        | (none, line1, line2, directive) => findItem settings fuel r line1 line2 directive
        | (some p, _, line2, directive) =>
          let line2 := copyAt line2 p (removeComments (stringAt line2 p))
          let (text, r) := copyText (line2.bytes.length + (toRead r).length + 1) r line2 directive p
            [] []
          (text.map fun s => ⟨start, stop, [s]⟩, r)

/-- A buffer of zeros. -/
def zeros (before : UInt8) : Memory := ⟨before, List.replicate LINE_LEN 0⟩

/-- `decodedItem`; its buffers are on the heap. -/
def decodedItem (settings : Settings) : Decoder := fun r s =>
  findItem settings ((toRead r).length + 1) r (zeros s.before) (zeros s.before) (zeros s.before)

/-! ## Cues -/

/-- Digits of a number. -/
structure Number where
  digits : List UInt8
  ne_nil : digits ≠ []
  isDigits : ∀ c ∈ digits, isDigit c = true

/-- `h:mm:ss.ff`. -/
structure Clock where
  hours : Number
  minutes : Number
  seconds : Number
  frames : Number

/-- The text of the time. -/
def Clock.text (t : Clock) : List UInt8 :=
  t.hours.digits ++ 58 :: (t.minutes.digits ++ 58 :: (t.seconds.digits ++ 46 :: t.frames.digits))

/-- The value of a number. -/
def Number.value (n : Number) : ℕ := decimal n.digits

/-- The frames up to the time, of which a second has 30. -/
def Clock.count (t : Clock) : ℕ :=
  (t.hours.value * 3600 + t.minutes.value * 60 + t.seconds.value) * 30 + t.frames.value

/-- The times of a cue: of the clock, or counted in frames. -/
inductive Times where
  | clock (start stop : Clock)
  | frames (start stop : Number)

/-- The times as they stand in a line, with some blanks between them. -/
def Times.text (blanks : List UInt8) : Times → List UInt8
  | .clock start stop => start.text ++ (blanks ++ stop.text)
  | .frames start stop => 64 :: start.digits ++ (blanks ++ 64 :: stop.digits)

/-- The frames up to the beginning of a cue. -/
def Times.start : Times → ℕ
  | .clock start _ => start.count
  | .frames start _ => start.value

/-- The frames up to its end. -/
def Times.stop : Times → ℕ
  | .clock _ stop => stop.count
  | .frames _ stop => stop.value

/-- A character that is shown as it is. -/
def IsPlainChar (c : UInt8) : Prop :=
  isEolCharacter c = false ∧ c ≠ 123 ∧ c ≠ 126 ∧ isBlank c = false ∧ c ≠ 92

/-- What is shown of a text without comments, if it is complete in its line. -/
inductive Shows : List UInt8 → List UInt8 → Prop
  | nil : Shows [] []
  | char {c : UInt8} {s shown : List UInt8} : IsPlainChar c → Shows s shown →
      Shows (c :: s) (c :: shown)
  | hardSpace {c : UInt8} {s shown : List UInt8} : c = 123 ∨ c = 126 → Shows s shown →
      Shows (c :: s) (32 :: shown)
  | blank {c : UInt8} {s shown : List UInt8} : isBlank c = true → s.head?.all (!isBlank ·) →
      Shows s shown → Shows (c :: s) (32 :: shown)
  | blanks {c d : UInt8} {s shown : List UInt8} : isBlank c = true → isBlank d = true →
      Shows (d :: s) shown → Shows (c :: d :: s) shown
  | newline {s shown : List UInt8} : Shows s shown → Shows (92 :: 110 :: s) (10 :: shown)
  | font {c d : UInt8} {s shown : List UInt8} : toUpper c = 67 ∨ toUpper c = 70 → Shows s shown →
      Shows (92 :: c :: d :: s) shown
  | style {c : UInt8} {s shown : List UInt8} :
      c ∈ ([66, 98, 68, 73, 105, 78, 84, 85, 117] : List UInt8) → Shows s shown →
      Shows (92 :: c :: s) shown
  | escaped {c : UInt8} {s shown : List UInt8} : c = 92 ∨ c = 126 ∨ c = 123 → Shows s shown →
      Shows (92 :: c :: s) (c :: shown)
  | backslash {c : UInt8} {s shown : List UInt8} :
      (IsPlainChar c ∨ isBlank c = true) → c ≠ 110 → toUpper c ≠ 67 → toUpper c ≠ 70 →
      c ∉ ([66, 98, 68, 73, 105, 78, 84, 85, 117] : List UInt8) → Shows (c :: s) shown →
      Shows (92 :: c :: s) (92 :: shown)

/-- Bytes of one line. -/
def IsOneLine (s : List UInt8) : Prop := 0 ∉ s ∧ 10 ∉ s ∧ 13 ∉ s

/-- The directives of a cue, which do not tell to skip it. -/
structure Directives where
  word : List UInt8
  blanks : List UInt8
  head : ∃ c ∈ word.head?, isAlpha c = true ∨ c = 91
  no_space : ∀ c ∈ word, isSpace c = false
  not_skipped : ∀ name ∈ skipped, ¬ name <:+: word.map toUpper
  blanks_ne_nil : blanks ≠ []
  isBlanks : ∀ c ∈ blanks, isBlank c = true

/-- The directives as they stand in front of the text. -/
def Directives.text : Option Directives → List UInt8
  | none => []
  | some d => d.word ++ d.blanks

/-- The line of a cue: its times, the directives if there are any, and the text. -/
structure Cue where
  times : Times
  between : List UInt8
  behind : List UInt8
  directives : Option Directives
  text : List UInt8
  shown : List UInt8
  between_ne_nil : between ≠ []
  between_blank : ∀ c ∈ between, isBlank c = true
  behind_ne_nil : behind ≠ []
  behind_blank : ∀ c ∈ behind, isBlank c = true
  head : ∃ c ∈ text.head?, isSpace c = false ∧
    (directives = none → isAlpha c = false ∧ c ≠ 91)
  isOneLine : IsOneLine (Directives.text directives ++ text)
  shows : Shows (removeComments text) shown

/-- The line. -/
def Cue.line (c : Cue) : List UInt8 :=
  c.times.text c.between ++ (c.behind ++ (Directives.text c.directives ++ c.text))

/-- The item of the cue. -/
def Cue.item (c : Cue) : ExtSubItem where
  start := sub_ms2pts (c.times.start * 100 / 30)
  stop := sub_ms2pts (c.times.stop * 100 / 30)
  lines := [replaceLine c.shown]

/-- The times of the cue have room in 32 bits. -/
def Cue.TimesFit (c : Cue) : Prop := c.times.start < 2 ^ 32 ∧ c.times.stop < 2 ^ 32

/-- A file of cues. -/
structure File (crlf : Bool) (cues : List Cue) where
  content : List UInt8
  isReadable : IsReadable crlf content
  lines_eq : Lines.lines crlf content = cues.map Cue.line

/-- **Each cue of the file is decoded once**, in every way to read the file. -/
def DecodesEachOnce {crlf : Bool} {cues : List Cue} (file : File crlf cues) : Prop :=
  ∀ (n : ℕ) (source again : List Chunk) (line : Memory) (stack : ℕ → Memory), n ≤ 3 →
    bytesOf source = file.content → bytesOf again = file.content →
    let (settings, r) := create (file.content.take n) source again line
    decodeSubtitles (decodedItem settings) r stack = cues.map Cue.item

/-! ## The times of a cue -/

/-- The value of a number, as `%u` gives it. -/
def Number.scanned (n : Number) : ℤ := toUnsigned false n.value

section Scan

variable (format : List Directive) {rest : List UInt8}

theorem scan_number (n : Number) (hrest : ∀ c ∈ rest.head?, isDigit c = false) :
    scan (.unsigned :: format) (n.digits ++ rest) = .int n.scanned :: scan format rest := by
  rw [scan, scanUnsigned_digits n.ne_nil n.isDigits hrest]
  rfl

theorem scan_clock (t : Clock) (hrest : ∀ c ∈ rest.head?, isDigit c = false) :
    scan (clockFormat ++ format) (t.text ++ rest) =
      [.int t.hours.scanned, .int t.minutes.scanned, .int t.seconds.scanned,
        .int t.frames.scanned] ++ scan format rest := by
  have hcolon : ∀ s : List UInt8, ∀ c ∈ (58 :: s).head?, isDigit c = false := fun s c hc =>
    Option.some.inj hc ▸ rfl
  have hdot : ∀ s : List UInt8, ∀ c ∈ (46 :: s).head?, isDigit c = false := fun s c hc =>
    Option.some.inj hc ▸ rfl
  rw [clockFormat, Clock.text]
  simp only [List.append_assoc, List.cons_append]
  rw [scan_number _ t.hours (hcolon _), scan, if_pos rfl, scan_number _ t.minutes (hcolon _), scan,
    if_pos rfl, scan_number _ t.seconds (hdot _), scan, if_pos rfl, List.nil_append,
    scan_number _ t.frames hrest]
  rfl

end Scan

theorem Number.isSpace_head (n : Number) (rest : List UInt8) :
    ∀ c ∈ (n.digits ++ rest).head?, isSpace c = false := by
  obtain ⟨d, ds, hds⟩ := List.exists_cons_of_ne_nil n.ne_nil
  intro c hc
  rw [hds] at hc
  rw [← Option.some.inj hc]
  exact isSpace_of_isDigit (n.isDigits d (hds ▸ List.mem_cons_self))

/-- The rest of the line. -/
theorem scan_text {text : List UInt8} (hhead : ∃ c ∈ text.head?, isSpace c = false)
    (hline : IsOneLine text) {blanks : List UInt8} (hblanks : ∀ c ∈ blanks, isBlank c = true) :
    scan [.blank, .noneOf [10, 13]] (blanks ++ text) = [.text text] := by
  obtain ⟨c, hc, hspace⟩ := hhead
  have hall : ∀ c ∈ text, (!([10, 13] : List UInt8).contains c) = true := by
    intro c hc
    have h10 : c ≠ 10 := fun heq => hline.2.1 (heq ▸ hc)
    have h13 : c ≠ 13 := fun heq => hline.2.2 (heq ▸ hc)
    simp [h10, h13]
  rw [scan_blank hblanks fun d hd => Option.some.inj (hc.symm.trans hd) ▸ hspace, scan,
    List.takeWhile_eq_self_iff.mpr hall, List.dropWhile_eq_nil_iff.mpr hall, if_neg, scan]
  rintro rfl
  exact absurd hc (Option.not_mem_none c)

/-- The time as the decoder counts it. -/
def Clock.ticks (t : Clock) : ℕ :=
  Jacosub.ticks ⟨0, 30⟩ t.hours.scanned t.minutes.scanned t.seconds.scanned t.frames.scanned

/-- The number of a frame as the decoder has it. -/
def Number.ticks (n : Number) : ℕ := Jacosub.ticks ⟨0, 30⟩ 0 0 0 n.scanned

/-- The beginning of a cue as the decoder has it. -/
def Times.startTicks : Times → ℕ
  | .clock start _ => start.ticks
  | .frames start _ => start.ticks

/-- The end of a cue as the decoder has it. -/
def Times.stopTicks : Times → ℕ
  | .clock _ stop => stop.ticks
  | .frames _ stop => stop.ticks

theorem Number.scanned_of_lt {n : Number} (h : n.value < 2 ^ 32) : n.scanned = n.value :=
  toUnsigned_of_lt h

theorem Clock.ticks_iff (t : Clock) : t.ticks = t.count ↔ t.count < 2 ^ 32 := by
  rw [Clock.ticks, Jacosub.ticks]
  constructor
  · intro h
    exact h ▸ asUnsigned_lt 32 _
  · intro h
    rw [Clock.count] at h
    rw [Number.scanned_of_lt (by omega), Number.scanned_of_lt (by omega),
      Number.scanned_of_lt (by omega), Number.scanned_of_lt (by omega)]
    have hcount : ((t.hours.value : ℤ) * 3600 + t.minutes.value * 60 + t.seconds.value) * 30 +
        t.frames.value + 0 = t.count := by
      rw [Clock.count]
      push_cast
      omega
    rw [hcount]
    exact asUnsigned_of_lt h

theorem Number.ticks_iff (n : Number) : n.ticks = n.value ↔ n.value < 2 ^ 32 := by
  rw [Number.ticks, Jacosub.ticks]
  constructor
  · intro h
    exact h ▸ asUnsigned_lt 32 _
  · intro h
    rw [Number.scanned_of_lt h]
    have hvalue : ((0 : ℤ) * 3600 + 0 * 60 + 0) * 30 + n.value + 0 = n.value := by omega
    rw [hvalue]
    exact asUnsigned_of_lt h

theorem Times.startTicks_iff (times : Times) :
    times.startTicks = times.start ↔ times.start < 2 ^ 32 := by
  cases times with
  | clock start stop => exact start.ticks_iff
  | frames start stop => exact start.ticks_iff

theorem Times.stopTicks_iff (times : Times) :
    times.stopTicks = times.stop ↔ times.stop < 2 ^ 32 := by
  cases times with
  | clock start stop => exact stop.ticks_iff
  | frames start stop => exact stop.ticks_iff

theorem centiseconds_inj (m n : ℕ) :
    sub_ms2pts (centiseconds ⟨0, 30⟩ m) = sub_ms2pts (n * 100 / 30) ↔ m = n := by
  rw [centiseconds, sub_ms2pts, sub_ms2pts]
  dsimp only
  omega

namespace Cue

variable (c : Cue)

/-- What stands behind the times. -/
def field : List UInt8 := Directives.text c.directives ++ c.text

theorem field_head : ∃ d ∈ c.field.head?, isSpace d = false := by
  unfold field
  cases hdirectives : c.directives with
  | none =>
    obtain ⟨d, hd, hspace, -⟩ := c.head
    exact ⟨d, hd, hspace⟩
  | some directives =>
    obtain ⟨d, hd, -⟩ := directives.head
    obtain ⟨word, hword⟩ : ∃ word, directives.word = d :: word := by
      cases hw : directives.word with
      | nil =>
        rw [hw] at hd
        exact absurd hd (Option.not_mem_none d)
      | cons e word =>
        rw [hw] at hd
        exact ⟨word, by rw [Option.some.inj hd]⟩
    refine ⟨d, ?_, directives.no_space d (hword ▸ List.mem_cons_self)⟩
    rw [Directives.text, hword]
    rfl

/-- **The times of the line.** -/
theorem scanTimes_line : scanTimes ⟨0, 30⟩ c.line =
    some (centiseconds ⟨0, 30⟩ c.times.startTicks, centiseconds ⟨0, 30⟩ c.times.stopTicks,
      c.field) := by
  have htext := scan_text c.field_head c.isOneLine c.behind_blank
  have hbetween := head_blanks c.between_ne_nil c.between_blank
  have hbehind := head_blanks c.behind_ne_nil c.behind_blank
  have hline : c.line = c.times.text c.between ++ (c.behind ++ c.field) := rfl
  rw [scanTimes, hline]
  cases c.times with
  | clock start stop =>
    have hscan : scan clockLine (Times.text c.between (.clock start stop) ++
        (c.behind ++ c.field)) = [.int start.hours.scanned, .int start.minutes.scanned,
          .int start.seconds.scanned, .int start.frames.scanned, .int stop.hours.scanned,
          .int stop.minutes.scanned, .int stop.seconds.scanned, .int stop.frames.scanned,
          .text c.field] := by
      rw [clockLine, Times.text, List.append_assoc, List.append_assoc,
        scan_clock _ start (hbetween _), scan_blank c.between_blank ?_,
        scan_clock _ stop (hbehind _),
        htext]
      · rfl
      · rw [Clock.text, List.append_assoc]
        exact stop.hours.isSpace_head _
    rw [hscan]
    rfl
  | frames start stop =>
    have hclock : scan clockLine (Times.text c.between (.frames start stop) ++
        (c.behind ++ c.field)) = [] := rfl
    have hscan : scan frameLine (Times.text c.between (.frames start stop) ++
        (c.behind ++ c.field)) = [.int start.scanned, .int stop.scanned, .text c.field] := by
      rw [frameLine, Times.text, List.append_assoc, List.append_assoc, List.cons_append, scan,
        if_pos rfl, scan_number _ start (hbetween _), scan_blank c.between_blank ?_,
        List.cons_append, scan, if_pos rfl, scan_number _ stop (hbehind _), htext]
      intro d hd
      rw [← Option.some.inj hd]
      rfl
    rw [hclock]
    dsimp only
    rw [hscan]
    rfl

end Cue

/-! ## The text of a cue -/

theorem bytes_copyAt_zero (s : Memory) (string : List UInt8) :
    (copyAt s 0 string).bytes = string ++ 0 :: s.bytes.drop (string.length + 1) := by
  rw [copyAt, List.take_zero, Nat.zero_add]
  rfl

theorem stringAt_copyAt (s : Memory) {string : List UInt8} (h : 0 ∉ string) :
    stringAt (copyAt s 0 string) 0 = string := by
  rw [stringAt, List.drop_zero, bytes_copyAt_zero]
  exact Lines.string_append h _

theorem drop_of_drop_eq_cons {l rest : List UInt8} {p : ℕ} {c : UInt8}
    (h : l.drop p = c :: rest) : l.drop (p + 1) = rest := by
  rw [← List.drop_drop, h]
  rfl

/-- The character at `p` and the one behind it, as the loop reads them. -/
theorem headD_drop {l rest : List UInt8} {p : ℕ} {c : UInt8} (h : l.drop p = c :: rest) :
    (l.drop p).headD 0 = c ∧ (l.drop (p + 1)).headD 0 = rest.headD 0 := by
  rw [drop_of_drop_eq_cons h, h]
  exact ⟨rfl, rfl⟩

/-- **What is shown of a text** is what the loop makes of it, with no line read. -/
theorem copyText_of_shows {s shown : List UInt8} (h : Shows s shown) (fuel : ℕ) (r : Reader)
    (line2 directive : Memory) (p : ℕ) (subStr q stale : List UInt8)
    (hdrop : line2.bytes.drop p = s ++ 0 :: stale) (hfuel : s.length < fuel) :
    copyText fuel r line2 directive p subStr q = (some (subStr ++ q ++ shown), r) := by
  have hescape : isEolCharacter 92 = false ∧ ¬ ((92 : UInt8) = 123 ∨ (92 : UInt8) = 126) ∧
      isBlank 92 = false := by decide
  have hstep : ∀ {c : UInt8} {rest : List UInt8} {p : ℕ}, line2.bytes.drop p = c :: rest →
      line2.bytes.drop (p + 1) = rest := drop_of_drop_eq_cons
  -- each character, or pair or triple of them that goes with a backslash, is one step of the loop
  induction h generalizing fuel p subStr q with
  | nil =>
    obtain ⟨fuel, rfl⟩ := Nat.exists_eq_succ_of_ne_zero (Nat.ne_of_gt hfuel)
    rw [copyText, hdrop, List.append_nil]
    rfl
  | @char c s shown hc _ ih =>
    obtain ⟨fuel, rfl⟩ := Nat.exists_eq_succ_of_ne_zero (Nat.ne_of_gt (Nat.zero_lt_of_lt hfuel))
    obtain ⟨heol, h123, h126, hblank, hback⟩ := hc
    obtain ⟨hhead, -⟩ := headD_drop hdrop
    simp only [copyText, hhead, heol, h123, h126, hblank, hback, Bool.false_eq_true, or_self,
      if_false]
    rw [ih fuel (p + 1) subStr (q ++ [c]) (hstep hdrop) (Nat.lt_of_succ_lt_succ hfuel)]
    simp only [List.append_assoc, List.singleton_append]
  | @hardSpace c s shown hc _ ih =>
    obtain ⟨fuel, rfl⟩ := Nat.exists_eq_succ_of_ne_zero (Nat.ne_of_gt (Nat.zero_lt_of_lt hfuel))
    obtain ⟨hhead, -⟩ := headD_drop hdrop
    have heol : isEolCharacter c = false := by rcases hc with rfl | rfl <;> rfl
    simp only [copyText, hhead, heol, hc, Bool.false_eq_true, if_false, if_true]
    rw [ih fuel (p + 1) subStr (q ++ [32]) (hstep hdrop) (Nat.lt_of_succ_lt_succ hfuel)]
    simp only [List.append_assoc, List.singleton_append]
  | @blank c s shown hc hs _ ih =>
    obtain ⟨fuel, rfl⟩ := Nat.exists_eq_succ_of_ne_zero (Nat.ne_of_gt (Nat.zero_lt_of_lt hfuel))
    obtain ⟨hhead, hnext⟩ := headD_drop hdrop
    have hkinds : isEolCharacter c = false ∧ ¬ (c = 123 ∨ c = 126) := by
      rw [isBlank, Bool.or_eq_true, decide_eq_true_iff, decide_eq_true_iff] at hc
      rcases hc with rfl | rfl <;> decide
    have hlast : isBlank ((s ++ 0 :: stale).headD 0) = false := by
      cases s with
      | nil => rfl
      | cons d s =>
        rw [List.head?_cons, Option.all_some, Bool.not_eq_true'] at hs
        exact hs
    replace hlast := hnext.symm ▸ hlast
    simp only [copyText, hhead, hkinds, hc, hlast, Bool.false_eq_true, if_false, if_true]
    rw [ih fuel (p + 1) subStr (q ++ [32]) (hstep hdrop) (Nat.lt_of_succ_lt_succ hfuel)]
    simp only [List.append_assoc, List.singleton_append]
  | @blanks c d s shown hc hd _ ih =>
    obtain ⟨fuel, rfl⟩ := Nat.exists_eq_succ_of_ne_zero (Nat.ne_of_gt (Nat.zero_lt_of_lt hfuel))
    obtain ⟨hhead, hnext⟩ := headD_drop hdrop
    have hkinds : isEolCharacter c = false ∧ ¬ (c = 123 ∨ c = 126) := by
      rw [isBlank, Bool.or_eq_true, decide_eq_true_iff, decide_eq_true_iff] at hc
      rcases hc with rfl | rfl <;> decide
    have hmore : isBlank ((line2.bytes.drop (p + 1)).headD 0) = true := by rw [hnext]; exact hd
    simp only [copyText, hhead, hkinds, hc, hmore, Bool.false_eq_true, if_false, if_true]
    exact ih fuel (p + 1) subStr q (hstep hdrop) (Nat.lt_of_succ_lt_succ hfuel)
  | @newline s shown _ ih =>
    obtain ⟨fuel, rfl⟩ := Nat.exists_eq_succ_of_ne_zero (Nat.ne_of_gt (Nat.zero_lt_of_lt hfuel))
    obtain ⟨hhead, hnext⟩ := headD_drop hdrop
    have h110 : (line2.bytes.drop (p + 1)).headD 0 = 110 := hnext
    simp only [copyText, hhead, hescape, h110, Bool.false_eq_true, if_false, if_true]
    rw [ih fuel (p + 2) (subStr ++ q ++ [10]) [] (hstep (hstep hdrop))
      (Nat.lt_of_succ_lt_succ (Nat.lt_of_succ_lt hfuel))]
    simp only [List.append_assoc, List.singleton_append]
  | @font c d s shown hc _ ih =>
    obtain ⟨fuel, rfl⟩ := Nat.exists_eq_succ_of_ne_zero (Nat.ne_of_gt (Nat.zero_lt_of_lt hfuel))
    obtain ⟨hhead, hnext⟩ := headD_drop hdrop
    have hletter : (line2.bytes.drop (p + 1)).headD 0 = c := hnext
    have h110 : c ≠ 110 := by
      rintro rfl
      exact absurd hc (by decide)
    simp only [copyText, hhead, hescape, hletter, h110, hc, Bool.false_eq_true, if_false, if_true]
    exact ih fuel (p + 3) subStr q (hstep (hstep (hstep hdrop)))
      (Nat.lt_of_succ_lt_succ (Nat.lt_of_succ_lt (Nat.lt_of_succ_lt hfuel)))
  | @style c s shown hc _ ih =>
    obtain ⟨fuel, rfl⟩ := Nat.exists_eq_succ_of_ne_zero (Nat.ne_of_gt (Nat.zero_lt_of_lt hfuel))
    obtain ⟨hhead, hnext⟩ := headD_drop hdrop
    have hletter : (line2.bytes.drop (p + 1)).headD 0 = c := hnext
    have hothers : ∀ c ∈ ([66, 98, 68, 73, 105, 78, 84, 85, 117] : List UInt8),
        c ≠ 110 ∧ ¬ (toUpper c = 67 ∨ toUpper c = 70) := by decide +kernel
    simp only [copyText, hhead, hescape, hletter, hothers c hc, hc, Bool.false_eq_true, if_false,
      if_true]
    exact ih fuel (p + 2) subStr q (hstep (hstep hdrop))
      (Nat.lt_of_succ_lt_succ (Nat.lt_of_succ_lt hfuel))
  | @escaped c s shown hc _ ih =>
    obtain ⟨fuel, rfl⟩ := Nat.exists_eq_succ_of_ne_zero (Nat.ne_of_gt (Nat.zero_lt_of_lt hfuel))
    obtain ⟨hhead, hnext⟩ := headD_drop hdrop
    have hletter : (line2.bytes.drop (p + 1)).headD 0 = c := hnext
    have hothers : c ≠ 110 ∧ ¬ (toUpper c = 67 ∨ toUpper c = 70) ∧
        c ∉ ([66, 98, 68, 73, 105, 78, 84, 85, 117] : List UInt8) := by
      rcases hc with rfl | rfl | rfl <;> decide
    simp only [copyText, hhead, hescape, hletter, hothers, hc, Bool.false_eq_true, if_false,
      if_true]
    rw [ih fuel (p + 2) subStr (q ++ [c]) (hstep (hstep hdrop))
      (Nat.lt_of_succ_lt_succ (Nat.lt_of_succ_lt hfuel))]
    simp only [List.append_assoc, List.singleton_append]
  | @backslash c s shown hplain h110 h67 h70 hstyle _ ih =>
    obtain ⟨fuel, rfl⟩ := Nat.exists_eq_succ_of_ne_zero (Nat.ne_of_gt (Nat.zero_lt_of_lt hfuel))
    obtain ⟨hhead, hnext⟩ := headD_drop hdrop
    have hletter : (line2.bytes.drop (p + 1)).headD 0 = c := hnext
    have hothers : isEolCharacter c = false ∧ ¬ (c = 92 ∨ c = 126 ∨ c = 123) := by
      rcases hplain with ⟨heol, h123, h126, -, h92⟩ | hblank
      · exact ⟨heol, fun hh => hh.elim h92 fun hh => hh.elim h126 h123⟩
      · rw [isBlank, Bool.or_eq_true, decide_eq_true_iff, decide_eq_true_iff] at hblank
        rcases hblank with rfl | rfl <;> decide
    simp only [copyText, hhead, hescape, hletter, h110, h67, h70, hstyle, hothers, or_self,
      Bool.false_eq_true, if_false, if_true]
    rw [ih fuel (p + 1) subStr (q ++ [92]) (hstep hdrop) (Nat.lt_of_succ_lt_succ hfuel)]
    simp only [List.append_assoc, List.singleton_append]

theorem exists_cons_of_head {s : List UInt8} {P : UInt8 → Prop} (h : ∃ c ∈ s.head?, P c) :
    ∃ c rest, s = c :: rest ∧ P c := by
  obtain ⟨c, hc, hP⟩ := h
  cases s with
  | nil => exact absurd hc (Option.not_mem_none c)
  | cons d rest => exact ⟨d, rest, rfl, Option.some.inj hc ▸ hP⟩

/-- The directives and the text are told from each other. -/
theorem scan_directives (d : Directives) {text : List UInt8}
    (hhead : ∃ c ∈ text.head?, isSpace c = false) (hline : IsOneLine text) :
    scan [.word, .blank, .noneOf [10, 13]] (d.word ++ (d.blanks ++ text)) =
      [.text d.word, .text text] := by
  obtain ⟨c, word, hword, -⟩ := exists_cons_of_head d.head
  obtain ⟨b, blanks, hblanks⟩ := List.exists_cons_of_ne_nil d.blanks_ne_nil
  have hb : isSpace b = true := isSpace_of_isBlank (d.isBlanks b (hblanks ▸ List.mem_cons_self))
  have hskip : (d.word ++ (d.blanks ++ text)).dropWhile isSpace = d.word ++ (d.blanks ++ text) := by
    rw [hword]
    exact List.dropWhile_cons_of_neg
      ((Bool.not_eq_true _).mpr (d.no_space c (hword ▸ List.mem_cons_self)))
  have hnot : ∀ c ∈ d.word, (!isSpace c) = true := fun c hc => by rw [d.no_space c hc]; rfl
  have htake : (d.word ++ (d.blanks ++ text)).takeWhile (fun c => !isSpace c) = d.word := by
    rw [List.takeWhile_append_of_pos hnot, hblanks, List.cons_append,
      List.takeWhile_cons_of_neg (by rw [hb]; decide), List.append_nil]
  have hdrop : (d.word ++ (d.blanks ++ text)).dropWhile (fun c => !isSpace c) =
      d.blanks ++ text := by
    rw [List.dropWhile_append_of_pos hnot, hblanks, List.cons_append,
      List.dropWhile_cons_of_neg (by rw [hb]; decide)]
  rw [scan, hskip, htake, hdrop, scan_text hhead hline d.isBlanks, if_neg]
  rw [hword]
  exact List.cons_ne_nil _ _

namespace Cue

variable (c : Cue)

theorem isOneLine_text : IsOneLine c.text :=
  ⟨fun h => c.isOneLine.1 (List.mem_append_right _ h),
    fun h => c.isOneLine.2.1 (List.mem_append_right _ h),
    fun h => c.isOneLine.2.2 (List.mem_append_right _ h)⟩

/-- No blank is trimmed off in front of the field. -/
theorem offset_field (line2 : Memory) : (copyAt line2 0 c.field).bytes.length -
    (triml (copyAt line2 0 c.field).bytes).length = 0 := by
  obtain ⟨d, rest, hfield, hspace⟩ := exists_cons_of_head c.field_head
  have hblank : ¬ isBlank d = true := fun h => by
    rw [isSpace_of_isBlank h] at hspace
    exact Bool.noConfusion hspace
  have htriml : triml (copyAt line2 0 c.field).bytes = (copyAt line2 0 c.field).bytes := by
    rw [bytes_copyAt_zero, hfield]
    exact List.dropWhile_cons_of_neg hblank
  rw [htriml, Nat.sub_self]

/-- **The directives are taken off**, and the text is left. -/
theorem takeDirective_field (line1 line2 directive : Memory) :
    ∃ line1' line2' directive', takeDirective line1 (copyAt line2 0 c.field) directive 0 =
      (some 0, line1', line2', directive') ∧ stringAt line2' 0 = c.text := by
  obtain ⟨d, rest, hfield, -⟩ := exists_cons_of_head c.field_head
  have hstring : stringAt (copyAt line2 0 c.field) 0 = c.field :=
    stringAt_copyAt _ c.isOneLine.1
  have hfirst : ((copyAt line2 0 c.field).bytes.drop 0).headD 0 = d := by
    rw [List.drop_zero, bytes_copyAt_zero, hfield]
    rfl
  rw [takeDirective]
  dsimp only
  rw [hfirst, hstring]
  cases hdirectives : c.directives with
  | none =>
    have htext : c.field = c.text := by rw [field, hdirectives]; rfl
    obtain ⟨d', rest', hd', -, hletter⟩ := exists_cons_of_head c.head
    obtain ⟨halpha, h91⟩ := hletter hdirectives
    obtain ⟨rfl, -⟩ := List.cons.inj (hfield.symm.trans (htext.trans hd'))
    rw [halpha, Bool.false_or, if_neg (by rwa [decide_eq_true_iff])]
    exact ⟨_, _, _, rfl, hstring.trans htext⟩
  | some directives =>
    obtain ⟨d', word, hword, hletter⟩ := exists_cons_of_head directives.head
    have hparts : c.field = directives.word ++ (directives.blanks ++ c.text) := by
      rw [field, hdirectives, Directives.text, List.append_assoc]
    have hd : d = d' := by
      rw [hword] at hparts
      exact (List.cons.inj (hfield.symm.trans hparts)).1
    obtain ⟨e, he, hspace, -⟩ := c.head
    rw [if_pos, hparts, scan_directives directives ⟨e, he, hspace⟩ c.isOneLine_text]
    · dsimp only
      rw [if_neg]
      · exact ⟨_, _, _, rfl, stringAt_copyAt _ c.isOneLine_text.1⟩
      · rw [List.any_eq_true]
        rintro ⟨name, hname, hinfix⟩
        exact directives.not_skipped name hname (of_decide_eq_true hinfix)
    · rw [hd, Bool.or_eq_true, decide_eq_true_iff]
      exact hletter

/-- What is decoded of the line. -/
def found : ExtSubItem where
  start := centiseconds ⟨0, 30⟩ c.times.startTicks
  stop := centiseconds ⟨0, 30⟩ c.times.stopTicks
  lines := [c.shown]

/-- **One line**, and no more is read. -/
theorem findItem_line (fuel : ℕ) {r r' : Reader} {line1 m : Memory}
    (hget : getLine r line1 = (some m, r')) (hm : m.string = c.line) (line2 directive : Memory) :
    findItem ⟨0, 30⟩ (fuel + 1) r line1 line2 directive = (some c.found, r') := by
  obtain ⟨line1', line2', directive', htake, htext⟩ := c.takeDirective_field m line2 directive
  have hcopy := copyText_of_shows c.shows
    ((copyAt line2' 0 (removeComments c.text)).bytes.length + (toRead r').length + 1) r'
    (copyAt line2' 0 (removeComments c.text)) directive' 0 [] [] _ (bytes_copyAt_zero _ _) (by
      rw [bytes_copyAt_zero, List.length_append]
      omega)
  rw [findItem, hget]
  dsimp only
  rw [hm, c.scanTimes_line]
  dsimp only
  rw [c.offset_field, htake]
  dsimp only
  rw [htext, hcopy]
  rfl

/-- The item is right if the times have room. -/
theorem finishItem_found_iff : finishItem c.found = c.item ↔ c.TimesFit := by
  rw [finishItem, found, item, TimesFit, ← c.times.startTicks_iff, ← c.times.stopTicks_iff]
  simp only [ExtSubItem.mk.injEq, centiseconds_inj, List.map_cons, List.map_nil, and_true]

end Cue

/-! ## The lines of a file -/

/-- **All lines** that are delivered are decoded. -/
theorem decodeSubtitles_lines {r : Reader} {cues : List Cue} (h : Delivers r (cues.map Cue.line))
    (stack : ℕ → Memory) :
    decodeSubtitles (decodedItem ⟨0, 30⟩) r stack = cues.map fun c => finishItem c.found := by
  have hfuel : ∀ (cues : List Cue) (fuel : ℕ) (r : Reader) (stack : ℕ → Memory),
      Delivers r (cues.map Cue.line) → cues.length < fuel →
      decodeItems (decodedItem ⟨0, 30⟩) fuel r stack = cues.map fun c => finishItem c.found := by
    intro cues
    induction cues with
    | nil =>
      intro fuel r stack h hlt
      obtain ⟨fuel, rfl⟩ := Nat.exists_eq_succ_of_ne_zero (Nat.ne_of_gt hlt)
      obtain ⟨r', hget⟩ := h.nil (zeros (stack 0).before)
      rw [decodeItems, decodedItem, findItem, hget]
      rfl
    | cons c cues ih =>
      intro fuel r stack h hlt
      obtain ⟨fuel, rfl⟩ := Nat.exists_eq_succ_of_ne_zero (Nat.ne_of_gt (Nat.zero_lt_of_lt hlt))
      obtain ⟨m, r', hget, hm, hrest⟩ := h (zeros (stack 0).before)
      rw [decodeItems, decodedItem, c.findItem_line _ hget hm]
      dsimp only
      rw [ih fuel r' _ hrest (Nat.lt_of_succ_lt_succ hlt)]
      rfl
  have hlen := h.length_le
  rw [List.length_map] at hlen
  exact hfuel cues _ r stack h (Nat.lt_succ_of_le hlen)

theorem Cue.line_head (c : Cue) : ∃ d rest, c.line = d :: rest ∧ (isDigit d = true ∨ d = 64) := by
  rw [Cue.line]
  cases c.times with
  | clock start stop =>
    obtain ⟨d, ds, hds⟩ := List.exists_cons_of_ne_nil start.hours.ne_nil
    rw [Times.text, Clock.text, hds]
    exact ⟨d, _, rfl, .inl (start.hours.isDigits d (hds ▸ List.mem_cons_self))⟩
  | frames start stop => exact ⟨64, _, rfl, .inr rfl⟩

/-- No directive of the header is found in the line of a cue. -/
theorem create_eq {header : List UInt8} {source again : List Chunk} {line : Memory} {r' : Reader} :
    (getLine (ExtSubStreamReader.create header source) line = (none, r') →
      create header source again line = (⟨0, 30⟩, rewindStream r' again)) ∧
    ∀ (c : Cue) (m : Memory), getLine (ExtSubStreamReader.create header source) line =
        (some m, r') → m.string = c.line →
      create header source again line = (⟨0, 30⟩, rewindStream r' again) := by
  constructor
  · intro hget
    rw [create, parseHeaderInfo, parseHeader, hget]
  · intro c m hget hm
    obtain ⟨d, rest, hline, hd⟩ := c.line_head
    have hhash : m.bytes.headD 0 ≠ 35 := by
      rw [hline, Memory.string] at hm
      cases hbytes : m.bytes with
      | nil =>
        rw [hbytes] at hm
        exact absurd hm.symm (List.cons_ne_nil d rest)
      | cons e bytes =>
        rw [hbytes, List.takeWhile_cons] at hm
        split_ifs at hm
        rw [List.headD_cons, (List.cons.inj hm).1]
        rintro rfl
        exact hd.elim (fun h => absurd h (by decide)) fun h => absurd h (by decide)
    rw [create, parseHeaderInfo, parseHeader, hget]
    dsimp only
    rw [if_neg hhash]

/-- The buffer that a line was taken from is still there, or it was freed. -/
theorem mBuffer_ne_of_getLine {r r' : Reader} {s m : Memory} (hget : getLine r s = (some m, r')) :
    r'.mBuffer ≠ some [] := by
  by_cases hclosed : Closed r
  · rw [getLine_of_closed hclosed] at hget
    exact absurd (congrArg Prod.fst hget).symm (Option.some_ne_none m)
  · have hends := (getLine_cases hclosed s).1
    rw [hget] at hends
    generalize hresult : (some m, r') = result at hends
    rcases hends with ⟨-, -, -, hbuffer, -⟩ | ⟨-, -⟩ | ⟨-, -, -, -, -⟩ | ⟨-, -⟩
    case line buffer readOffset n =>
      have hr : r'.mBuffer = some buffer := congrArg (fun p => p.2.mBuffer) hresult
      rw [hr]
      intro hnil
      rw [Option.some.inj hnil, List.drop_nil] at hbuffer
      exact absurd hbuffer.symm (Option.some_ne_none n)
    case long => exact absurd (congrArg Prod.fst hresult) (Option.some_ne_none m)
    case last =>
      have hr : r'.mBuffer = none := congrArg (fun p => p.2.mBuffer) hresult
      rw [hr]
      exact (Option.some_ne_none _).symm
    case none => exact absurd (congrArg Prod.fst hresult) (Option.some_ne_none m)

/-- What is still in the buffer is read in front of the file. -/
theorem ready_rewindStream {r : Reader} {rest content : List UInt8} {again : List Chunk}
    (h : Ready r rest) (hbuffer : r.mBuffer = some [] → again = [])
    (hagain : bytesOf again = content) : Ready (rewindStream r again) (remaining r ++ content) :=
  ⟨h.isBytes, congrArg _ hagain, hbuffer⟩

/-- The line of a cue, up to its line feed. -/
structure IsLineOf (crlf : Bool) (c : Cue) (l : List UInt8) : Prop where
  no_eol : ∀ b ∈ l, ¬ IsEol b
  short : l.length < LINE_LEN
  no_cr : crlf = false → l.getLast? ≠ some 13
  line_eq : Lines.stripCr l = c.line

theorem IsLineOf.no_newline {crlf : Bool} {c : Cue} {l : List UInt8} (h : IsLineOf crlf c l) :
    10 ∉ l := fun h10 => h.no_eol 10 h10 (.inl rfl)

theorem IsLineOf.exists_head {crlf : Bool} {c : Cue} {l : List UInt8} (h : IsLineOf crlf c l) :
    ∃ d rest, l = d :: rest ∧ (isDigit d = true ∨ d = 64) := by
  obtain ⟨d, rest, hline, hd⟩ := c.line_head
  have heq := h.line_eq.trans hline
  cases l with
  | nil => exact absurd heq.symm (List.cons_ne_nil d rest)
  | cons b l =>
    have hb : b = d := by
      rw [Lines.stripCr] at heq
      split_ifs at heq
      · cases l with
        | nil => exact absurd heq.symm (List.cons_ne_nil d rest)
        | cons b' l => exact (List.cons.inj heq).1
      · exact (List.cons.inj heq).1
    exact ⟨b, l, rfl, hb ▸ hd⟩

namespace File

variable {crlf : Bool} {c : Cue} {cues : List Cue}

theorem content_nil (file : File crlf []) : file.content = [] := by
  have hlines := file.lines_eq
  rcases Lines.cases_text file.content with hnil | ⟨hne, h10⟩ | ⟨l, rest, h10, hcontent⟩
  · exact hnil
  · rw [Lines.lines_of_notMem crlf h10 hne] at hlines
    exact absurd hlines (List.cons_ne_nil _ _)
  · rw [hcontent, Lines.lines_append crlf h10] at hlines
    exact absurd hlines (List.cons_ne_nil _ _)

/-- A file that has a cue begins with its line. -/
theorem exists_line (file : File crlf (c :: cues)) : ∃ (l : List UInt8) (rest : File crlf cues),
    file.content = l ++ 10 :: rest.content ∧ IsLineOf crlf c l := by
  have hlines := file.lines_eq
  have hreadable := file.isReadable
  rcases Lines.cases_text file.content with hnil | ⟨hne, h10⟩ | ⟨l, rest, h10, hcontent⟩
  · rw [hnil] at hlines
    exact absurd hlines.symm (List.cons_ne_nil _ _)
  · obtain ⟨b, hb⟩ := Option.isSome_iff_exists.mp (List.getLast?_isSome.mpr hne)
    exact absurd (hreadable.ended b hb ▸ List.mem_of_getLast? hb) h10
  · rw [hcontent, Lines.lines_append crlf h10, List.map_cons] at hlines
    obtain ⟨hline, hrest⟩ := List.cons.inj hlines
    rw [hcontent, isReadable_append crlf h10] at hreadable
    obtain ⟨⟨h0, hlen, hcr⟩, hreadable⟩ := hreadable
    exact ⟨l, ⟨rest, hreadable, hrest⟩, hcontent, not_isEol_of_mem h10 h0, hlen, hcr,
      (stripCr_eq_lineOf hcr).trans hline⟩

/-- One more line in front of a file. -/
def cons {l : List UInt8} (h : IsLineOf crlf c l) (file : File crlf cues) :
    File crlf (c :: cues) where
  content := l ++ 10 :: file.content
  isReadable := (isReadable_append crlf h.no_newline _).mpr
    ⟨⟨fun h0 => h.no_eol 0 h0 (.inr rfl), h.short, h.no_cr⟩, file.isReadable⟩
  lines_eq := by
    rw [Lines.lines_append crlf h.no_newline, file.lines_eq, ← stripCr_eq_lineOf h.no_cr, h.line_eq]
    rfl

theorem head_lt (file : File crlf cues) : ∀ d ∈ file.content.head?, d.toNat < 0xF8 := by
  cases cues with
  | nil =>
    rw [file.content_nil]
    exact fun _ hd => absurd hd (Option.not_mem_none _)
  | cons c cues =>
    obtain ⟨l, rest, hcontent, hline⟩ := file.exists_line
    obtain ⟨d, l', rfl, hd⟩ := hline.exists_head
    rw [hcontent]
    intro e he
    obtain rfl : d = e := Option.some.inj he
    rcases hd with hd | rfl
    · exact (toNat_of_isDigit hd).2.trans_lt (by decide)
    · decide

/-- The lines of the file are decoded, if nothing else is in the buffer. -/
theorem decodeSubtitles_of_ready (file : File crlf cues) {r : Reader}
    (h : Ready r file.content) (stack : ℕ → Memory) :
    decodeSubtitles (decodedItem ⟨0, 30⟩) r stack = cues.map fun c => finishItem c.found := by
  have hdelivers := delivers_of_isReadable crlf h file.isReadable
  rw [file.lines_eq] at hdelivers
  exact decodeSubtitles_lines hdelivers stack

/-- **One cue at most**: nothing is left in the buffer when the reader is rewound. -/
theorem exists_ready_of_length_le (file : File crlf cues) (hle : cues.length ≤ 1) (n : ℕ)
    {source again : List Chunk} (hsource : bytesOf source = file.content)
    (hagain : bytesOf again = file.content) (line : Memory) :
    ∃ r, create (file.content.take n) source again line = (⟨0, 30⟩, r) ∧ Ready r file.content := by
  have hready := ready_create file.head_lt n hsource
  cases cues with
  | nil =>
    have hnil := file.content_nil
    rw [hnil] at hready hagain
    obtain ⟨hnone, hrest⟩ := getLine_nil hready line
    have hremaining := (List.append_eq_nil_iff.mp hrest.toRead).1
    refine ⟨_, create_eq.1 (Prod.ext (by rw [hnil]; exact hnone) rfl), ?_⟩
    rw [hnil]
    have hrewound := ready_rewindStream hrest (fun _ => bytesOf_eq_nil.mp hagain) hagain
    rwa [hremaining] at hrewound
  | cons c cues =>
    obtain rfl : cues = [] :=
      List.length_eq_zero_iff.mp (Nat.le_zero.mp (Nat.le_of_succ_le_succ hle))
    obtain ⟨l, rest, hcontent, hline⟩ := file.exists_line
    rw [hcontent] at hready
    obtain ⟨m, r', hget, hm, hrest, -⟩ :=
      getLine_line hready hline.no_eol (.inl rfl) hline.short line
    rw [rest.content_nil] at hrest
    have hremaining := (List.append_eq_nil_iff.mp hrest.toRead).1
    refine ⟨_, create_eq.2 c m (by rw [hcontent]; exact hget) (hm.trans hline.line_eq), ?_⟩
    have hrewound :=
      ready_rewindStream hrest (fun h => absurd h (mBuffer_ne_of_getLine hget)) hagain
    rwa [hremaining] at hrewound

/-- The first line is read in two parts, of which the second goes on behind it. -/
theorem getLine_split {l t : List UInt8} (hline : IsLineOf crlf c l) (hne : l ≠ [])
    (hroom : (10 :: t).length ≤ LINE_LEN) (more : List Chunk) (line : Memory) :
    ∃ m r', getLine (ExtSubStreamReader.create [] (⟨l, hne, hline.short.le⟩ ::
        ⟨10 :: t, List.cons_ne_nil _ _, hroom⟩ :: more)) line = (some m, r') ∧
      m.string = c.line ∧ Ready r' (t ++ bytesOf more) ∧ remaining r' = t := by
  have hbuffer : (l.drop 0 ++ 10 :: t).drop 0 = l ++ 10 :: t := rfl
  have hpart : ∀ b ∈ l.drop 0, ¬ IsEol b := hline.no_eol
  obtain ⟨r, hr⟩ : ∃ r, ExtSubStreamReader.create [] (⟨l, hne, hline.short.le⟩ ::
      ⟨10 :: t, List.cons_ne_nil _ _, hroom⟩ :: more) = r := ⟨_, rfl⟩
  have hbytes : IsBytes r.mEncoding := hr ▸ .inl rfl
  obtain ⟨m, r', hfind, hm, hready, hremaining, -⟩ :=
    @findLine_of_eol { r with mLastLineLen := 0 } _ 0 more _ _ _ hbytes hline.no_eol (.inl rfl)
      hbuffer line
  refine ⟨m, r', ?_, hm.trans hline.line_eq, hready, hremaining⟩
  rw [← hfind, ← hr]
  exact findLine_refill (.inl rfl) hpart hline.short line _

/-- **Whatever stands behind the first line**, as much as one read has can be left in the buffer. -/
theorem exists_left (file : File crlf (c :: cues)) {rest : List UInt8} {l t : List UInt8}
    (hcontent : file.content = l ++ 10 :: (t ++ rest)) (hline : IsLineOf crlf c l)
    (hroom : t.length < LINE_LEN) (line : Memory) :
    ∃ source, bytesOf source = file.content ∧ ∀ again, bytesOf again = file.content →
      ∃ r, create [] source again line = (⟨0, 30⟩, r) ∧ Ready r (t ++ file.content) ∧
        remaining r = t ∧ r.mDataSource = again := by
  have hne : l ≠ [] := by
    obtain ⟨d, l', rfl, -⟩ := hline.exists_head
    exact List.cons_ne_nil d l'
  obtain ⟨m, r', hget, hm, hready, hremaining⟩ :=
    getLine_split hline hne hroom (oneByOne rest) line
  refine ⟨_, ?_, fun again hagain => ⟨rewindStream r' again, create_eq.2 c m hget hm, ?_,
    hremaining, rfl⟩⟩
  · rw [bytesOf_cons, bytesOf_cons, bytesOf_oneByOne, hcontent]
    rfl
  · have hrewound :=
      ready_rewindStream hready (fun h => absurd h (mBuffer_ne_of_getLine hget)) hagain
    rwa [hremaining] at hrewound

/-- A line that has the most that a line may have does not go on in the first line of the file. -/
theorem getLine_of_left (file : File crlf (c :: cues)) {r : Reader} {t : List UInt8}
    (hready : Ready r (t ++ file.content)) (hremaining : remaining r = t)
    (hsource : r.mDataSource = oneByOne file.content) (ht : ∀ b ∈ t, ¬ IsEol b)
    (hlen : t.length + 1 = LINE_LEN) (s : Memory) : (getLine r s).1 = none := by
  obtain ⟨l, rest, hcontent, hline⟩ := file.exists_line
  obtain ⟨d, l', rfl, -⟩ := hline.exists_head
  have hne : t ≠ [] := by
    rintro rfl
    exact absurd hlen (by decide)
  have hclosed : ¬ Closed r := by
    have hbuffer : r.mBuffer ≠ some [] := by
      intro hnil
      rw [remaining, hnil, Option.getD_some, List.drop_nil] at hremaining
      exact hne hremaining.symm
    rintro (h | h | h)
    · rcases hready.isBytes with hr | hr <;> exact Encoding.noConfusion (hr.symm.trans h)
    · rcases hready.isBytes with hr | hr <;> exact Encoding.noConfusion (hr.symm.trans h)
    · exact hbuffer h
  have hends := (getLine_cases hclosed s).1
  have hfind : ∃ n, findEol r.mEncoding (t ++ bytesOf (oneByOne file.content)) = some n := by
    have hparts : t ++ bytesOf (oneByOne file.content) =
        (t ++ (d :: l')) ++ 10 :: rest.content := by
      rw [bytesOf_oneByOne, hcontent, List.append_assoc]
    rw [hparts]
    refine ⟨_, findEol_append hready.isBytes (fun b hb => ?_) (.inl rfl) _⟩
    exact (List.mem_append.mp hb).elim (ht b) (hline.no_eol b)
  rw [hremaining, hsource] at hends
  generalize getLine r s = result at hends
  rcases hends with ⟨-, hreaches, -, -, -⟩ | ⟨-, -⟩ | ⟨-, hnone, -, -, -⟩ | ⟨hnil, -⟩
  case line =>
    -- with one more byte, there is no room left
    have hfirst : [⟨[d], List.cons_ne_nil _ _, (by decide : 1 ≤ LINE_LEN)⟩] <+:
        oneByOne file.content := by
      rw [hcontent]
      exact ⟨_, rfl⟩
    have hnot : ∀ b ∈ t ++ [d], ¬ IsEol b := fun b hb =>
      (List.mem_append.mp hb).elim (ht b) fun hb =>
        hline.no_eol b (List.eq_of_mem_singleton hb ▸ List.mem_cons_self)
    have hlt := hreaches _ hfirst (findEol_of_notMem hready.isBytes hnot)
    have hone : bytesOf [⟨[d], List.cons_ne_nil _ _, (by decide : 1 ≤ LINE_LEN)⟩] = [d] := rfl
    rw [hone, List.length_append, List.length_singleton] at hlt
    omega
  case long => rfl
  case last =>
    obtain ⟨n, hn⟩ := hfind
    exact absurd (hn.symm.trans hnone) (Option.some_ne_none n)
  case none => exact absurd hnil hne

/-- **Two cues**: a read that ends behind the second one, or in front of its newline if there is no
room for that, and the cues are not decoded once. -/
theorem not_decodesEachOnce {c' : Cue} (file : File crlf (c :: c' :: cues)) :
    ¬ DecodesEachOnce file := by
  obtain ⟨l, tail, hcontent, hline⟩ := file.exists_line
  obtain ⟨l', tail', hcontent', hline'⟩ := tail.exists_line
  intro h
  have hitems : ∀ (source again : List Chunk) (r : Reader), bytesOf source = file.content →
      bytesOf again = file.content → create [] source again filled = (⟨0, 30⟩, r) →
      (decodeSubtitles (decodedItem ⟨0, 30⟩) r fun _ => filled).length = cues.length + 2 := by
    intro source again r hsource hagain hcreate
    have heq := h 0 source again filled (fun _ => filled) (Nat.zero_le 3) hsource hagain
    rw [List.take_zero, hcreate] at heq
    rw [heq, List.length_map]
    rfl
  by_cases hroom : l'.length + 1 < LINE_LEN
  · have hwhole : file.content = l ++ 10 :: ((l' ++ [10]) ++ tail'.content) := by
      rw [hcontent, hcontent', List.append_assoc]
      rfl
    obtain ⟨source, hsource, hleft⟩ := file.exists_left hwhole hline
      (by rwa [List.length_append, List.length_singleton]) filled
    obtain ⟨r, hcreate, hready, -, -⟩ := hleft source hsource
    rw [List.append_assoc] at hready
    have hlength := hitems source source r hsource hsource hcreate
    rw [(cons hline' file).decodeSubtitles_of_ready hready, List.length_map] at hlength
    exact absurd hlength (by simp only [List.length_cons]; omega)
  · have hwhole : file.content = l ++ 10 :: (l' ++ 10 :: tail'.content) := by
      rw [hcontent, hcontent']
    have hshort := hline'.short
    obtain ⟨source, hsource, hleft⟩ := file.exists_left hwhole hline hshort filled
    obtain ⟨r, hcreate, hready, hremaining, hagain⟩ := hleft _ (bytesOf_oneByOne file.content)
    have hlength := hitems source _ r hsource (bytesOf_oneByOne file.content) hcreate
    have hnone := file.getLine_of_left hready hremaining hagain hline'.no_eol (by omega)
      (zeros filled.before)
    have hitem : (decodedItem ⟨0, 30⟩ r filled).1 = none := by
      rw [decodedItem, findItem]
      generalize getLine r (zeros filled.before) = got at hnone
      obtain ⟨m, r'⟩ := got
      obtain rfl : m = none := hnone
      rfl
    rw [decodeSubtitles, decodeItems] at hlength
    generalize decodedItem ⟨0, 30⟩ r filled = got at hitem hlength
    obtain ⟨item, r'⟩ := got
    obtain rfl : item = none := hitem
    exact absurd hlength (by simp)

end File

/-- **JACOsub files.**  The cues are decoded once each, in every way to read the file, exactly if
there is one of them at most, and its times have room in 32 bits. -/
theorem decodesEachOnce_iff {crlf : Bool} {cues : List Cue} (file : File crlf cues) :
    DecodesEachOnce file ↔ cues.length ≤ 1 ∧ ∀ c ∈ cues, c.TimesFit := by
  have hall : (cues.map fun c => finishItem c.found) = cues.map Cue.item ↔
      ∀ c ∈ cues, c.TimesFit := by
    rw [List.map_inj_left]
    exact forall₂_congr fun c _ => c.finishItem_found_iff
  by_cases hle : cues.length ≤ 1
  · rw [and_iff_right hle, ← hall]
    constructor
    · intro h
      have hsource := bytesOf_oneByOne file.content
      obtain ⟨r, hcreate, hready⟩ :=
        file.exists_ready_of_length_le hle 0 hsource hsource filled
      have heq := h 0 _ _ filled (fun _ => filled) (Nat.zero_le 3) hsource hsource
      rw [hcreate] at heq
      exact (file.decodeSubtitles_of_ready hready _).symm.trans heq
    · intro h n source again line stack _ hsource hagain
      obtain ⟨r, hcreate, hready⟩ :=
        file.exists_ready_of_length_le hle n hsource hagain line
      rw [hcreate]
      exact (file.decodeSubtitles_of_ready hready stack).trans h
  · refine iff_of_false ?_ fun h => hle h.1
    match cues, file with
    | [], _ => exact absurd (Nat.zero_le 1) hle
    | [_], _ => exact absurd le_rfl hle
    | _ :: _ :: _, file => exact file.not_decodesEachOnce

/-- A number of two digits. -/
def twoDigits (n : ℕ) : Number where
  digits := padded 2 n
  ne_nil := List.ne_nil_of_length_pos (by rw [length_padded]; decide)
  isDigits := isDigit_of_mem_padded 2 n

/-- A time in the first minute. -/
def secondsClock (seconds : ℕ) : Clock :=
  ⟨twoDigits 0, twoDigits 0, twoDigits seconds, twoDigits 0⟩

/-- A cue of one second with the text `1`. -/
def secondCue (seconds : ℕ) : Cue where
  times := .clock (secondsClock seconds) (secondsClock (seconds + 1))
  between := [32]
  behind := [32]
  directives := none
  text := [49]
  shown := [49]
  between_ne_nil := List.cons_ne_nil _ _
  between_blank := fun _ hc => List.eq_of_mem_singleton hc ▸ rfl
  behind_ne_nil := List.cons_ne_nil _ _
  behind_blank := fun _ hc => List.eq_of_mem_singleton hc ▸ rfl
  head := ⟨49, rfl, rfl, fun _ => ⟨rfl, by decide⟩⟩
  isOneLine := ⟨by decide, by decide, by decide⟩
  shows := .char ⟨rfl, by decide, by decide, rfl, by decide⟩ .nil

/-- A file with two cues. -/
def twoCues : File false [secondCue 1, secondCue 3] where
  content := joinLines ([secondCue 1, secondCue 3].map Cue.line)
  isReadable := (isReadable_joinLines (by decide +kernel)).2
  lines_eq := (isReadable_joinLines (by decide +kernel)).1

/-- The first cue is decoded once more behind the second one, or not at all. -/
theorem not_decodesEachOnce_twoCues : ¬ ∀ (crlf : Bool) (cues : List Cue) (file : File crlf cues),
    (∀ c ∈ cues, c.TimesFit) → DecodesEachOnce file := by
  intro h
  have hfit : ∀ c ∈ [secondCue 1, secondCue 3], c.TimesFit := by
    rw [List.forall_mem_cons, List.forall_mem_singleton]
    exact ⟨⟨by decide +kernel, by decide +kernel⟩, ⟨by decide +kernel, by decide +kernel⟩⟩
  have hle := ((decodesEachOnce_iff twoCues).mp (h false _ twoCues hfit)).1
  exact absurd hle (by decide)

end Jacosub
end AmlSubtitle
