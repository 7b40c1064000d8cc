import AmlSubtitle.Lib.Scanf
import AmlSubtitle.Parser.TextSubtitle

/-!
# `parser/ExtParser/SubViewer.cpp`: the decoder of SubRip files

`decodedItem` reads lines up to one that has the times of a cue, and then the lines of its
text up to an empty line.

* A `Cue` is a cue as a SubRip file has it, and `Cue.item` is what it says.  Its lines end
  with a line feed, and maybe a carriage return in front of it.
* `decodesTo_iff`: a file of cues is decoded to their items, however it is read, exactly
  when `isEmptyLine` keeps each line of their texts: no line ends with a blank, which it
  would cut off, and none is a carriage return after blanks, which it takes for empty.
-/

namespace AmlSubtitle
namespace SubViewer

open Words Scanf ExtSubStreamReader TextSubtitle

/-! ## The decoder -/

/-- `"%d:%d:%d%[,.:]%d"`. -/
def timeFormat : List Directive :=
  [.int, .literal 58, .int, .literal 58, .int, .oneOf [44, 46, 58], .int]

/-- `"%d:%d:%d%[,.:]%d --> %d:%d:%d%[,.:]%d"`. -/
def timesFormat : List Directive :=
  timeFormat ++ [.blank, .literal 45, .literal 45, .literal 62, .blank] ++ timeFormat

/-- A time in hundredths of a second. -/
def centiseconds (a1 a2 a3 a4 : ℤ) : ℤ :=
  asSigned 32 (a1 * 360000 + a2 * 6000 + a3 * 100 + a4.tdiv 10)

/-- The times of a line that has all ten fields. -/
def scanTimes (line : List UInt8) : Option (ℤ × ℤ) :=
  match scan timesFormat line with
  | [.int a1, .int a2, .int a3, .text _, .int a4, .int b1, .int b2, .int b3, .text _, .int b4] =>
    some (centiseconds a1 a2 a3 a4, centiseconds b1 b2 b3 b4)
  | _ => none

/-- The inner loop of `decodedItem`: the lines of the text. -/
def readText : ℕ → Reader → Memory → List (List UInt8) × Reader × Memory
  | 0, r, line => ([], r, line)
  | fuel + 1, r, line =>
    match getLine r line with
    | (none, r) => ([], r, line)
    | (some line, r) =>
      match isEmptyLine line with
      | (true, line) => ([], r, line)
      | (false, line) =>
        let (lines, r, last) := readText fuel r line
        (line.string :: lines, r, last)

/-- The outer loop of `decodedItem`. -/
def findItem : ℕ → Decoder
  | 0, r, _ => (none, r)
  | fuel + 1, r, line =>
    match getLine r line with
    | (none, r) => (none, r)
    | (some line, r) =>
      match scanTimes line.string with
      | none => findItem fuel r line
      | some (start, stop) =>
        match readText ((toRead r).length + 1) r line with
        | ([], r, line) => findItem fuel r line
        | (lines, r, _) => (some ⟨start, stop, lines⟩, r)

/-- `decodedItem`. -/
def decodedItem : Decoder := fun r line => findItem ((toRead r).length + 1) r line

/-! ## Progress -/

/-- The loop over the text leaves no more to read than there was. -/
theorem length_readText_le : ∀ (fuel : ℕ) (r : Reader) (s : Memory),
    (toRead (readText fuel r s).2.1).length ≤ (toRead r).length := by
  intro fuel
  induction fuel with
  | zero => exact fun _ _ => le_rfl
  | succ fuel ih =>
    intro r s
    have hle := length_toRead_le r s
    rw [readText]
    split
    · next r' hget =>
      rw [hget] at hle
      exact hle
    · next line r' hget =>
      rw [hget] at hle
      split
      · exact hle
      · next line' _ => exact (ih r' line').trans hle

/-- The loop over the text ends by itself. -/
theorem readText_succ : ∀ (fuel : ℕ) (r : Reader) (s : Memory), (toRead r).length < fuel →
    readText (fuel + 1) r s = readText fuel r s := by
  intro fuel
  induction fuel with
  | zero => exact fun _ _ h => absurd h (Nat.not_lt_zero _)
  | succ fuel ih =>
    intro r s h
    rw [readText]
    conv_rhs => rw [readText]
    split
    · rfl
    · next line r' hget =>
      have hlt := length_toRead_lt hget
      split
      · rfl
      · next line' _ => rw [ih r' line' (by omega)]

/-- An item takes at least one byte. -/
theorem length_findItem_lt : ∀ (fuel : ℕ) (r : Reader) (s : Memory) (item : ExtSubItem)
    (r' : Reader), findItem fuel r s = (some item, r') →
    (toRead r').length < (toRead r).length := by
  intro fuel
  induction fuel with
  | zero => exact fun _ _ _ _ h => absurd (congrArg Prod.fst h).symm (Option.some_ne_none _)
  | succ fuel ih =>
    intro r s item r' h
    rw [findItem] at h
    split at h
    · exact absurd (congrArg Prod.fst h).symm (Option.some_ne_none _)
    · next line r1 hget =>
      have hlt := length_toRead_lt hget
      split at h
      · exact (ih r1 line item r' h).trans hlt
      · have hle := length_readText_le ((toRead r1).length + 1) r1 line
        split at h
        · next r2 line2 hread =>
          rw [hread] at hle
          exact (ih r2 line2 item r' h).trans (hle.trans_lt hlt)
        · next lines r2 line2 _ hread =>
          rw [hread] at hle
          rw [← show r2 = r' from congrArg Prod.snd h]
          exact hle.trans_lt hlt

/-- The hunt for a cue ends by itself. -/
theorem findItem_succ : ∀ (fuel : ℕ) (r : Reader) (s : Memory), (toRead r).length < fuel →
    findItem (fuel + 1) r s = findItem fuel r s := by
  intro fuel
  induction fuel with
  | zero => exact fun _ _ h => absurd h (Nat.not_lt_zero _)
  | succ fuel ih =>
    intro r s h
    rw [findItem]
    conv_rhs => rw [findItem]
    split
    · rfl
    · next line r1 hget =>
      have hlt := length_toRead_lt hget
      split
      · exact ih r1 line (by omega)
      · have hle := length_readText_le ((toRead r1).length + 1) r1 line
        split
        · next r2 line2 hread =>
          rw [hread] at hle
          exact ih r2 line2 (by dsimp only at hle; omega)
        · rfl

theorem progresses_decodedItem : Progresses decodedItem := fun r s item r' h =>
  length_findItem_lt _ r s item r' h

/-- More fuel than there are bytes left changes none of the items. -/
theorem decodeItems_of_lt {fuel : ℕ} {r : Reader} (h : (toRead r).length < fuel)
    (stack : ℕ → Memory) :
    decodeItems decodedItem fuel r stack = decodeSubtitles decodedItem r stack :=
  decodeItems_eq progresses_decodedItem fuel r stack h

/-! ## Cues -/

/-- A time of day, as a cue has it. -/
structure Time where
  hours : ℕ
  minutes : ℕ
  seconds : ℕ
  millis : ℕ
  hours_lt : hours < 100
  minutes_lt : minutes < 60
  seconds_lt : seconds < 60
  millis_lt : millis < 1000

/-- `hh:mm:ss,mmm`. -/
def Time.text (t : Time) : List UInt8 :=
  padded 2 t.hours ++ 58 :: (padded 2 t.minutes ++ 58 :: (padded 2 t.seconds ++
    44 :: padded 3 t.millis))

/-- The time in units of 90 kHz, truncated to hundredths of a second. -/
def Time.pts (t : Time) : ℤ :=
  sub_ms2pts (t.hours * 360000 + t.minutes * 6000 + t.seconds * 100 + t.millis / 10)

/-- A line of a file: what stands in front of its newline, and whether the newline has a
carriage return. -/
structure Line where
  text : List UInt8
  cr : Bool
  no_newline : 10 ∉ text
  no_null : 0 ∉ text
  no_cr : cr = false → text.getLast? ≠ some 13
  length_lt : text.length + cr.toNat < LINE_LEN

/-- The line up to its line feed. -/
def Line.raw (l : Line) : List UInt8 := l.text ++ if l.cr then [13] else []

/-- The bytes of the line. -/
def Line.bytes (l : Line) : List UInt8 := l.raw ++ [10]

/-- A line of blanks. -/
def IsBlankLine (text : List UInt8) : Prop := ∀ c ∈ text, isBlank c = true

instance : DecidablePred IsBlankLine := fun text =>
  List.decidableBAll (fun c => isBlank c = true) text

/-- A cue: a line with its number, one with its times, those of its text and a blank one. -/
structure Cue where
  index : Line
  times : Line
  texts : List Line
  blank : Line
  start : Time
  stop : Time
  index_ne_nil : index.text ≠ []
  index_digits : ∀ c ∈ index.text, isDigit c = true
  times_eq : times.text = start.text ++ [32, 45, 45, 62, 32] ++ stop.text
  texts_ne_nil : texts ≠ []
  texts_nonblank : ∀ l ∈ texts, ¬ IsBlankLine l.text
  isBlankLine : IsBlankLine blank.text

/-- The bytes of the cue. -/
def Cue.bytes (cue : Cue) : List UInt8 :=
  cue.index.bytes ++ cue.times.bytes ++ cue.texts.flatMap Line.bytes ++ cue.blank.bytes

/-- The item of the cue. -/
def Cue.item (cue : Cue) : ExtSubItem where
  start := cue.start.pts
  stop := cue.stop.pts
  lines := cue.texts.map fun l => replaceLine l.text

/-- The bytes of a file of cues. -/
def fileOf (cues : List Cue) : List UInt8 := cues.flatMap Cue.bytes

/-- **A file of cues is decoded to their items**, in every way to read it. -/
def DecodesTo (cues : List Cue) : Prop :=
  ∀ (n : ℕ) (source : List Chunk) (stack : ℕ → Memory), n ≤ 3 → bytesOf source = fileOf cues →
    decodeSubtitles decodedItem (create ((fileOf cues).take n) source) stack = cues.map Cue.item

/-! ## Scanning the lines of a cue -/

/-- A number of a time line, with what stands behind it. -/
theorem scanInt_padded {k n : ℕ} (hk : k ≠ 0) (hn : n < 10 ^ k) (h31 : n < 2 ^ 31)
    {rest : List UInt8} (hrest : ∀ c ∈ rest.head?, isDigit c = false) :
    scanInt (padded k n ++ rest) = some ((n : ℤ), rest) := by
  have hne : padded k n ≠ [] := List.ne_nil_of_length_pos <| by
    rw [length_padded]
    exact Nat.pos_of_ne_zero hk
  rw [scanInt_digits hne (isDigit_of_mem_padded k n) hrest, decimal_padded, Nat.mod_eq_of_lt hn,
    toInt_natCast h31]

/-- What is scanned of a time. -/
def Time.values (t : Time) : List Value :=
  [.int t.hours, .int t.minutes, .int t.seconds, .text [44], .int t.millis]

/-- The directives of one time. -/
theorem scan_time (t : Time) (format : List Directive) {rest : List UInt8}
    (hrest : ∀ c ∈ rest.head?, isDigit c = false) :
    scan (timeFormat ++ format) (t.text ++ rest) = t.values ++ scan format rest := by
  have hcolon : ∀ s : List UInt8, ∀ c ∈ (58 :: s).head?, isDigit c = false := fun s c hc =>
    Option.some.inj hc ▸ rfl
  have hcomma : ∀ s : List UInt8, ∀ c ∈ (44 :: s).head?, isDigit c = false := fun s c hc =>
    Option.some.inj hc ▸ rfl
  obtain ⟨d, ds, hds, hd⟩ := exists_padded_eq_cons (k := 3) (by decide) t.millis
  have hset : ([44, 46, 58] : List UInt8).contains d = false := by
    have h48 := (toNat_of_isDigit hd).1
    have h57 := (toNat_of_isDigit hd).2
    rw [List.contains_eq_mem, decide_eq_false_iff_not]
    intro hmem
    simp only [List.mem_cons, List.not_mem_nil, or_false] at hmem
    rcases hmem with rfl | rfl | rfl
    · exact absurd h48 (by decide)
    · exact absurd h48 (by decide)
    · exact absurd h57 (by decide)
  have hminutes := t.minutes_lt
  have hseconds := t.seconds_lt
  have htake : (44 :: (padded 3 t.millis ++ rest)).takeWhile ([44, 46, 58].contains ·) = [44] := by
    rw [hds, List.cons_append, List.takeWhile_cons_of_pos (by decide),
      List.takeWhile_cons_of_neg ((Bool.not_eq_true _).mpr hset)]
  have hdrop : (44 :: (padded 3 t.millis ++ rest)).dropWhile ([44, 46, 58].contains ·) =
      padded 3 t.millis ++ rest := by
    rw [hds, List.cons_append, List.dropWhile_cons_of_pos (by decide),
      List.dropWhile_cons_of_neg ((Bool.not_eq_true _).mpr hset)]
  rw [Time.text, timeFormat]
  simp only [List.append_assoc, List.cons_append]
  rw [scan, scanInt_padded (by decide) t.hours_lt (t.hours_lt.trans (by decide)) (hcolon _)]
  dsimp only
  rw [scan, if_pos rfl, scan,
    scanInt_padded (by decide) (by omega) (by omega) (hcolon _)]
  dsimp only
  rw [scan, if_pos rfl, scan,
    scanInt_padded (by decide) (by omega) (by omega) (hcomma _)]
  dsimp only
  rw [scan, htake, hdrop, if_neg (List.cons_ne_nil _ _), scan,
    scanInt_padded (by decide) t.millis_lt (t.millis_lt.trans (by decide)) hrest]
  rfl

theorem centiseconds_time (t : Time) :
    sub_ms2pts (centiseconds t.hours t.minutes t.seconds t.millis) = t.pts := by
  have hhours := t.hours_lt
  have hminutes := t.minutes_lt
  have hseconds := t.seconds_lt
  have hmillis := t.millis_lt
  have hdiv : (t.millis : ℤ).tdiv 10 = t.millis / 10 :=
    Int.tdiv_eq_ediv_of_nonneg (Int.natCast_nonneg _)
  rw [Time.pts, centiseconds, hdiv, asSigned]
  exact congrArg sub_ms2pts (Int.bmod_eq_of_le (by omega) (by omega))

/-- The line with the times of a cue. -/
theorem scanTimes_times (cue : Cue) : scanTimes cue.times.text =
    some (centiseconds cue.start.hours cue.start.minutes cue.start.seconds cue.start.millis,
      centiseconds cue.stop.hours cue.stop.minutes cue.stop.seconds cue.stop.millis) := by
  have hspace : ∀ s : List UInt8, ∀ c ∈ (32 :: s).head?, isDigit c = false := fun s c hc =>
    Option.some.inj hc ▸ rfl
  have hdigit : ∀ s : List UInt8, (padded 2 cue.stop.hours ++ s).dropWhile isSpace =
      padded 2 cue.stop.hours ++ s := fun s => dropWhile_padded (by decide) _ s
  have harrow : ∀ format, scan (.blank :: .literal 45 :: .literal 45 :: .literal 62 :: .blank ::
      format) (32 :: 45 :: 45 :: 62 :: 32 :: cue.stop.text) = scan format cue.stop.text :=
    fun format => congrArg (scan format) (hdigit _)
  have hstop : scan timeFormat cue.stop.text = cue.stop.values := by
    have hscan : scan (timeFormat ++ []) (cue.stop.text ++ []) = cue.stop.values ++ scan [] [] :=
      scan_time cue.stop [] fun _ hc => absurd hc (Option.not_mem_none _)
    rwa [List.append_nil, List.append_nil] at hscan
  have hscan : scan timesFormat cue.times.text = cue.start.values ++ cue.stop.values := by
    rw [cue.times_eq, timesFormat, List.append_assoc, List.append_assoc]
    exact (scan_time cue.start _ (hspace _)).trans
      (congrArg _ ((harrow timeFormat).trans hstop))
  rw [scanTimes, hscan]
  rfl

/-- The line with the number of a cue. -/
theorem scanTimes_index (cue : Cue) : scanTimes cue.index.text = none := by
  have hint : scanInt (cue.index.text ++ []) = some (toInt (decimal cue.index.text), []) :=
    scanInt_digits cue.index_ne_nil cue.index_digits fun _ hc => absurd hc (Option.not_mem_none _)
  rw [List.append_nil] at hint
  have hscan : scan timesFormat cue.index.text = [.int (toInt (decimal cue.index.text))] := by
    rw [timesFormat, timeFormat, List.append_assoc, List.cons_append, scan, hint]
    rfl
  rw [scanTimes, hscan]

/-! ## Reading the lines of a cue -/

theorem Line.notMem_raw (l : Line) : ∀ c ∈ l.raw, ¬ IsEol c := by
  have hcr : ∀ c ∈ (if l.cr then [13] else [] : List UInt8), c = 13 := by
    intro c hc
    split_ifs at hc
    · exact List.eq_of_mem_singleton hc
    · exact absurd hc List.not_mem_nil
  intro c hc
  rcases List.mem_append.mp hc with hc | hc
  · exact not_isEol_of_mem l.no_newline l.no_null c hc
  · rw [hcr c hc]
    rintro (h | h) <;> exact absurd h (by decide)

theorem Line.length_raw_lt (l : Line) : l.raw.length < LINE_LEN := by
  have hlen := l.length_lt
  rw [Line.raw, List.length_append]
  cases h : l.cr <;> rw [h] at hlen <;> exact hlen

theorem Line.stripCr_raw (l : Line) : Lines.stripCr l.raw = l.text := by
  rw [Line.raw]
  cases h : l.cr with
  | true => exact Lines.stripCr_append_singleton l.text
  | false =>
    rw [if_neg Bool.false_ne_true, List.append_nil]
    exact Lines.stripCr_of_ne (l.no_cr h)

/-- `getLine` gives a line without its newline. -/
theorem getLine_bytes {r : Reader} {l : Line} {rest : List UInt8}
    (h : Ready r (l.bytes ++ rest)) (s : Memory) :
    ∃ m r', getLine r s = (some m, r') ∧ m.string = l.text ∧ Ready r' rest := by
  rw [Line.bytes, List.append_assoc] at h
  obtain ⟨m, r', hget, hm, hready, -⟩ :=
    getLine_line h l.notMem_raw (Or.inl rfl) l.length_raw_lt s
  exact ⟨m, r', hget, hm.trans l.stripCr_raw, hready⟩

/-- The lines of a text, up to the blank one. -/
theorem readText_lines {blank : Line} (hblank : IsBlankLine blank.text) {rest : List UInt8}
    (texts : List Line) (hkept : ∀ l ∈ texts, IsKept l.text)
    (hnonblank : ∀ l ∈ texts, ¬ IsBlankLine l.text) :
    ∀ fuel > texts.length, ∀ {r : Reader}, ∀ s,
      Ready r (texts.flatMap Line.bytes ++ (blank.bytes ++ rest)) →
      ∃ r' m, readText fuel r s = (texts.map Line.text, r', m) ∧ Ready r' rest := by
  induction texts with
  | nil =>
    intro fuel hfuel r s h
    obtain ⟨n, rfl⟩ := Nat.exists_eq_succ_of_ne_zero (Nat.ne_zero_of_lt hfuel)
    obtain ⟨m, r', hget, hm, hready⟩ := getLine_bytes h s
    have hempty : isEmptyLine m = (true, trim m) := isEmptyLine_of_blank (hm ▸ hblank)
    refine ⟨r', trim m, ?_, hready⟩
    rw [readText, hget]
    dsimp only
    rw [hempty]
    rfl
  | cons l texts ih =>
    intro fuel hfuel r s h
    obtain ⟨n, rfl⟩ := Nat.exists_eq_succ_of_ne_zero (Nat.ne_zero_of_lt hfuel)
    rw [List.flatMap_cons, List.append_assoc] at h
    obtain ⟨m, r', hget, hm, hready⟩ := getLine_bytes h s
    obtain ⟨hempty, htrim⟩ := isEmptyLine_of_isKept hm (hkept l List.mem_cons_self)
      (hnonblank l List.mem_cons_self) l.no_newline
    obtain ⟨r'', m', hread, hready'⟩ := ih (fun l hl => hkept l (List.mem_cons_of_mem _ hl))
      (fun l hl => hnonblank l (List.mem_cons_of_mem _ hl)) n (Nat.lt_of_succ_lt_succ hfuel)
      (trim m) hready
    refine ⟨r'', m', ?_, hready'⟩
    rw [readText, hget]
    dsimp only
    rw [hempty]
    dsimp only
    rw [hread, htrim]
    rfl

theorem length_le_bytes (texts : List Line) (rest : List UInt8) :
    texts.length ≤ (texts.flatMap Line.bytes ++ rest).length := by
  induction texts with
  | nil => exact Nat.zero_le _
  | cons l texts ih =>
    rw [List.flatMap_cons, List.append_assoc, List.length_append, List.length_cons, Line.bytes,
      List.length_append]
    exact (Nat.succ_le_succ ih).trans (by rw [List.length_singleton]; omega)

/-- The item that `decodedItem` makes of a cue. -/
def Cue.found (cue : Cue) : ExtSubItem where
  start := centiseconds cue.start.hours cue.start.minutes cue.start.seconds cue.start.millis
  stop := centiseconds cue.stop.hours cue.stop.minutes cue.stop.seconds cue.stop.millis
  lines := cue.texts.map Line.text

theorem finishItem_found (cue : Cue) : finishItem cue.found = cue.item := by
  rw [finishItem, Cue.item, Cue.found]
  simp only [centiseconds_time, List.map_map]
  rfl

/-- **A cue is read to its blank line.** -/
theorem decodedItem_cue {cue : Cue} (hkept : ∀ l ∈ cue.texts, IsKept l.text) {r : Reader}
    {rest : List UInt8} (h : Ready r (cue.bytes ++ rest)) (s : Memory) :
    ∃ r', decodedItem r s = (some cue.found, r') ∧ Ready r' rest := by
  have hfuel : ∃ n, (toRead r).length + 1 = n + 2 := by
    refine ⟨(toRead r).length - 1, ?_⟩
    have hpos : 0 < (toRead r).length := by
      rw [toRead, h.toRead, Cue.bytes, Line.bytes]
      simp only [List.append_assoc, List.length_append, List.length_singleton]
      omega
    omega
  obtain ⟨n, hfuel⟩ := hfuel
  rw [Cue.bytes, List.append_assoc, List.append_assoc, List.append_assoc] at h
  obtain ⟨m1, r1, hget1, hm1, hready1⟩ := getLine_bytes h s
  obtain ⟨m2, r2, hget2, hm2, hready2⟩ := getLine_bytes hready1 m1
  have hlen : (toRead r2).length + 1 > cue.texts.length := by
    rw [toRead, hready2.toRead]
    exact Nat.lt_succ_of_le (length_le_bytes _ _)
  obtain ⟨r3, m3, hread, hready3⟩ :=
    readText_lines cue.isBlankLine cue.texts hkept cue.texts_nonblank _ hlen m2 hready2
  refine ⟨r3, ?_, hready3⟩
  obtain ⟨l, ls, hls⟩ := List.exists_cons_of_ne_nil cue.texts_ne_nil
  rw [decodedItem, hfuel, findItem, hget1]
  dsimp only
  rw [hm1, scanTimes_index]
  dsimp only
  rw [findItem, hget2]
  dsimp only
  rw [hm2, scanTimes_times]
  dsimp only
  rw [hread, Cue.found, hls]
  rfl

/-- **A file of cues is decoded.** -/
theorem decodeItems_cues (cues : List Cue) (hkept : ∀ cue ∈ cues, ∀ l ∈ cue.texts, IsKept l.text) :
    ∀ fuel > cues.length, ∀ {r : Reader}, ∀ stack, Ready r (fileOf cues) →
      decodeItems decodedItem fuel r stack = cues.map Cue.item := by
  induction cues with
  | nil =>
    intro fuel hfuel r stack h
    obtain ⟨n, rfl⟩ := Nat.exists_eq_succ_of_ne_zero (Nat.ne_zero_of_lt hfuel)
    have hnone := (getLine_nil h (stack 0)).1
    rw [decodeItems, decodedItem, findItem, ← Prod.eta (getLine r (stack 0)), hnone]
    rfl
  | cons cue cues ih =>
    intro fuel hfuel r stack h
    obtain ⟨n, rfl⟩ := Nat.exists_eq_succ_of_ne_zero (Nat.ne_zero_of_lt hfuel)
    obtain ⟨r', hfound, hready⟩ := decodedItem_cue (hkept cue List.mem_cons_self) h (stack 0)
    rw [decodeItems, hfound]
    dsimp only
    rw [finishItem_found, ih (fun c hc => hkept c (List.mem_cons_of_mem _ hc)) n
      (Nat.lt_of_succ_lt_succ hfuel) _ hready]
    rfl

/-! ## Every item that is decoded -/

theorem isKept_of_readText : ∀ (fuel : ℕ) (r : Reader) (s : Memory),
    ∀ l ∈ (readText fuel r s).1, IsKept l := by
  intro fuel
  induction fuel with
  | zero => exact fun _ _ _ h => absurd h List.not_mem_nil
  | succ fuel ih =>
    intro r s l hl
    rw [readText] at hl
    split at hl
    · exact absurd hl List.not_mem_nil
    · next line r' _ =>
      split at hl
      · exact absurd hl List.not_mem_nil
      · next line' hempty =>
        rcases List.mem_cons.mp hl with rfl | hl
        · exact isKept_of_isEmptyLine hempty
        · exact ih r' line' l hl

theorem isKept_of_findItem : ∀ (fuel : ℕ) (r : Reader) (s : Memory),
    ∀ item ∈ (findItem fuel r s).1, ∀ l ∈ item.lines, IsKept l := by
  intro fuel
  induction fuel with
  | zero => exact fun _ _ _ h => absurd h (Option.not_mem_none _)
  | succ fuel ih =>
    intro r s item hitem
    rw [findItem] at hitem
    split at hitem
    · exact absurd hitem (Option.not_mem_none _)
    · next line r' _ =>
      split at hitem
      · exact ih r' line item hitem
      · split at hitem
        · next r'' line' _ => exact ih r'' line' item hitem
        · next lines r'' line' _ hread =>
          obtain rfl := Option.some.inj hitem
          have hkept := isKept_of_readText ((toRead r').length + 1) r' line
          rw [hread] at hkept
          exact hkept

/-- **Each line of an item comes from a line that `isEmptyLine` keeps.** -/
theorem exists_isKept_of_mem_decodeItems : ∀ (fuel : ℕ) (r : Reader) (stack : ℕ → Memory),
    ∀ item ∈ decodeItems decodedItem fuel r stack, ∀ line ∈ item.lines,
      ∃ l, IsKept l ∧ line = replaceLine l := by
  intro fuel
  induction fuel with
  | zero => exact fun _ _ _ h => absurd h List.not_mem_nil
  | succ fuel ih =>
    intro r stack item hitem line hline
    rw [decodeItems] at hitem
    split at hitem
    · exact absurd hitem List.not_mem_nil
    · next found r' hfound =>
      rcases List.mem_cons.mp hitem with rfl | hitem
      · obtain ⟨l, hl, rfl⟩ := List.mem_map.mp hline
        have hkept := isKept_of_findItem ((toRead r).length + 1) r (stack 0) found
          (congrArg Prod.fst hfound)
        exact ⟨l, hkept l hl, rfl⟩
      · exact ih r' _ item hitem line hline

/-! ## The files that are decoded -/

theorem head_fileOf (cues : List Cue) : ∀ c ∈ (fileOf cues).head?, c.toNat < 0xF8 := by
  cases cues with
  | nil => exact nofun
  | cons cue cues =>
    obtain ⟨d, ds, hds⟩ := List.exists_cons_of_ne_nil cue.index_ne_nil
    have hd := (toNat_of_isDigit (cue.index_digits d (hds ▸ List.mem_cons_self))).2
    have hhead : (fileOf (cue :: cues)).head? = some d := by
      rw [fileOf, List.flatMap_cons, Cue.bytes, Line.bytes, Line.raw, hds]
      rfl
    rw [hhead]
    intro c hc
    rw [← Option.some.inj hc]
    omega

theorem length_le_fileOf (cues : List Cue) : cues.length ≤ (fileOf cues).length := by
  induction cues with
  | nil => exact le_rfl
  | cons cue cues ih =>
    have hpos : 0 < cue.bytes.length := by
      rw [Cue.bytes, Line.bytes]
      simp only [List.length_append, List.length_singleton]
      omega
    rw [fileOf, List.flatMap_cons, List.length_append, List.length_cons]
    exact (Nat.add_le_add ih hpos).trans (Nat.add_comm _ _).le

/-- **A file of cues is decoded to their items exactly when each line of their texts is
kept**: it does not end with a blank, and it is no carriage return after blanks. -/
theorem decodesTo_iff (cues : List Cue) :
    DecodesTo cues ↔ ∀ cue ∈ cues, ∀ l ∈ cue.texts, IsKept l.text := by
  constructor
  · intro h cue hcue l hl
    have hdecode := h 0 (oneByOne (fileOf cues)) (fun _ => filled) (Nat.zero_le 3)
      (bytesOf_oneByOne _)
    have hitem : cue.item ∈ cues.map Cue.item := List.mem_map_of_mem hcue
    rw [← hdecode] at hitem
    have hline : replaceLine l.text ∈ cue.item.lines := List.mem_map.mpr ⟨l, hl, rfl⟩
    obtain ⟨kept, hkept, heq⟩ :=
      exists_isKept_of_mem_decodeItems _ _ _ cue.item hitem _ hline
    exact isKept_of_replaceLine_eq l.no_newline hkept heq
  · intro h n source stack _ hsource
    have hready := ready_create (head_fileOf cues) n hsource
    refine decodeItems_cues cues h _ ?_ stack hready
    rw [toRead, hready.toRead]
    exact Nat.lt_succ_of_le (length_le_fileOf cues)

/-- A line of ASCII with no carriage return. -/
def asciiLine (text : List UInt8) (h10 : 10 ∉ text) (h0 : 0 ∉ text)
    (hlast : text.getLast? ≠ some 13) (hlen : text.length < LINE_LEN) : Line where
  text := text
  cr := false
  no_newline := h10
  no_null := h0
  no_cr := fun _ => hlast
  length_lt := hlen

/-- A cue from the first second to the second, with a blank at the end of its text. -/
def trailingBlank : Cue where
  index := asciiLine [49] (by decide) (by decide) (by decide) (by decide)
  times := asciiLine ([48, 48, 58, 48, 48, 58, 48, 49, 44, 48, 48, 48, 32, 45, 45, 62, 32, 48, 48,
    58, 48, 48, 58, 48, 50, 44, 48, 48, 48]) (by decide) (by decide) (by decide) (by decide)
  texts := [asciiLine [72, 105, 32] (by decide) (by decide) (by decide) (by decide)]
  blank := asciiLine [] (by decide) (by decide) (by decide) (by decide)
  start := ⟨0, 0, 1, 0, by decide, by decide, by decide, by decide⟩
  stop := ⟨0, 0, 2, 0, by decide, by decide, by decide, by decide⟩
  index_ne_nil := by decide
  index_digits := by decide +kernel
  times_eq := rfl
  texts_ne_nil := by decide
  texts_nonblank := by decide
  isBlankLine := by decide +kernel

/-- **A blank at the end of a line is cut off.** -/
theorem not_decodesTo_trailingBlank : ¬ DecodesTo [trailingBlank] := by
  intro h
  have hdecode := h 3 [⟨fileOf [trailingBlank], by decide, by decide⟩] (fun _ => ⟨0, []⟩)
    (by decide) (by decide)
  revert hdecode
  decide

end SubViewer
end AmlSubtitle
