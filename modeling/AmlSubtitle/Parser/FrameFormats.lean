import AmlSubtitle.Parser.ExtSubFactory

/-!
# `parser/ExtParser/Mircodvd.cpp`, `parser/ExtParser/Mplayer1.cpp`: files that are timed in frames

A line of such a file has the frames at which its text is shown and taken off again.  A line that
begins at frame 1 is no subtitle: its text is the frame rate of the lines that follow.

* `frameItem`: what both decoders do with the fields of a line.
* `Entry`: what a line says, `items`: the items of a document, each with the rate in front of it.
* `Mircodvd.decodes_microdvd`, `Mplayer1.decodes_mpl1`: a file of such lines is told by
  `detect`, and it is decoded to the items of its document, in every way to read it.
-/

namespace AmlSubtitle
namespace FrameFormats

open Words Scanf ExtSubStreamReader TextSubtitle

/-! ## The fields of a line -/

/-- A number of frames in hundredths of a second: `start*100/mPtsRate`, in `int`s. -/
def ofFrames (mPtsRate frames : ℤ) : ℤ := (asSigned 32 (frames * 100)).tdiv mPtsRate

/-- The rate that is kept, and the item, unless the loop goes on. -/
def frameItem (mPtsRate start stop : ℤ) (text : List UInt8) : ℤ × Option ExtSubItem :=
  if start = 1 then (if 0 < atoi text then atoi text else mPtsRate, none)
  else (mPtsRate, some ⟨ofFrames mPtsRate start, ofFrames mPtsRate stop, [text]⟩)

/-! ## Documents -/

/-- What a line says. -/
inductive Entry where
  | rate (fps : ℕ)
  | cue (start stop : ℕ) (text : List UInt8)
  deriving DecidableEq, Repr

/-- A time in units of 90 kHz, of a frame at a rate: in whole hundredths of a second. -/
def pts (fps frame : ℕ) : ℤ := ((frame * 100 / fps * 900 : ℕ) : ℤ)

/-- The items of a document, from a rate on. -/
def items : ℕ → List Entry → List ExtSubItem
  | _, [] => []
  | _, .rate fps :: entries => items fps entries
  | fps, .cue start stop text :: entries =>
    ⟨pts fps start, pts fps stop, [replaceLine text]⟩ :: items fps entries

/-- The fields of a line say this. -/
def Means (start stop : ℕ) (text : List UInt8) : Entry → Prop
  | .rate fps => start = 1 ∧ 0 < fps ∧ ∃ (n : Numeral) (tail : List UInt8),
      text = n.digits ++ tail ∧ n.value = fps ∧ ∀ c ∈ tail.head?, isDigit c = false
  | .cue start' stop' text' => start ≠ 1 ∧ start * 100 < 2 ^ 31 ∧ stop * 100 < 2 ^ 31 ∧
      start' = start ∧ stop' = stop ∧ text' = text

theorem ofFrames_natCast {frame : ℕ} (h : frame * 100 < 2 ^ 31) (fps : ℕ) :
    ofFrames fps frame = (frame * 100 / fps : ℕ) := by
  have hsigned : asSigned 32 ((frame : ℤ) * 100) = (frame * 100 : ℕ) := by
    rw [← asSigned_of_lt (w := 32) (n := frame * 100) (by omega)]
    push_cast
    rfl
  rw [ofFrames, hsigned]
  exact Int.ofNat_tdiv _ _

theorem frameItem_rate {stop fps : ℕ} {text : List UInt8} {start : ℕ}
    (h : Means start stop text (.rate fps)) (mPtsRate : ℤ) :
    frameItem mPtsRate start stop text = ((fps : ℤ), none) := by
  obtain ⟨hstart, hpos, n, tail, rfl, hn, htail⟩ := h
  rw [frameItem, if_pos (by exact_mod_cast hstart), atoi_numeral n htail, hn,
    if_pos (by exact_mod_cast hpos)]

theorem frameItem_cue {start stop start' stop' : ℕ} {text text' : List UInt8}
    (h : Means start stop text (.cue start' stop' text')) (fps : ℕ) :
    frameItem fps start stop text = ((fps : ℤ), some ⟨(start' * 100 / fps : ℕ),
      (stop' * 100 / fps : ℕ), [text']⟩) := by
  obtain ⟨hstart, hlt, hlt', rfl, rfl, rfl⟩ := h
  rw [frameItem, if_neg (by exact_mod_cast hstart), ofFrames_natCast hlt, ofFrames_natCast hlt']

/-- **The lines of a document** are decoded to its items. -/
theorem map_finishItem_itemsOfLines {α : Type} {parse : ℤ → List UInt8 → ℤ × Option ExtSubItem}
    (text : α → List UInt8) (entry : α → Entry) (document : List α)
    (hparse : ∀ l ∈ document, ∃ start stop t, Means start stop t (entry l) ∧
      ∀ mPtsRate, parse mPtsRate (text l) = frameItem mPtsRate start stop t) :
    ∀ fps : ℕ, (itemsOfLines parse fps (document.map text)).map finishItem =
      items fps (document.map entry) := by
  induction document with
  | nil => exact fun _ => rfl
  | cons l document ih =>
    intro fps
    obtain ⟨start, stop, t, hmeans, hl⟩ := hparse l List.mem_cons_self
    have ih := ih fun l' hl' => hparse l' (List.mem_cons_of_mem l hl')
    rw [List.map_cons, List.map_cons]
    cases hentry : entry l with
    | rate fps' =>
      rw [hentry] at hmeans
      rw [itemsOfLines_cons_none ((hl fps).trans (frameItem_rate hmeans fps)), items]
      exact ih fps'
    | cue start' stop' t' =>
      rw [hentry] at hmeans
      rw [itemsOfLines_cons_some ((hl fps).trans (frameItem_cue hmeans fps)), items,
        List.map_cons, ih fps]
      refine congrArg (· :: _) ?_
      rw [finishItem, sub_ms2pts, sub_ms2pts, pts, pts]
      push_cast
      rfl

end FrameFormats

/-! ## MicroDVD -/

namespace Mircodvd

open Scanf ExtSubStreamReader TextSubtitle ExtSubFactory FrameFormats

/-- `{%d}{%d}%[^\r\n]`. -/
def cueFormat : List Directive := microdvd ++ [.noneOf [13, 10]]

/-- `{%d}{}%[^\r\n]`. -/
def openFormat : List Directive := microdvdOpen ++ [.noneOf [13, 10]]

/-- The body of the loop of `decodedItem`. -/
def decodeLine (mPtsRate : ℤ) (line : List UInt8) : ℤ × Option ExtSubItem :=
  match scan cueFormat line with
  | [.int start, .int stop, .text subtitleText] => frameItem mPtsRate start stop subtitleText
  | _ =>
    match scan openFormat line with
    | [.int start, .text subtitleText] => frameItem mPtsRate start 0 subtitleText
    | _ => (mPtsRate, none)

/-- `decodedItem`; the member is `mPtsRate`. -/
def decodedItem : ObjectDecoder ℤ := fun mPtsRate r s =>
  findInLines decodeLine ((toRead r).length + 1) mPtsRate r (clear LINE_LEN s)

/-- A line of a file: `{start}{stop}text`, or `{start}{}text`. -/
structure Line where
  start : Numeral
  stop : Option Numeral
  text : List UInt8
  entry : Entry
  means : Means start.value (stop.elim 0 Numeral.value) text entry
  text_ne_nil : text ≠ []
  no_newline : ∀ c ∈ text, c ∉ ([13, 10] : List UInt8)

/-- The pieces of a line. -/
def Line.pieces (l : Line) : List Piece :=
  [.letter 123, .number l.start, .letter 125, .letter 123] ++
    (l.stop.toList.map Piece.number ++ [.letter 125, .without [13, 10] l.text])

/-- The line. -/
def Line.bytes (l : Line) : List UInt8 := written l.pieces

theorem separated_pieces (l : Line) : Separated l.pieces [] := by
  have htext : Separated [.letter 125, .without [13, 10] l.text] [] :=
    separated_letter (separated_without l.text_ne_nil l.no_newline)
  refine separated_letter (separated_number rfl (separated_letter ?_))
  cases l.stop with
  | none => exact htext
  | some stop => exact separated_number rfl htext.2

/-- A line without an end is none of the first kind. -/
theorem scan_cueFormat_open {l : Line} (h : l.stop = none) :
    scan cueFormat l.bytes = [.int l.start.value] := by
  have hfront : Separated [.letter 123, .number l.start, .letter 125, .letter 123]
      (125 :: l.text) := separated_letter (separated_number rfl (separated_letter trivial))
  have hbytes : l.bytes = written [.letter 123, .number l.start, .letter 125, .letter 123] ++
      125 :: l.text := by
    rw [Line.bytes, Line.pieces, h, written_append]
    exact congrArg _ (congrArg (125 :: ·) (List.append_nil l.text))
  have hint : ∀ format, scan (.int :: format) (125 :: l.text) = [] := fun format =>
    scan_int_ne rfl rfl (by decide) (by decide) format l.text
  rw [hbytes, show cueFormat = [Piece.letter 123, .number l.start, .letter 125,
    .letter 123].map Piece.directive ++ [.int, .literal 125, .noneOf [13, 10]] from rfl,
    scan_pieces _ _ hfront, hint]
  rfl

/-- **The fields of a line** are read back. -/
theorem decodeLine_bytes (l : Line) (mPtsRate : ℤ) : decodeLine mPtsRate l.bytes =
    frameItem mPtsRate l.start.value (l.stop.elim 0 Numeral.value : ℕ) l.text := by
  have hscan : scan (l.pieces.map Piece.directive) l.bytes = l.pieces.flatMap Piece.values :=
    scan_written (separated_pieces l)
  cases hstop : l.stop with
  | none =>
    have hformat : openFormat = l.pieces.map Piece.directive := by
      rw [Line.pieces, hstop]
      rfl
    rw [decodeLine, scan_cueFormat_open hstop, hformat, hscan, Line.pieces, hstop]
    rfl
  | some stop =>
    have hformat : cueFormat = l.pieces.map Piece.directive := by
      rw [Line.pieces, hstop]
      rfl
    rw [decodeLine, hformat, hscan, Line.pieces, hstop]
    rfl

/-- A line tells its format. -/
theorem detectLine_bytes (xml : Format) (l : Line) :
    detectLine xml l.bytes = some .SUB_MICRODVD := by
  cases hstop : l.stop with
  | none =>
    have hbytes : l.bytes =
        123 :: (l.start.digits ++ 125 :: 123 :: 125 :: (l.text ++ [])) := by
      rw [Line.bytes, Line.pieces, hstop]
      rfl
    rw [hbytes, detectLine, sscanf, microdvd, scan_literal_self,
      scan_int_numeral _ (not_digit_cons rfl _),
      scan_literal_self, scan_literal_self, scan_int_ne rfl rfl (by decide) (by decide),
      List.length_singleton, if_neg (by decide), sscanf, microdvdOpen, scan_literal_self,
      scan_int_numeral _ (not_digit_cons rfl _),
      scan_literal_self, scan_literal_self, scan_literal_self]
    rfl
  | some stop =>
    have hbytes : l.bytes = 123 :: (l.start.digits ++
        125 :: 123 :: (stop.digits ++ 125 :: (l.text ++ []))) := by
      rw [Line.bytes, Line.pieces, hstop]
      rfl
    rw [hbytes, detectLine, sscanf, microdvd, scan_literal_self,
      scan_int_numeral _ (not_digit_cons rfl _),
      scan_literal_self, scan_literal_self, scan_int_numeral _ (not_digit_cons rfl _),
      scan_literal_self]
    rfl

/-- **A MicroDVD file is told by its first line, and decoded to the items of its document**: each
time is counted with the rate that stands last in front of it, which is 24 at the beginning. -/
theorem decodes_microdvd {document : List Line} (hne : document ≠ [])
    (file : TextFile (document.map Line.bytes)) (n n' : ℕ) {source source' : List Chunk}
    (hsource : bytesOf source = file.content) (hsource' : bytesOf source' = file.content)
    (xml : Format) (stack stack' : ℕ → Memory) :
    detect xml (create (file.content.take n) source) stack = .SUB_MICRODVD ∧
      decodeObjectSubtitles decodedItem 24 (create (file.content.take n') source') stack' =
        items 24 (document.map Line.entry) := by
  constructor
  · obtain ⟨l, document, rfl⟩ := List.exists_cons_of_ne_nil hne
    exact detect_of_first (file.delivers n hsource) (detectLine_bytes xml l) stack
  · refine (decodeObjectSubtitles_findInLines (clear LINE_LEN) (file.deliversAll n' hsource')
      stack').trans ?_
    exact map_finishItem_itemsOfLines Line.bytes Line.entry document
      (fun l _ => ⟨_, _, _, l.means, decodeLine_bytes l⟩) 24

/-- A file: the rate 25, a line from frame 50 to 99, and one from frame 75 on. -/
def example25 : List Line :=
  [⟨twoDigits 1, some (twoDigits 1), [50, 53], .rate 25,
    ⟨rfl, by decide, twoDigits 25, [], rfl, rfl, fun _ hc => absurd hc (Option.not_mem_none _)⟩,
    by decide, by simp⟩,
   ⟨twoDigits 50, some (twoDigits 99), [72, 105], .cue 50 99 [72, 105],
    ⟨by decide, by decide, by decide, rfl, rfl, rfl⟩, by decide, by simp⟩,
   ⟨twoDigits 75, none, [72, 111], .cue 75 0 [72, 111],
    ⟨by decide, by decide, by decide, rfl, rfl, rfl⟩, by decide, by simp⟩]

/-- The file in one read: from two seconds to almost four, and from three seconds on. -/
theorem decodes_example25 :
    decodeObjectSubtitles decodedItem 24
        (create [] [⟨joinLines (example25.map Line.bytes), by decide, by decide⟩])
        (fun _ => ⟨0, []⟩) =
      [⟨180000, 356400, [[72, 105]]⟩, ⟨270000, 0, [[72, 111]]⟩] :=
  (@decodes_microdvd example25 (by decide) (TextFile.ofPlain _ (by decide) rfl) 0 0
    [⟨joinLines (example25.map Line.bytes), by decide, by decide⟩]
    [⟨joinLines (example25.map Line.bytes), by decide, by decide⟩] (List.append_nil _)
    (List.append_nil _) .SUB_XML (fun _ => ⟨0, []⟩) (fun _ => ⟨0, []⟩)).2.trans (by decide)

end Mircodvd

/-! ## MPlayer's first format -/

namespace Mplayer1

open Scanf ExtSubStreamReader TextSubtitle ExtSubFactory FrameFormats

/-- `%d,%d,%d,%[^\r\n]`. -/
def lineFormat : List Directive := mpl1 ++ [.literal 44, .noneOf [13, 10]]

/-- The body of the loop of `decodedItem`. -/
def decodeLine (mPtsRate : ℤ) (line : List UInt8) : ℤ × Option ExtSubItem :=
  match scan lineFormat line with
  | [.int start, .int stop, .int _, .text line2] => frameItem mPtsRate start stop line2
  | _ => (mPtsRate, none)

/-- `decodedItem`; the member is `mPtsRate`. -/
def decodedItem : ObjectDecoder ℤ := fun mPtsRate r s =>
  findInLines decodeLine ((toRead r).length + 1) mPtsRate r (clear (LINE_LEN + 1) s)

/-- A line of a file: `start,stop,tmp,text`. -/
structure Line where
  start : Numeral
  stop : Numeral
  tmp : Numeral
  text : List UInt8
  entry : Entry
  means : Means start.value stop.value text entry
  text_ne_nil : text ≠ []
  no_newline : ∀ c ∈ text, c ∉ ([13, 10] : List UInt8)

/-- The pieces of a line. -/
def Line.pieces (l : Line) : List Piece :=
  [.number l.start, .letter 44, .number l.stop, .letter 44, .number l.tmp, .letter 44,
    .without [13, 10] l.text]

/-- The line. -/
def Line.bytes (l : Line) : List UInt8 := written l.pieces

/-- **The fields of a line** are read back. -/
theorem decodeLine_bytes (l : Line) (mPtsRate : ℤ) :
    decodeLine mPtsRate l.bytes = frameItem mPtsRate l.start.value l.stop.value l.text := by
  have hseparated : Separated l.pieces [] :=
    separated_number rfl (separated_number rfl (separated_number rfl
      (separated_without l.text_ne_nil l.no_newline)))
  have hscan : scan lineFormat l.bytes = l.pieces.flatMap Piece.values := scan_written hseparated
  rw [decodeLine, hscan]
  rfl

/-- A line tells its format. -/
theorem detectLine_bytes (xml : Format) (l : Line) : detectLine xml l.bytes = some .SUB_MPL1 := by
  have hbytes : l.bytes = l.start.digits ++ 44 :: (l.stop.digits ++ 44 :: (l.tmp.digits ++
      44 :: (l.text ++ []))) := rfl
  rw [hbytes, detectLine, microdvd, sscanf_numeral rfl, if_neg (by decide), microdvdOpen,
    sscanf_numeral rfl, if_neg (by decide), webvtt, startsWith_numeral rfl, if_neg (by decide),
    sscanf, mpl1, scan_int_numeral _ (not_digit_cons rfl _), scan_literal_self,
    scan_int_numeral _ (not_digit_cons rfl _),
    scan_literal_self, scan_int_numeral _ (not_digit_cons rfl _)]
  rfl

/-- **A file of MPlayer's first format is told by its first line, and decoded to the items of its
document**; the rate is 15 at the beginning. -/
theorem decodes_mpl1 {document : List Line} (hne : document ≠ [])
    (file : TextFile (document.map Line.bytes)) (n n' : ℕ) {source source' : List Chunk}
    (hsource : bytesOf source = file.content) (hsource' : bytesOf source' = file.content)
    (xml : Format) (stack stack' : ℕ → Memory) :
    detect xml (create (file.content.take n) source) stack = .SUB_MPL1 ∧
      decodeObjectSubtitles decodedItem 15 (create (file.content.take n') source') stack' =
        items 15 (document.map Line.entry) := by
  constructor
  · obtain ⟨l, document, rfl⟩ := List.exists_cons_of_ne_nil hne
    exact detect_of_first (file.delivers n hsource) (detectLine_bytes xml l) stack
  · refine (decodeObjectSubtitles_findInLines (clear (LINE_LEN + 1))
      (file.deliversAll n' hsource') stack').trans ?_
    exact map_finishItem_itemsOfLines Line.bytes Line.entry document
      (fun l _ => ⟨_, _, _, l.means, decodeLine_bytes l⟩) 15

/-- A file: the rate 25, and a line from frame 50 to 99. -/
def mpl1Example : List Line :=
  [⟨twoDigits 1, twoDigits 1, twoDigits 0, [50, 53, 32], .rate 25,
    ⟨rfl, by decide, twoDigits 25, [32], rfl, rfl, fun _ hc => Option.some.inj hc ▸ rfl⟩,
    by decide, by simp⟩,
   ⟨twoDigits 50, twoDigits 99, twoDigits 0, [72, 101], .cue 50 99 [72, 101],
    ⟨by decide, by decide, by decide, rfl, rfl, rfl⟩, by decide, by simp⟩]

/-- The file in one read: from two seconds to almost four. -/
theorem decodes_mpl1Example :
    decodeObjectSubtitles decodedItem 15
        (create [] [⟨joinLines (mpl1Example.map Line.bytes), by decide, by decide⟩])
        (fun _ => ⟨0, []⟩) = [⟨180000, 356400, [[72, 101]]⟩] :=
  (@decodes_mpl1 mpl1Example (by decide) (TextFile.ofPlain _ (by decide) rfl) 0 0
    [⟨joinLines (mpl1Example.map Line.bytes), by decide, by decide⟩]
    [⟨joinLines (mpl1Example.map Line.bytes), by decide, by decide⟩] (List.append_nil _)
    (List.append_nil _) .SUB_XML (fun _ => ⟨0, []⟩) (fun _ => ⟨0, []⟩)).2.trans (by decide)

end Mplayer1
end AmlSubtitle
