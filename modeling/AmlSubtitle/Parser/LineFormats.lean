import AmlSubtitle.Parser.FrameFormats

/-!
# `parser/ExtParser/Mplayer2.cpp`, `parser/ExtParser/Pjs.cpp`: files with a cue in each line

* `Mplayer2.decodes_mpl2`, `Pjs.decodes_pjs`: a file of such lines is told by `detect`, and it is
  decoded to its cues.
* The text of a PJS line stands in quotes, with blanks around them; what stands between the quotes
  is decoded as it is (`unquote_quoted`).
-/

namespace AmlSubtitle

/-! ## MPlayer's second format -/

namespace Mplayer2

open Words Scanf ExtSubStreamReader TextSubtitle ExtSubFactory

/-- `[%d][%d]%[^\r\n]`. -/
def lineFormat : List Directive := mpl2 ++ [.noneOf [13, 10]]

/-- The body of the loop of `decodedItem`. -/
def decodeLine (members : Unit) (line : List UInt8) : Unit × Option ExtSubItem :=
  match scan lineFormat line with
  | [.int start, .int stop, .text line2] =>
    (members, some ⟨asSigned 32 (start * 10), asSigned 32 (stop * 10), [line2]⟩)
  | _ => (members, none)

/-- `decodedItem`. -/
def decodedItem : ObjectDecoder Unit := fun members r s =>
  findInLines decodeLine ((toRead r).length + 1) members r (clear (LINE_LEN + 1) s)

/-- A line of a file: `[start][stop]text`, with times in tenths of a second. -/
structure Line where
  start : Numeral
  stop : Numeral
  text : List UInt8
  start_lt : start.value * 10 < 2 ^ 31
  stop_lt : stop.value * 10 < 2 ^ 31
  text_ne_nil : text ≠ []
  no_newline : ∀ c ∈ text, c ∉ ([13, 10] : List UInt8)

/-- The pieces of a line. -/
def Line.pieces (l : Line) : List Piece :=
  [.letter 91, .number l.start, .letter 93, .letter 91, .number l.stop, .letter 93,
    .without [13, 10] l.text]

/-- The line. -/
def Line.bytes (l : Line) : List UInt8 := written l.pieces

/-- The cue of a line. -/
def Line.item (l : Line) : ExtSubItem where
  start := sub_ms2pts (l.start.value * 10)
  stop := sub_ms2pts (l.stop.value * 10)
  lines := [replaceLine l.text]

theorem asSigned_mul_ten {n : ℕ} (h : n * 10 < 2 ^ 31) : asSigned 32 ((n : ℤ) * 10) = n * 10 := by
  have hsigned := asSigned_of_lt (w := 32) (n := n * 10) (by omega)
  push_cast at hsigned
  exact hsigned

theorem decodeLine_bytes (l : Line) : decodeLine () l.bytes =
    ((), some ⟨l.start.value * 10, l.stop.value * 10, [l.text]⟩) := by
  have hseparated : Separated l.pieces [] :=
    separated_letter (separated_number rfl (separated_letter (separated_number rfl
      (separated_without l.text_ne_nil l.no_newline))))
  have hscan : scan lineFormat l.bytes = l.pieces.flatMap Piece.values := scan_written hseparated
  have hvalues : l.pieces.flatMap Piece.values =
      [.int l.start.value, .int l.stop.value, .text l.text] := rfl
  rw [decodeLine, hscan, hvalues]
  dsimp only
  rw [asSigned_mul_ten l.start_lt, asSigned_mul_ten l.stop_lt]

theorem detectLine_bytes (xml : Format) (l : Line) : detectLine xml l.bytes = some .SUB_MPL2 := by
  have hbytes : l.bytes = 91 :: (l.start.digits ++ 93 :: 91 :: (l.stop.digits ++
      93 :: (l.text ++ []))) := rfl
  rw [hbytes, detectLine, microdvd, sscanf_letter (by decide), if_neg (by decide), microdvdOpen,
    sscanf_letter (by decide), if_neg (by decide), webvtt, startsWith_letter (by decide),
    if_neg (by decide), mpl1, sscanf_int rfl rfl (by decide) (by decide), if_neg (by decide),
    sscanf, mpl2, scan_literal_self, scan_int_numeral _ (not_digit_cons rfl _), scan_literal_self,
    scan_literal_self, scan_int_numeral _ (not_digit_cons rfl _), scan_literal_self]
  rfl

/-- **A file of MPlayer's second format is told by its first line, and decoded to its cues.** -/
theorem decodes_mpl2 {document : List Line} (hne : document ≠ [])
    (file : TextFile (document.map Line.bytes)) (n n' : ℕ) {source source' : List Chunk}
    (hsource : bytesOf source = file.content) (hsource' : bytesOf source' = file.content)
    (xml : Format) (stack stack' : ℕ → Memory) :
    detect xml (create (file.content.take n) source) stack = .SUB_MPL2 ∧
      decodeObjectSubtitles decodedItem () (create (file.content.take n') source') stack' =
        document.map Line.item := by
  constructor
  · obtain ⟨l, document, rfl⟩ := List.exists_cons_of_ne_nil hne
    exact detect_of_first (file.delivers n hsource) (detectLine_bytes xml l) stack
  · refine (decodeObjectSubtitles_findInLines (clear (LINE_LEN + 1))
      (file.deliversAll n' hsource') stack').trans ?_
    clear file hsource hsource' hne
    induction document with
    | nil => rfl
    | cons l document ih =>
      rw [List.map_cons, itemsOfLines_cons_some (decodeLine_bytes l), List.map_cons, List.map_cons,
        ih]
      rfl

/-- A line from the first second to the second, in italics. -/
def mpl2Example : List Line :=
  [⟨twoDigits 10, twoDigits 20, [47, 72, 105], by decide, by decide, by decide, by simp⟩]

theorem decodes_mpl2Example :
    decodeObjectSubtitles decodedItem ()
        (create [] [⟨joinLines (mpl2Example.map Line.bytes), by decide, by decide⟩])
        (fun _ => ⟨0, []⟩) = [⟨90000, 180000, [[47, 72, 105]]⟩] :=
  (@decodes_mpl2 mpl2Example (by decide) (TextFile.ofPlain _ (by decide) rfl) 0 0
    [⟨joinLines (mpl2Example.map Line.bytes), by decide, by decide⟩]
    [⟨joinLines (mpl2Example.map Line.bytes), by decide, by decide⟩] (List.append_nil _)
    (List.append_nil _) .SUB_XML (fun _ => ⟨0, []⟩) (fun _ => ⟨0, []⟩)).2.trans (by decide)

end Mplayer2

/-! ## PJS -/

namespace Pjs

open Scanf ExtSubStreamReader TextSubtitle ExtSubFactory FrameFormats

/-- `%d,%d,%[^\n\r]`. -/
def lineFormat : List Directive :=
  [.int, .literal 44, .int, .literal 44, .noneOf [10, 13]]

/-- What the loop makes of a text: the blanks around it are taken off, and then the quotes. -/
def unquote (text : List UInt8) : List UInt8 :=
  let p := triml (text.rdropWhile isBlank)
  if p.head? = some 34 ∧ p.getLast? = some 34 then p.tail.dropLast else p

/-- The body of the loop of `decodedItem`. -/
def decodeLine (mPtsRate : ℤ) (line : List UInt8) : ℤ × Option ExtSubItem :=
  match scan lineFormat line with
  | [.int start, .int stop, .text text] =>
    (mPtsRate, some ⟨ofFrames mPtsRate start, ofFrames mPtsRate stop, [unquote text]⟩)
  | _ => (mPtsRate, none)

/-- `decodedItem`; the member is `mPtsRate`. -/
def decodedItem : ObjectDecoder ℤ := fun mPtsRate r s =>
  findInLines decodeLine ((toRead r).length + 1) mPtsRate r (clear (LINE_LEN + 1) s)

/-- A line of a file: `start,stop,"text"`, with blanks around the quotes. -/
structure Line where
  start : Numeral
  stop : Numeral
  before : List UInt8
  text : List UInt8
  after : List UInt8
  start_lt : start.value * 100 < 2 ^ 31
  stop_lt : stop.value * 100 < 2 ^ 31
  before_blank : ∀ c ∈ before, isBlank c = true
  after_blank : ∀ c ∈ after, isBlank c = true
  no_newline : ∀ c ∈ text, c ∉ ([10, 13] : List UInt8)

/-- The text in its quotes. -/
def Line.quoted (l : Line) : List UInt8 := l.before ++ 34 :: (l.text ++ 34 :: l.after)

/-- The pieces of a line. -/
def Line.pieces (l : Line) : List Piece :=
  [.number l.start, .letter 44, .number l.stop, .letter 44, .without [10, 13] l.quoted]

/-- The line. -/
def Line.bytes (l : Line) : List UInt8 := written l.pieces

/-- The cue of a line. -/
def Line.item (l : Line) : ExtSubItem where
  start := pts 15 l.start.value
  stop := pts 15 l.stop.value
  lines := [replaceLine l.text]

/-- **What stands between the quotes** is taken as it is, blanks and quotes in it too. -/
theorem unquote_quoted (l : Line) : unquote l.quoted = l.text := by
  have hquote : ¬ isBlank 34 = true := by decide
  have hlast : l.quoted = l.before ++ 34 :: l.text ++ [34] ++ l.after := by
    rw [Line.quoted]
    simp only [List.append_assoc, List.cons_append, List.nil_append]
  have hright : l.quoted.rdropWhile isBlank = l.before ++ 34 :: l.text ++ [34] := by
    rw [hlast, List.rdropWhile, List.reverse_append, List.dropWhile_append_of_pos
      fun c hc => l.after_blank c (List.mem_reverse.mp hc)]
    exact List.rdropWhile_concat_neg _ _ _ hquote
  have hleft : triml (l.before ++ 34 :: l.text ++ [34]) = 34 :: (l.text ++ [34]) := by
    rw [triml, List.append_assoc, List.dropWhile_append_of_pos l.before_blank]
    exact List.dropWhile_cons_of_neg hquote
  have hend : (34 :: (l.text ++ [34])).getLast? = some (34 : UInt8) := by
    rw [← List.cons_append, List.getLast?_concat]
  rw [unquote, hright, hleft]
  rw [if_pos ⟨rfl, hend⟩, List.tail_cons, List.dropLast_concat]

theorem decodeLine_bytes (l : Line) : decodeLine 15 l.bytes =
    (15, some ⟨(l.start.value * 100 / 15 : ℕ), (l.stop.value * 100 / 15 : ℕ), [l.text]⟩) := by
  have hnot : ∀ c ∈ l.quoted, c ∉ ([10, 13] : List UInt8) := by
    have hblank : ∀ c : UInt8, isBlank c = true → c ∉ ([10, 13] : List UInt8) := by
      intro c hc hmem
      rcases List.mem_pair.mp hmem with rfl | rfl <;> exact absurd hc (by decide)
    intro c hc
    rcases List.mem_append.mp hc with hc | hc
    · exact hblank c (l.before_blank c hc)
    · rcases List.mem_cons.mp hc with rfl | hc
      · decide
      · rcases List.mem_append.mp hc with hc | hc
        · exact l.no_newline c hc
        · rcases List.mem_cons.mp hc with rfl | hc
          · decide
          · exact hblank c (l.after_blank c hc)
  have hseparated : Separated l.pieces [] :=
    separated_number rfl (separated_number rfl
      (separated_without (List.append_ne_nil_of_right_ne_nil _ (List.cons_ne_nil _ _)) hnot))
  have hscan : scan lineFormat l.bytes = l.pieces.flatMap Piece.values := scan_written hseparated
  have hvalues : l.pieces.flatMap Piece.values =
      [.int l.start.value, .int l.stop.value, .text l.quoted] := rfl
  have hstart : ofFrames 15 l.start.value = (l.start.value * 100 / 15 : ℕ) :=
    ofFrames_natCast l.start_lt 15
  have hstop : ofFrames 15 l.stop.value = (l.stop.value * 100 / 15 : ℕ) :=
    ofFrames_natCast l.stop_lt 15
  rw [decodeLine, hscan, hvalues, ← hstart, ← hstop]
  dsimp only
  rw [unquote_quoted]

/-- A line tells its format, if the text in it tells no other one. -/
theorem detectLine_bytes (xml : Format) (l : Line) (h : Untagged l.bytes) :
    detectLine xml l.bytes = some .SUB_PJS := by
  have hbytes : l.bytes = l.start.digits ++ 44 :: (l.stop.digits ++
      44 :: (l.before ++ (34 :: (l.text ++ 34 :: l.after)))) := by
    have hquoted : l.quoted ++ [] = l.before ++ (34 :: (l.text ++ 34 :: l.after)) :=
      List.append_nil _
    rw [← hquoted]
    rfl
  have hskip : (l.before ++ (34 :: (l.text ++ 34 :: l.after))).dropWhile isSpace =
      34 :: (l.text ++ 34 :: l.after) := by
    rw [List.dropWhile_append_of_pos fun c hc => isSpace_of_isBlank (l.before_blank c hc)]
    rfl
  have hnone : scanInt (l.before ++ (34 :: (l.text ++ 34 :: l.after))) = none := by
    rw [scanInt, hskip]
    rfl
  have hmpl1 : sscanf mpl1 l.bytes = 2 := by
    rw [hbytes, sscanf, mpl1, scan_int_numeral _ (not_digit_cons rfl _), scan_literal_self,
      scan_int_numeral _ (not_digit_cons rfl _), scan_literal_self, scan, hnone]
    rfl
  have hsubviewer3 : sscanf subviewer3 l.bytes = 1 := by
    rw [hbytes, sscanf, subviewer3, List.cons_append, List.cons_append, List.cons_append,
      scan_int_numeral _ (not_digit_cons rfl _)]
    rfl
  have hpjs : sscanf pjsBlank l.bytes = 3 := by
    rw [hbytes, sscanf, pjsBlank, scan_int_numeral _ (not_digit_cons rfl _), scan_literal_self,
      scan_int_numeral _ (not_digit_cons rfl _), scan_literal_self, scan, hskip, scan_literal_self,
      scan_char (List.append_ne_nil_of_right_ne_nil _ (List.cons_ne_nil _ _))]
    rfl
  have hcomma : ∀ s : List UInt8, ∀ c ∈ (44 :: s).head?, isDigit c = false ∧ c ≠ 58 :=
    fun s c hc => Option.some.inj hc ▸ ⟨rfl, by decide⟩
  rw [hbytes] at h hmpl1 hsubviewer3 hpjs ⊢
  rw [detectLine_number xml (hcomma _) h, hmpl1, hsubviewer3, hpjs, if_neg (by decide),
    if_neg (by decide), if_pos rfl, ite_self]

/-- **A PJS file is told by its first line, and decoded to its cues**: what stands between the
quotes is decoded as it is. -/
theorem decodes_pjs {document : List Line} (hne : document ≠ [])
    (htags : ∀ l ∈ document.head?, Untagged l.bytes)
    (file : TextFile (document.map Line.bytes)) (n n' : ℕ) {source source' : List Chunk}
    (hsource : bytesOf source = file.content) (hsource' : bytesOf source' = file.content)
    (xml : Format) (stack stack' : ℕ → Memory) :
    detect xml (create (file.content.take n) source) stack = .SUB_PJS ∧
      decodeObjectSubtitles decodedItem 15 (create (file.content.take n') source') stack' =
        document.map Line.item := by
  constructor
  · obtain ⟨l, document, rfl⟩ := List.exists_cons_of_ne_nil hne
    exact detect_of_first (file.delivers n hsource) (detectLine_bytes xml l (htags l rfl)) stack
  · refine (decodeObjectSubtitles_findInLines (clear (LINE_LEN + 1))
      (file.deliversAll n' hsource') stack').trans ?_
    clear file hsource hsource' hne htags
    induction document with
    | nil => rfl
    | cons l document ih =>
      rw [List.map_cons, itemsOfLines_cons_some (decodeLine_bytes l), List.map_cons, List.map_cons,
        ih]
      refine congrArg (· :: _) ?_
      rw [finishItem, Line.item, sub_ms2pts, sub_ms2pts, pts, pts]
      push_cast
      rfl

/-- A line from frame 15 to frame 30, with blanks around its quotes. -/
def pjsExample : List Line :=
  [⟨twoDigits 15, twoDigits 30, [32, 9, 32], [72, 34, 105], [9, 9], by decide, by decide,
    List.all_eq_true.mp rfl, List.all_eq_true.mp rfl, by simp⟩]

theorem decodes_pjsExample :
    decodeObjectSubtitles decodedItem 15
        (create [] [⟨joinLines (pjsExample.map Line.bytes), by decide, by decide⟩])
        (fun _ => ⟨0, []⟩) = [⟨90000, 180000, [[72, 34, 105]]⟩] :=
  (@decodes_pjs pjsExample (by decide)
    (fun _ hl => Option.some.inj hl ▸ untagged_of_notMem (by decide))
    (TextFile.ofPlain _ (by decide) rfl) 0 0
    [⟨joinLines (pjsExample.map Line.bytes), by decide, by decide⟩]
    [⟨joinLines (pjsExample.map Line.bytes), by decide, by decide⟩] (List.append_nil _)
    (List.append_nil _) .SUB_XML (fun _ => ⟨0, []⟩) (fun _ => ⟨0, []⟩)).2.trans (by decide)

end Pjs
end AmlSubtitle
