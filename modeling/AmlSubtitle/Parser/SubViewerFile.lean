import AmlSubtitle.Parser.ExtSubFactory
import AmlSubtitle.Parser.SubViewer

/-!
# SubRip files from the first byte to the items

`ExtSubFactory::detect` tells a SubRip file by the times of its first cue: the number in front of
them tells nothing.

* `detectLine_index` and `detectLine_times`: the first two lines of a cue.
* `detect_fileOf`: a file of cues is told, in every way to read it.
* `loads_srt`: it is also decoded to the items of its cues, if each line of their texts is kept.
-/

namespace AmlSubtitle
namespace SubViewer

open Scanf ExtSubStreamReader TextSubtitle ExtSubFactory

/-- The number of a cue tells nothing. -/
theorem detectLine_index (xml : Format) (cue : Cue) : detectLine xml cue.index.text = none := by
  have hint : ∀ format, sscanf (.int :: format) cue.index.text = (scan format []).length + 1 := by
    intro format
    have hscan := @scanInt_digits cue.index.text [] cue.index_ne_nil cue.index_digits
      fun _ hc => absurd hc (Option.not_mem_none _)
    rw [List.append_nil] at hscan
    rw [sscanf, scan, hscan]
    rfl
  have hnot : ∀ c, isDigit c = false → c ∉ cue.index.text := fun c hc hmem => by
    rw [cue.index_digits c hmem] at hc
    exact absurd hc (by decide)
  have hmpl1 : sscanf mpl1 cue.index.text = 1 := hint _
  have hsubviewer3 : sscanf subviewer3 cue.index.text = 1 := hint _
  have hpjs : sscanf pjs cue.index.text = 1 := hint _
  have hpjsBlank : sscanf pjsBlank cue.index.text = 1 := hint _
  have hclock : ∀ format, sscanf (clock ++ format) cue.index.text = 1 := fun format => hint _
  have haqtitle : strstr aqtitle cue.index.text = false := strstr_of_notMem (hnot 45 rfl) _
  have hvobsub : strstr vobSubIndexFile cue.index.text = false := strstr_of_notMem (hnot 86 rfl) _
  have hqt : strstr qtText cue.index.text = false := strstr_of_notMem (hnot 123 rfl) _
  have hqtUpper : strstr qtTextUpper cue.index.text = false := strstr_of_notMem (hnot 123 rfl) _
  have htags : Untagged cue.index.text := untagged_of_notMem (hnot 60 rfl)
  obtain ⟨d, ds, hds⟩ := List.exists_cons_of_ne_nil cue.index_ne_nil
  have hd := cue.index_digits d (hds ▸ List.mem_cons_self)
  rw [hds] at hmpl1 hsubviewer3 hpjs hpjsBlank hclock haqtitle hvobsub hqt hqtUpper htags ⊢
  rw [detectLine_digit xml hd hclock htags, hmpl1, hsubviewer3, hpjs, hpjsBlank, haqtitle, hvobsub,
    hqt, hqtUpper]
  rfl

/-- A time, as the questions read it. -/
def Time.clock (t : Time) : TimeOfDay where
  hours := numeral 1 t.hours t.hours_lt (t.hours_lt.trans (by decide))
  minutes := numeral 1 t.minutes (t.minutes_lt.trans (by decide)) (t.minutes_lt.trans (by decide))
  seconds := numeral 1 t.seconds (t.seconds_lt.trans (by decide)) (t.seconds_lt.trans (by decide))
  lt := by
    have h := t.hours_lt
    have m := t.minutes_lt
    have s := t.seconds_lt
    rw [value_numeral, value_numeral, value_numeral]
    omega

/-- The times of a cue tell the format. -/
theorem detectLine_times (xml : Format) (cue : Cue) :
    detectLine xml cue.times.text = some .SUB_SUBVIEWER := by
  have hline : cue.times.text = written cue.start.clock.pieces ++ 44 ::
      (padded 3 cue.start.millis ++ ([32, 45, 45, 62, 32] ++ cue.stop.text)) := by
    have htext : cue.start.text = written cue.start.clock.pieces ++
        44 :: padded 3 cue.start.millis := by
      rw [Time.text, TimeOfDay.pieces]
      simp only [written, List.flatMap_cons, List.flatMap_nil, Piece.text, Time.clock, numeral,
        List.append_nil, List.append_assoc, List.cons_append, List.nil_append]
    rw [cue.times_eq, htext, List.append_assoc, List.append_assoc]
    rfl
  have hnumber : ∃ s, cue.times.text = cue.start.clock.hours.digits ++ 58 :: s := by
    rw [hline]
    exact ⟨_, rfl⟩
  have hsubviewer : sscanf subviewer cue.times.text = 10 := by
    have htimes := scanTimes_times cue
    rw [scanTimes] at htimes
    split at htimes
    · next heq => exact congrArg List.length heq
    · exact absurd htimes.symm (Option.some_ne_none _)
  have hsubrip : sscanf subrip cue.times.text = 3 := by
    have hformat : subrip = clock ++ .literal 46 :: .int :: .literal 44 :: clockDot := rfl
    rw [hformat, sscanf, hline, scan_clock cue.start.clock _ (not_digit_cons rfl _),
      scan_literal_ne (by decide)]
    rfl
  obtain ⟨s, hs⟩ := hnumber
  rw [hs] at hsubviewer hsubrip ⊢
  rw [detectLine, hsubviewer, hsubrip, microdvd, sscanf_numeral rfl, microdvdOpen,
    sscanf_numeral rfl, webvtt, startsWith_numeral rfl, mpl2, sscanf_numeral rfl, sscanf, mpl1,
    scan_int_numeral _ (not_digit_cons rfl _), scan_literal_ne (by decide)]
  rfl

/-- The lines of a file. -/
def Cue.fileLines (cue : Cue) : List Line := cue.index :: cue.times :: (cue.texts ++ [cue.blank])

theorem flatMap_fileLines (cues : List Cue) :
    (cues.flatMap Cue.fileLines).flatMap Line.bytes = fileOf cues := by
  induction cues with
  | nil => rfl
  | cons cue cues ih =>
    have hcue : cue.fileLines.flatMap Line.bytes = cue.bytes := by
      rw [Cue.fileLines, Cue.bytes]
      simp only [List.flatMap_cons, List.flatMap_append, List.flatMap_nil, List.append_nil,
        List.append_assoc]
    rw [List.flatMap_cons, List.flatMap_append, ih, hcue]
    rfl

theorem deliversAll_lines (ls : List Line) : ∀ {r : Reader}, Ready r (ls.flatMap Line.bytes) →
    DeliversAll r (ls.map Line.text) := by
  induction ls with
  | nil => exact fun h => h
  | cons l ls ih =>
    intro r h s
    rw [List.flatMap_cons] at h
    obtain ⟨m, r', hget, hm, hready⟩ := getLine_bytes h s
    exact ⟨m, r', hget, hm, ih hready⟩

/-- **A SubRip file is told by the times of its first cue.** -/
theorem detect_fileOf {cues : List Cue} (hne : cues ≠ []) (n : ℕ) {source : List Chunk}
    (hsource : bytesOf source = fileOf cues) (xml : Format) (stack : ℕ → Memory) :
    detect xml (create ((fileOf cues).take n) source) stack = .SUB_SUBVIEWER := by
  have hready := ready_create (head_fileOf cues) n hsource
  rw [← flatMap_fileLines] at hready
  have hdelivers := (deliversAll_lines _ hready).delivers
  rw [flatMap_fileLines] at hdelivers
  obtain ⟨cue, cues, rfl⟩ := List.exists_cons_of_ne_nil hne
  refine @detect_of_delivers xml _ [cue.index.text]
    ((cue.texts ++ [cue.blank] ++ cues.flatMap Cue.fileLines).map Line.text) cue.times.text _
    hdelivers (detectLine_times xml cue) ?_ (show 1 < 100 by decide) stack
  rintro l hl
  rw [List.eq_of_mem_singleton hl]
  exact detectLine_index xml cue

/-- The items of its cues, in every way to read it. -/
theorem decodeSubtitles_fileOf {cues : List Cue}
    (hkept : ∀ cue ∈ cues, ∀ l ∈ cue.texts, IsKept l.text) (n : ℕ) {source : List Chunk}
    (hsource : bytesOf source = fileOf cues) (stack : ℕ → Memory) :
    decodeSubtitles decodedItem (create ((fileOf cues).take n) source) stack =
      cues.map Cue.item := by
  have hready := ready_create (head_fileOf cues) n hsource
  refine decodeItems_cues cues hkept _ ?_ stack hready
  rw [toRead, hready.toRead]
  exact Nat.lt_succ_of_le (length_le_fileOf cues)

/-- **A SubRip file is loaded**: it is told as one, and decoded to the items of its cues if each
line of their texts is kept. -/
theorem loads_srt {cues : List Cue} (hne : cues ≠ [])
    (hkept : ∀ cue ∈ cues, ∀ l ∈ cue.texts, IsKept l.text) (n n' : ℕ) {source source' : List Chunk}
    (hsource : bytesOf source = fileOf cues) (hsource' : bytesOf source' = fileOf cues)
    (xml : Format) (stack stack' : ℕ → Memory) :
    detect xml (create ((fileOf cues).take n) source) stack = .SUB_SUBVIEWER ∧
      decodeSubtitles decodedItem (create ((fileOf cues).take n') source') stack' =
        cues.map Cue.item :=
  ⟨detect_fileOf hne n hsource xml stack, decodeSubtitles_fileOf hkept n' hsource' stack'⟩

/-- A cue from the first second to the second. -/
def srtExample : Cue where
  index := trailingBlank.index
  times := trailingBlank.times
  texts := [asciiLine [72, 105, 46] (by decide) (by decide) (by decide) (by decide)]
  blank := trailingBlank.blank
  start := trailingBlank.start
  stop := trailingBlank.stop
  index_ne_nil := trailingBlank.index_ne_nil
  index_digits := trailingBlank.index_digits
  times_eq := trailingBlank.times_eq
  texts_ne_nil := List.cons_ne_nil _ _
  texts_nonblank := by decide
  isBlankLine := trailingBlank.isBlankLine

theorem isKept_srtExample : ∀ cue ∈ [srtExample], ∀ l ∈ cue.texts, IsKept l.text := by
  intro cue hcue l hl
  rw [List.eq_of_mem_singleton hcue] at hl
  rw [List.eq_of_mem_singleton hl]
  exact ⟨by decide, by decide⟩

theorem loads_srtExample :
    decodeSubtitles decodedItem
        (create [] [⟨fileOf [srtExample], by decide, by decide⟩]) (fun _ => ⟨0, []⟩) =
      [⟨90000, 180000, [[72, 105, 46]]⟩] :=
  (@loads_srt [srtExample] (by decide) isKept_srtExample 0 0
    [⟨fileOf [srtExample], by decide, by decide⟩] [⟨fileOf [srtExample], by decide, by decide⟩]
    (List.append_nil _) (List.append_nil _) .SUB_XML (fun _ => ⟨0, []⟩) (fun _ => ⟨0, []⟩)).2.trans
    (by decide)

end SubViewer
end AmlSubtitle
