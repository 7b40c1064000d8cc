import AmlSubtitle.Lib.Scanf
import AmlSubtitle.Parser.TextSubtitle

/-!
# The lines that a decoder is given

A decoder of subtitle files asks `ExtSubStreamReader` for lines, in a buffer of its own.

* `Delivers r lines`: the calls of `getLine` give the lines, whatever is in the buffer, and then a
  null pointer.
* `delivers_of_isReadable`: the reader of a file that can be read delivers the lines of the file.
* `Delivers.length_le`: there are bytes enough for the lines, so that the loops over them end.
* `decodeSubtitles_of_delivers`: a decoder that takes the items of the lines one by one has them
  all taken from it.
* `scan_blank`: the blanks between the fields of a line.
-/

namespace AmlSubtitle
namespace ExtSubStreamReader

open Lines

/-- The calls of `getLine` give the lines, and then no more. -/
def Delivers : Reader → List (List UInt8) → Prop
  | r, [] => ∀ s, (getLine r s).1 = none
  | r, l :: lines => ∀ s, ∃ m r', getLine r s = (some m, r') ∧ m.string = l ∧ Delivers r' lines

theorem Delivers.nil {r : Reader} (h : Delivers r []) (s : Memory) :
    ∃ r', getLine r s = (none, r') := ⟨(getLine r s).2, Prod.ext (h s) rfl⟩

theorem stripCr_eq_lineOf {crlf : Bool} {l : List UInt8}
    (hcr : crlf = false → l.getLast? ≠ some 13) : stripCr l = lineOf crlf l := by
  cases crlf
  · exact stripCr_of_ne (hcr rfl)
  · rfl

/-- **A file that can be read** is delivered. -/
theorem delivers_of_isReadable (crlf : Bool) {content : List UInt8} {r : Reader}
    (hready : Ready r content) (hcontent : IsReadable crlf content) :
    Delivers r (lines crlf content) := by
  induction hn : content.length using Nat.strong_induction_on generalizing r content with
  | _ n ih =>
    rcases cases_text content with rfl | ⟨hne, h10⟩ | ⟨l, rest, h10, rfl⟩
    · exact fun s => (getLine_nil hready s).1
    · obtain ⟨c, hc⟩ := Option.isSome_iff_exists.mp (List.getLast?_isSome.mpr hne)
      exact absurd (hcontent.ended c hc ▸ List.mem_of_getLast? hc) h10
    · obtain ⟨⟨h0, hlen, hcr⟩, hrest⟩ := (isReadable_append crlf h10 rest).mp hcontent
      rw [lines_append crlf h10]
      intro s
      obtain ⟨m, r', hget, hm, hready', -⟩ :=
        getLine_line hready (not_isEol_of_mem h10 h0) (Or.inl rfl) hlen s
      refine ⟨m, r', hget, hm.trans (stripCr_eq_lineOf hcr), ih rest.length ?_ hready' hrest rfl⟩
      rw [← hn, List.length_append, List.length_cons]
      omega

/-- Each line takes a byte. -/
theorem Delivers.length_le {r : Reader} {lines : List (List UInt8)} (h : Delivers r lines) :
    lines.length ≤ (toRead r).length := by
  induction lines generalizing r with
  | nil => exact Nat.zero_le _
  | cons l lines ih =>
    obtain ⟨m, r', hget, -, hrest⟩ := h filled
    exact Nat.succ_le_of_lt ((ih hrest).trans_lt (length_toRead_lt hget))

/-- No delivered line has a null. -/
theorem Delivers.zero_notMem {r : Reader} {lines : List (List UInt8)} (h : Delivers r lines) :
    ∀ l ∈ lines, 0 ∉ l := by
  induction lines generalizing r with
  | nil => exact fun _ hl => absurd hl List.not_mem_nil
  | cons l lines ih =>
    obtain ⟨m, r', -, hm, hrest⟩ := h filled
    rw [List.forall_mem_cons]
    exact ⟨hm ▸ zero_notMem_string m.bytes, ih hrest⟩

/-- The lines of a text, each with its newline. -/
def joinLines (lines : List (List UInt8)) : List UInt8 := lines.flatMap (· ++ [10])

/-- A line that the reader takes as it is. -/
structure IsPlain (l : List UInt8) : Prop where
  no_newline : 10 ∉ l
  no_null : 0 ∉ l
  no_cr : l.getLast? ≠ some 13
  short : l.length < LINE_LEN

instance : DecidablePred IsPlain := fun l =>
  decidable_of_iff (10 ∉ l ∧ 0 ∉ l ∧ l.getLast? ≠ some 13 ∧ l.length < LINE_LEN)
    ⟨fun h => ⟨h.1, h.2.1, h.2.2.1, h.2.2.2⟩,
      fun h => ⟨h.no_newline, h.no_null, h.no_cr, h.short⟩⟩

theorem joinLines_cons (l : List UInt8) (ls : List (List UInt8)) :
    joinLines (l :: ls) = l ++ 10 :: joinLines ls := by
  rw [joinLines, List.flatMap_cons, List.append_assoc]
  rfl

theorem isReadable_joinLines {ls : List (List UInt8)} (h : ∀ l ∈ ls, IsPlain l) :
    lines false (joinLines ls) = ls ∧ IsReadable false (joinLines ls) := by
  induction ls with
  | nil => exact ⟨rfl, isReadable_nil false⟩
  | cons l ls ih =>
    obtain ⟨hl, hls⟩ := List.forall_mem_cons.mp h
    obtain ⟨hlines, hreadable⟩ := ih hls
    rw [joinLines_cons, lines_append false hl.no_newline, isReadable_append false hl.no_newline,
      hlines]
    exact ⟨rfl, ⟨hl.no_null, hl.short, fun _ => hl.no_cr⟩, hreadable⟩

/-- **A file of plain lines** is delivered, however it is read. -/
theorem delivers_create {ls : List (List UInt8)} (h : ∀ l ∈ ls, IsPlain l)
    (hhead : ∀ c ∈ (joinLines ls).head?, c.toNat < 0xF8) (n : ℕ) {source : List Chunk}
    (hsource : bytesOf source = joinLines ls) :
    Delivers (create ((joinLines ls).take n) source) ls := by
  have hdelivers :=
    delivers_of_isReadable false (ready_create hhead n hsource) (isReadable_joinLines h).2
  rwa [(isReadable_joinLines h).1] at hdelivers

/-- The reader of a file with these lines, in one read. -/
def inOneRead (ls : List (List UInt8)) (hne : joinLines ls ≠ [])
    (hlen : (joinLines ls).length ≤ LINE_LEN) : Reader := create [] [⟨joinLines ls, hne, hlen⟩]

theorem delivers_inOneRead {ls : List (List UInt8)} (hne : joinLines ls ≠ [])
    (hlen : (joinLines ls).length ≤ LINE_LEN) (h : ∀ l ∈ ls, IsPlain l)
    (hhead : ∀ c ∈ (joinLines ls).head?, c.toNat < 0xF8) : Delivers (inOneRead ls hne hlen) ls :=
  delivers_create h hhead 0 (bytesOf_cons _ [] |>.trans (List.append_nil _))

end ExtSubStreamReader

namespace TextSubtitle

open ExtSubStreamReader Scanf

/-- The decoder takes the first of the items of some lines, and leaves the lines of the others. -/
def TakesFirst (decodedItem : Decoder) (items : List (List UInt8) → List ExtSubItem) : Prop :=
  ∀ r lines s, Delivers r lines →
    items lines = [] ∧ (decodedItem r s).1 = none ∨
    ∃ item rest r', items lines = item :: items rest ∧ rest.length < lines.length ∧
      decodedItem r s = (some item, r') ∧ Delivers r' rest

/-- **All items of the lines** are decoded. -/
theorem decodeSubtitles_of_delivers {decodedItem : Decoder}
    {items : List (List UInt8) → List ExtSubItem} (htakes : TakesFirst decodedItem items)
    {r : Reader} {lines : List (List UInt8)} (h : Delivers r lines) (stack : ℕ → Memory) :
    decodeSubtitles decodedItem r stack = (items lines).map finishItem := by
  have hfuel : ∀ fuel r lines stack, Delivers r lines → lines.length < fuel →
      decodeItems decodedItem fuel r stack = (items lines).map finishItem := by
    intro fuel
    induction fuel with
    | zero => exact fun _ _ _ _ h => absurd h (Nat.not_lt_zero _)
    | succ fuel ih =>
      intro r lines stack h hlt
      rw [decodeItems]
      rcases htakes r lines (stack 0) h with ⟨hnil, hnone⟩ |
        ⟨item, rest, r', hitems, hrest, hitem, hdelivers⟩
      · obtain ⟨r', hitem⟩ : ∃ r', decodedItem r (stack 0) = (none, r') :=
          ⟨(decodedItem r (stack 0)).2, Prod.ext hnone rfl⟩
        rw [hitem, hnil]
        rfl
      · rw [hitem, hitems, List.map_cons]
        exact congrArg _ (ih r' rest _ hdelivers (by omega))
  exact hfuel _ r lines stack h (Nat.lt_succ_of_le h.length_le)

/-! ## Blanks in a line -/

theorem isDigit_of_isBlank {c : UInt8} (h : isBlank c = true) : isDigit c = false := by
  rw [isBlank, Bool.or_eq_true, decide_eq_true_iff, decide_eq_true_iff] at h
  rcases h with rfl | rfl <;> rfl

theorem isSpace_of_isBlank {c : UInt8} (h : isBlank c = true) : isSpace c = true := by
  rw [isBlank, Bool.or_eq_true, decide_eq_true_iff, decide_eq_true_iff] at h
  rcases h with rfl | rfl <;> rfl

theorem head_blanks {blanks : List UInt8} (hne : blanks ≠ [])
    (h : ∀ c ∈ blanks, isBlank c = true) (rest : List UInt8) :
    ∀ c ∈ (blanks ++ rest).head?, isDigit c = false := by
  obtain ⟨b, bs, rfl⟩ := List.exists_cons_of_ne_nil hne
  intro c hc
  rw [← Option.some.inj hc]
  exact isDigit_of_isBlank (h b List.mem_cons_self)

/-- Blanks are skipped up to what is none. -/
theorem scan_blank {blanks rest : List UInt8} (h : ∀ c ∈ blanks, isBlank c = true)
    (hrest : ∀ c ∈ rest.head?, isSpace c = false) (format : List Directive) :
    scan (.blank :: format) (blanks ++ rest) = scan format rest := by
  rw [scan, List.dropWhile_append_of_pos fun c hc => isSpace_of_isBlank (h c hc)]
  cases rest with
  | nil => rfl
  | cons c rest => rw [List.dropWhile_cons_of_neg ((Bool.not_eq_true _).mpr (hrest c rfl))]

end TextSubtitle
end AmlSubtitle
