import AmlSubtitle.Lib.Lines
import AmlSubtitle.Parser.ExtSubStreamReader

/-!
# The line law of `ExtSubStreamReader`

The lines that `getLine` gives of a UTF-8 file, against the lines of the file.

* `LineLaw crlf text` says that they agree, for every way to read the file and every
  content of the caller's buffers.  The byte-order mark is no part of a line, and the
  newlines are the line feeds, or with `crlf` the line feeds with a carriage return in
  front of them too.
* `Ready r content` says that `content` is still to be read: some of it in the buffer, and
  the rest in the source.  `getLine_line` takes one line off it, however the line is split
  over the reads.
* `lineLaw_iff`: the law holds of the texts that have no byte-order mark, no null, no line
  of `LINE_LEN` bytes or more, a newline at the end and, where a carriage return is no part
  of a newline, no carriage return in front of one.  A last line with no newline is copied to
  the caller with no null behind it.
-/

namespace AmlSubtitle
namespace ExtSubStreamReader

open Lines

/-! ## The law -/

/-- The byte-order mark. -/
def bom : List UInt8 := [0xEF, 0xBB, 0xBF]

/-- A file, its byte-order mark excluded. -/
def dropBom (content : List UInt8) : List UInt8 :=
  if bom <+: content then content.drop 3 else content

/-- What successive calls of `getLine` give, as strings. -/
def readLines (r : Reader) : List Memory → List (Option (List UInt8))
  | [] => []
  | s :: mems => (getLine r s).1.map Memory.string :: readLines (getLine r s).2 mems

/-- `char line[LINE_LEN + 1]` for each call. -/
def IsLineBuffers (mems : List Memory) : Prop := ∀ s ∈ mems, s.bytes.length = LINE_LEN + 1

/-- The calls give some lines, and then no more. -/
def Reads (r : Reader) (lines : List (List UInt8)) : Prop :=
  ∀ mems, IsLineBuffers mems → readLines r mems = (List.range mems.length).map (lines[·]?)

/-- The bytes of a text. -/
def utf8Bytes (text : List Char) : List UInt8 := text.flatMap String.utf8EncodeChar

/-- **The line law** of a text. -/
def LineLaw (crlf : Bool) (text : List Char) : Prop :=
  ∀ (n : ℕ) (source : List Chunk), n ≤ 3 → bytesOf source = utf8Bytes text →
    Reads (create ((utf8Bytes text).take n) source) (lines crlf (dropBom (utf8Bytes text)))

/-- What the reader asks of the lines of a file. -/
structure IsReadable (crlf : Bool) (content : List UInt8) : Prop where
  no_null : 0 ∉ content
  short : ∀ l ∈ lines false content, l.length < LINE_LEN
  ended : ∀ c ∈ content.getLast?, c = 10
  no_cr : crlf = false → ∀ l ∈ lines false content, l.getLast? ≠ some 13

/-! ## The end of a line -/

/-- The encodings of one byte to a character of ASCII. -/
def IsBytes (charset : Encoding) : Prop :=
  charset = .AML_ENCODING_NONE ∨ charset = .AML_ENCODING_UTF8

/-- The bytes that end a line. -/
def IsEol (c : UInt8) : Prop := c = 10 ∨ c = 0

theorem foundEol_cons {charset : Encoding} (h : IsBytes charset) (c : UInt8) (data : List UInt8) :
    foundEol charset (c :: data) = true ↔ IsEol c := by
  rcases h with rfl | rfl <;> simp [foundEol, IsEol]

theorem findEol_of_notMem {charset : Encoding} (h : IsBytes charset) {l : List UInt8}
    (hl : ∀ c ∈ l, ¬ IsEol c) : findEol charset l = none := by
  induction l with
  | nil => rfl
  | cons c l ih =>
    have hc : ¬ foundEol charset (c :: l) = true := fun hf =>
      hl c List.mem_cons_self ((foundEol_cons h c l).mp hf)
    rw [findEol, if_neg hc, ih fun d hd => hl d (List.mem_cons_of_mem c hd)]
    rfl

theorem findEol_append {charset : Encoding} (h : IsBytes charset) {l : List UInt8}
    (hl : ∀ c ∈ l, ¬ IsEol c) {sep : UInt8} (hsep : IsEol sep) (rest : List UInt8) :
    findEol charset (l ++ sep :: rest) = some l.length := by
  induction l with
  | nil => exact if_pos ((foundEol_cons h sep rest).mpr hsep)
  | cons c l ih =>
    have hc : ¬ foundEol charset (c :: (l ++ sep :: rest)) = true := fun hf =>
      hl c List.mem_cons_self ((foundEol_cons h c _).mp hf)
    rw [List.cons_append, findEol, if_neg hc, ih fun d hd => hl d (List.mem_cons_of_mem c hd)]
    rfl

theorem lineBreakTagLen_eq {charset : Encoding} (h : IsBytes charset) :
    lineBreakTagLen charset = 1 := by
  rcases h with rfl | rfl <;> rfl

theorem convertToUtf8_eq {charset : Encoding} (h : IsBytes charset) (s : Memory) (n : ℕ) :
    convertToUtf8 charset s n = s := if_pos h.symm

/-! ## The caller's buffer -/

/-- A line that was copied with the byte that ends it is the string in the buffer. -/
theorem string_terminate {l : List UInt8} (h : 0 ∉ l) (before sep : UInt8) (tail : List UInt8) :
    (terminate ⟨before, l ++ sep :: tail⟩ l.length).string = stripCr l := by
  have hset : (l ++ sep :: tail).set l.length 0 = l ++ 0 :: tail := by
    rw [List.set_append_right _ _ le_rfl, Nat.sub_self, List.set_cons_zero]
  rcases List.eq_nil_or_concat l with rfl | ⟨l', c, rfl⟩
  · rfl
  · rw [List.concat_eq_append] at *
    have hlen : (l' ++ [c]).length = l'.length + 1 := List.length_append
    have hget : (l' ++ [c] ++ 0 :: tail)[l'.length]? = some c := by
      rw [List.append_assoc, List.getElem?_append_right le_rfl, Nat.sub_self]
      rfl
    have hl' : 0 ∉ l' := fun hh => h (List.mem_append_left _ hh)
    rw [hlen] at hset
    rw [hlen, terminate, Memory.string]
    simp only [hset, hget]
    by_cases hc : c = 13
    · rw [if_pos (congrArg some hc), hc, stripCr_append_singleton]
      have hset' : (l' ++ [13] ++ 0 :: tail).set l'.length 0 = l' ++ 0 :: 0 :: tail := by
        rw [List.append_assoc, List.set_append_right _ _ le_rfl, Nat.sub_self]
        rfl
      rw [hset']
      exact string_append hl' (0 :: tail)
    · rw [if_neg fun hh => hc (Option.some.inj hh)]
      have hne : (l' ++ [c]).getLast? ≠ some 13 := by
        rw [List.getLast?_concat]
        exact fun hh => hc (Option.some.inj hh)
      rw [stripCr_of_ne hne]
      exact string_append h tail

/-! ## What is still to be read -/

/-- The bytes of the buffer that no call has taken. -/
def remaining (r : Reader) : List UInt8 := (r.mBuffer.getD []).drop r.mBufferReadOffset

/-- **`content` is what the reader has still to read**, and at the end of the file it has a
buffer with nothing in it. -/
structure Ready (r : Reader) (content : List UInt8) : Prop where
  isBytes : IsBytes r.mEncoding
  toRead : remaining r ++ bytesOf r.mDataSource = content
  source_nil : r.mBuffer = some [] → r.mDataSource = []

/-- The reads to come give one byte each, and nothing is left of those before. -/
structure OneByOne (r : Reader) : Prop where
  length_eq : ∀ chunk ∈ r.mDataSource, chunk.bytes.length = 1
  remaining_eq : remaining r = []

theorem bytesOf_cons (chunk : Chunk) (source : List Chunk) :
    bytesOf (chunk :: source) = chunk.bytes ++ bytesOf source := List.flatMap_cons

theorem bytesOf_eq_nil {source : List Chunk} : bytesOf source = [] ↔ source = [] := by
  cases source with
  | nil => exact ⟨fun _ => rfl, fun _ => rfl⟩
  | cons chunk source =>
    refine ⟨fun h => ?_, fun h => absurd h (List.cons_ne_nil _ _)⟩
    rw [bytesOf_cons, List.append_eq_nil_iff] at h
    exact absurd h.1 chunk.ne_nil

/-- **A call of `getLine` is its loop, from what is left of the buffer on.** -/
theorem getLine_eq {r : Reader} {content : List UInt8} (h : Ready r content) (hne : content ≠ [])
    (s : Memory) : ∃ r' buffer offset source, IsBytes r'.mEncoding ∧
      buffer.drop offset ++ bytesOf source = content ∧
      getLine r s = findLine r' s buffer offset source ∧
      (OneByOne r →
        (∀ chunk ∈ source, chunk.bytes.length = 1) ∧ (buffer.drop offset).length ≤ 1) := by
  have hcharset : ¬ (r.mEncoding = .AML_ENCODING_UTF32 ∨ r.mEncoding = .AML_ENCODING_UTF32BE) := by
    rcases h.isBytes with hr | hr <;> rw [hr] <;> decide
  obtain ⟨mEncoding, mBuffer, mBufferReadOffset, mLastLineLen, mDataSource⟩ := r
  have hread := h.toRead
  have hnil := h.source_nil
  simp only [remaining] at hread hnil
  rw [getLine, if_neg hcharset]
  cases mBuffer with
  | none =>
    rw [Option.getD_none, List.drop_nil, List.nil_append] at hread
    cases mDataSource with
    | nil => exact absurd hread.symm hne
    | cons chunk source =>
      refine ⟨⟨mEncoding, none, mBufferReadOffset, 0, chunk :: source⟩, chunk.bytes, 0, source,
        h.isBytes, ?_, rfl, fun h1 => ⟨fun c hc => ?_, ?_⟩⟩
      · rw [List.drop_zero, ← hread, bytesOf_cons]
      · exact h1.length_eq c (List.mem_cons_of_mem _ hc)
      · exact (h1.length_eq chunk List.mem_cons_self).le
  | some buffer =>
    cases buffer with
    | nil =>
      rw [hnil rfl] at hread
      exact absurd (hread.symm.trans (congrArg (· ++ []) List.drop_nil)) hne
    | cons c buffer =>
      refine ⟨_, c :: buffer, mBufferReadOffset, mDataSource, h.isBytes, hread, rfl,
        fun h1 => ⟨h1.length_eq, ?_⟩⟩
      have hdrop : (c :: buffer).drop mBufferReadOffset = [] := h1.remaining_eq
      rw [hdrop]
      exact Nat.zero_le 1

/-! ## The loop -/

section Loop

variable {r : Reader} {buffer : List UInt8} {readOffset : ℕ} {source : List Chunk}

/-- The line is in the buffer. -/
theorem findLine_of_eol (source : List Chunk) {l rest : List UInt8} {sep : UInt8}
    (hr : IsBytes r.mEncoding)
    (hl : ∀ c ∈ l, ¬ IsEol c) (hsep : IsEol sep)
    (hbuffer : buffer.drop readOffset = l ++ sep :: rest) (s : Memory) :
    ∃ m r', findLine r s buffer readOffset source = (some m, r') ∧ m.string = stripCr l ∧
      Ready r' (rest ++ bytesOf source) ∧ remaining r' = rest ∧ r'.mDataSource = source := by
  have hnull : 0 ∉ l := fun h => hl 0 h (Or.inr rfl)
  have hfind : findEol r.mEncoding (buffer.drop readOffset) = some l.length := by
    rw [hbuffer, findEol_append hr hl hsep]
  have hdrop : buffer.drop (readOffset + l.length + 1) = rest := by
    rw [Nat.add_assoc, ← List.drop_drop, hbuffer, ← List.drop_drop, List.drop_left]
    rfl
  have htake : (l ++ sep :: rest).take (l.length + 1) = l ++ [sep] := by
    rw [List.take_length_add_append]
    rfl
  have hmem : ∀ s : Memory, s.copy (l ++ [sep]) =
      ⟨s.before, l ++ sep :: s.bytes.drop (l.length + 1)⟩ := by
    intro s
    rw [Memory.copy, List.length_append, List.append_assoc]
    rfl
  rw [findLine.eq_def, hfind]
  dsimp only
  rw [returnLine]
  dsimp only
  rw [hbuffer, htake, hmem, convertToUtf8_eq hr, ite_self, lineBreakTagLen_eq hr]
  have hremaining : ((some buffer).getD []).drop (readOffset + l.length + 1) = rest := hdrop
  refine ⟨_, _, rfl, string_terminate hnull s.before sep _, ⟨hr, ?_, fun hb => ?_⟩, hremaining, rfl⟩
  · rw [remaining, hremaining]
  · rw [Option.some.inj hb, List.drop_nil] at hbuffer
    exact absurd hbuffer.symm (List.append_ne_nil_of_right_ne_nil _ (List.cons_ne_nil _ _))

/-- No line ends in the buffer, and more is read. -/
theorem findLine_refill (hr : IsBytes r.mEncoding) (hl : ∀ c ∈ buffer.drop readOffset, ¬ IsEol c)
    (hlen : (buffer.drop readOffset).length < LINE_LEN) (s : Memory) (chunk : Chunk) :
    findLine r s buffer readOffset (chunk :: source) =
      findLine { r with mLastLineLen := 0 } s (buffer.drop readOffset ++ chunk.bytes) 0 source := by
  rw [findLine.eq_def, findEol_of_notMem hr hl]
  dsimp only
  rw [if_neg (Nat.not_le.mpr hlen)]

/-- The bytes of a line are all there is. -/
theorem findLine_of_end (hr : IsBytes r.mEncoding) (hl : ∀ c ∈ buffer.drop readOffset, ¬ IsEol c)
    (hlen : (buffer.drop readOffset).length < LINE_LEN) (hne : buffer.drop readOffset ≠ [])
    (s : Memory) : findLine r s buffer readOffset [] =
      (some (s.copy (buffer.drop readOffset)), freeBuffer { r with mDataSource := [] }) := by
  rw [findLine.eq_def, findEol_of_notMem hr hl]
  dsimp only
  rw [if_neg (Nat.not_le.mpr hlen), if_pos hne]

/-- No line ends in a buffer that has the most that a line may have. -/
theorem findLine_of_long (hr : IsBytes r.mEncoding) (hl : ∀ c ∈ buffer.drop readOffset, ¬ IsEol c)
    (hlen : LINE_LEN ≤ (buffer.drop readOffset).length) (s : Memory) :
    (findLine r s buffer readOffset source).1 = none := by
  rw [findLine.eq_def, findEol_of_notMem hr hl]
  dsimp only
  rw [if_pos hlen]

end Loop

/-- A line is in the buffer with the byte that ends it, or the buffer has a part of the line. -/
theorem cases_line {l rest data : List UInt8} {sep : UInt8} {source : List Chunk}
    (h : data ++ bytesOf source = l ++ sep :: rest) :
    (∃ rest', data = l ++ sep :: rest' ∧ rest' ++ bytesOf source = rest) ∨
      ∃ l' chunk source', l = data ++ l' ∧ source = chunk :: source' := by
  rcases List.append_eq_append_iff.mp h with ⟨l', hl, hbytes⟩ | ⟨d, hdata, hrest⟩
  · cases source with
    | nil => exact absurd hbytes.symm (List.append_ne_nil_of_right_ne_nil _ (List.cons_ne_nil _ _))
    | cons chunk source => exact Or.inr ⟨l', chunk, source, hl, rfl⟩
  · cases d with
    | nil =>
      rw [List.append_nil] at hdata
      cases source with
      | nil => exact absurd hrest (List.cons_ne_nil _ _)
      | cons chunk source => exact Or.inr ⟨[], chunk, source, by rw [hdata, List.append_nil], rfl⟩
    | cons c d =>
      injection hrest with hc hd
      exact Or.inl ⟨d, by rw [hdata, hc], hd.symm⟩

theorem eq_nil_of_dropLast {l rest : List UInt8} {sep : UInt8} (hsep : IsEol sep)
    (h : ∀ c ∈ (l ++ sep :: rest).dropLast, ¬ IsEol c) : rest = [] := by
  by_contra hrest
  refine h sep ?_ hsep
  rw [List.dropLast_append_of_ne_nil (List.cons_ne_nil _ _), List.dropLast_cons_of_ne_nil hrest]
  exact List.mem_append_right _ List.mem_cons_self

/-- **The loop of `getLine` finds a line**, however the line is split over the buffer and the
reads to come. -/
theorem findLine_line {l rest : List UInt8} {sep : UInt8} (hl : ∀ c ∈ l, ¬ IsEol c)
    (hsep : IsEol sep) (hlen : l.length < LINE_LEN) (s : Memory) (source : List Chunk) :
    ∀ (r : Reader) (buffer : List UInt8) (readOffset : ℕ), IsBytes r.mEncoding →
      buffer.drop readOffset ++ bytesOf source = l ++ sep :: rest →
      ∃ m r', findLine r s buffer readOffset source = (some m, r') ∧ m.string = stripCr l ∧
        Ready r' rest ∧
        ((∀ chunk ∈ source, chunk.bytes.length = 1) →
          (∀ c ∈ (buffer.drop readOffset).dropLast, ¬ IsEol c) → OneByOne r') := by
  -- The induction is on the reads to come; the line is found in the buffer, or the buffer is
  -- a part of it and one more read is put behind.
  induction source with
  | nil =>
    intro r buffer readOffset hr h
    obtain ⟨rest', hbuffer, hrest⟩ | ⟨l', chunk, source', -, hnil⟩ := cases_line h
    · obtain ⟨m, r', hfind, hm, hready, hremaining, hsource⟩ :=
        findLine_of_eol [] hr hl hsep hbuffer s
      refine ⟨m, r', hfind, hm, hrest ▸ hready, fun _ hone => ⟨hsource ▸ nofun, ?_⟩⟩
      rw [hremaining]
      exact eq_nil_of_dropLast hsep (hbuffer ▸ hone)
    · exact absurd hnil.symm (List.cons_ne_nil _ _)
  | cons chunk source ih =>
    intro r buffer readOffset hr h
    obtain ⟨rest', hbuffer, hrest⟩ | ⟨l', chunk', source', hl', hcons⟩ := cases_line h
    · obtain ⟨m, r', hfind, hm, hready, hremaining, hsource⟩ :=
        findLine_of_eol (chunk :: source) hr hl hsep hbuffer s
      refine ⟨m, r', hfind, hm, hrest ▸ hready, fun hlen hone => ⟨hsource ▸ hlen, ?_⟩⟩
      rw [hremaining]
      exact eq_nil_of_dropLast hsep (hbuffer ▸ hone)
    · have hpart : ∀ c ∈ buffer.drop readOffset, ¬ IsEol c := fun c hc =>
        hl c (hl' ▸ List.mem_append_left l' hc)
      have hshort : (buffer.drop readOffset).length < LINE_LEN := by
        refine lt_of_le_of_lt ?_ hlen
        rw [hl', List.length_append]
        exact Nat.le_add_right _ _
      have hread : (buffer.drop readOffset ++ chunk.bytes).drop 0 ++ bytesOf source =
          l ++ sep :: rest := by
        rw [List.drop_zero, List.append_assoc, ← bytesOf_cons, h]
      obtain ⟨m, r', hfind, hm, hready, hone⟩ := ih { r with mLastLineLen := 0 } _ 0 hr hread
      refine ⟨m, r', (findLine_refill hr hpart hshort s chunk).trans hfind, hm, hready,
        fun hone1 _ => hone (fun c hc => hone1 c (List.mem_cons_of_mem _ hc)) fun c hc => ?_⟩
      obtain ⟨d, hd⟩ := List.length_eq_one_iff.mp (hone1 chunk List.mem_cons_self)
      rw [List.drop_zero, hd, List.dropLast_concat] at hc
      exact hpart c hc

/-! ## One call -/

/-- **A call of `getLine` takes a line off.**  Where one byte at a time is read, it reads no
further than the line. -/
theorem getLine_line {r : Reader} {l rest : List UInt8} {sep : UInt8}
    (h : Ready r (l ++ sep :: rest)) (hl : ∀ c ∈ l, ¬ IsEol c) (hsep : IsEol sep)
    (hlen : l.length < LINE_LEN) (s : Memory) :
    ∃ m r', getLine r s = (some m, r') ∧ m.string = stripCr l ∧ Ready r' rest ∧
      (OneByOne r → OneByOne r') := by
  have hne : l ++ sep :: rest ≠ [] := List.append_ne_nil_of_right_ne_nil _ (List.cons_ne_nil _ _)
  obtain ⟨r0, buffer, offset, source, hr0, hread, hget, hone0⟩ := getLine_eq h hne s
  obtain ⟨m, r', hfind, hm, hready, hone⟩ :=
    findLine_line hl hsep hlen s source r0 buffer offset hr0 hread
  refine ⟨m, r', hget.trans hfind, hm, hready, fun h1 => hone (hone0 h1).1 fun c hc => ?_⟩
  have hnil : (buffer.drop offset).dropLast = [] := by
    apply List.eq_nil_of_length_eq_zero
    rw [List.length_dropLast]
    exact Nat.sub_eq_zero_of_le (hone0 h1).2
  rw [hnil] at hc
  exact absurd hc List.not_mem_nil

/-- Nothing is left to read. -/
theorem getLine_nil {r : Reader} (h : Ready r []) (s : Memory) :
    (getLine r s).1 = none ∧ Ready (getLine r s).2 [] := by
  have hcharset : ¬ (r.mEncoding = .AML_ENCODING_UTF32 ∨ r.mEncoding = .AML_ENCODING_UTF32BE) := by
    rcases h.isBytes with hr | hr <;> rw [hr] <;> decide
  obtain ⟨hremaining, hsource⟩ := List.append_eq_nil_iff.mp h.toRead
  have hsource := bytesOf_eq_nil.mp hsource
  obtain ⟨mEncoding, mBuffer, mBufferReadOffset, mLastLineLen, mDataSource⟩ := r
  obtain rfl : mDataSource = [] := hsource
  rw [getLine, if_neg hcharset]
  cases mBuffer with
  | none => exact ⟨rfl, h.isBytes, rfl, fun _ => rfl⟩
  | some buffer =>
    cases buffer with
    | nil => exact ⟨rfl, h⟩
    | cons c buffer =>
      have hdrop : (c :: buffer).drop mBufferReadOffset = [] := hremaining
      dsimp only
      rw [findLine.eq_def, hdrop]
      exact ⟨rfl, h.isBytes, h.toRead, fun _ => rfl⟩

/-- **A last line with no newline is copied with no null behind it.** -/
theorem getLine_last {r : Reader} {l : List UInt8} (h : Ready r l) (hne : l ≠ [])
    (hl : ∀ c ∈ l, ¬ IsEol c) (hlen : l.length < LINE_LEN) (s : Memory) :
    (getLine r s).1 = some (s.copy l) := by
  obtain ⟨r0, buffer, offset, source, hr0, hread, hget, -⟩ := getLine_eq h hne s
  rw [hget]
  clear hget h
  induction source generalizing r0 buffer offset with
  | nil =>
    have hbuffer : buffer.drop offset = l := (List.append_nil _).symm.trans hread
    subst hbuffer
    rw [findLine_of_end hr0 hl hlen hne]
  | cons chunk source ih =>
    have hpart : ∀ c ∈ buffer.drop offset, ¬ IsEol c := fun c hc =>
      hl c (hread ▸ List.mem_append_left _ hc)
    have hshort : (buffer.drop offset).length < LINE_LEN := by
      refine lt_of_le_of_lt ?_ hlen
      rw [← hread, List.length_append]
      exact Nat.le_add_right _ _
    rw [findLine_refill hr0 hpart hshort]
    refine ih _ _ 0 hr0 ?_
    rw [List.drop_zero, List.append_assoc, ← bytesOf_cons, hread]

/-- **A line of `LINE_LEN` bytes or more is not read**, where the reads give one byte each. -/
theorem getLine_long {r : Reader} {content : List UInt8} (h : Ready r content) (hone : OneByOne r)
    (hl : ∀ c ∈ content.take LINE_LEN, ¬ IsEol c) (hlen : LINE_LEN ≤ content.length) (s : Memory) :
    (getLine r s).1 = none := by
  have hne : content ≠ [] := List.ne_nil_of_length_pos (lt_of_lt_of_le (by decide) hlen)
  obtain ⟨r0, buffer, offset, source, hr0, hread, hget, hone0⟩ := getLine_eq h hne s
  obtain ⟨hsingle, hle⟩ := hone0 hone
  have hshort : (buffer.drop offset).length ≤ LINE_LEN := hle.trans (by decide)
  rw [hget]
  clear hget h hone0 hle
  induction source generalizing r0 buffer offset with
  | nil =>
    have hbuffer : buffer.drop offset = content := (List.append_nil _).symm.trans hread
    rw [← hbuffer, List.take_of_length_le hshort] at hl
    exact findLine_of_long hr0 hl (hbuffer ▸ hlen) s
  | cons chunk source ih =>
    have hpart : ∀ c ∈ buffer.drop offset, ¬ IsEol c := fun c hc => by
      refine hl c ?_
      rw [← hread, List.take_append, List.take_of_length_le hshort]
      exact List.mem_append_left _ hc
    by_cases hlong : LINE_LEN ≤ (buffer.drop offset).length
    · exact findLine_of_long hr0 hpart hlong s
    · have hlt := Nat.not_le.mp hlong
      rw [findLine_refill hr0 hpart hlt]
      refine ih _ _ 0 hr0 ?_ (fun c hc => hsingle c (List.mem_cons_of_mem _ hc)) ?_
      · rw [List.drop_zero, List.append_assoc, ← bytesOf_cons, hread]
      · rw [List.drop_zero, List.length_append, hsingle chunk List.mem_cons_self]
        exact hlt

/-! ## The lines of a file -/

theorem isReadable_append (crlf : Bool) {l : List UInt8} (hl : 10 ∉ l) (rest : List UInt8) :
    IsReadable crlf (l ++ 10 :: rest) ↔
      (0 ∉ l ∧ l.length < LINE_LEN ∧ (crlf = false → l.getLast? ≠ some 13)) ∧
        IsReadable crlf rest := by
  have hlines := lines_append false hl rest
  have hnull : 0 ∉ l ++ 10 :: rest ↔ 0 ∉ l ∧ 0 ∉ rest := by
    rw [List.mem_append, List.mem_cons, not_or, not_or]
    exact ⟨fun h => ⟨h.1, h.2.2⟩, fun h => ⟨h.1, by decide, h.2⟩⟩
  have hlast : (l ++ 10 :: rest).getLast? = some (rest.getLast?.getD 10) := by
    rw [List.getLast?_append, List.getLast?_cons]
    rfl
  have hended : (∀ c ∈ (l ++ 10 :: rest).getLast?, c = 10) ↔ ∀ c ∈ rest.getLast?, c = 10 := by
    rw [hlast]
    cases rest.getLast? with
    | none => exact ⟨fun _ c hc => absurd hc (Option.not_mem_none c), fun _ c hc =>
        (Option.some.inj hc).symm⟩
    | some d => rfl
  constructor
  · intro h
    have hshort := h.short
    have hcr := h.no_cr
    simp only [hlines, List.forall_mem_cons] at hshort hcr
    exact ⟨⟨(hnull.mp h.no_null).1, hshort.1, fun hc => (hcr hc).1⟩,
      (hnull.mp h.no_null).2, hshort.2, hended.mp h.ended, fun hc => (hcr hc).2⟩
  · rintro ⟨⟨hl0, hlen, hlcr⟩, h⟩
    refine ⟨hnull.mpr ⟨hl0, h.no_null⟩, ?_, hended.mpr h.ended, fun hc => ?_⟩
    · rw [hlines]
      exact List.forall_mem_cons.mpr ⟨hlen, h.short⟩
    · rw [hlines]
      exact List.forall_mem_cons.mpr ⟨hlcr hc, h.no_cr hc⟩

theorem isReadable_nil (crlf : Bool) : IsReadable crlf [] where
  no_null := List.not_mem_nil
  short := nofun
  ended := nofun
  no_cr := nofun

/-- A byte that ends no line. -/
theorem not_isEol_of_mem {l : List UInt8} (h10 : 10 ∉ l) (h0 : 0 ∉ l) : ∀ c ∈ l, ¬ IsEol c := by
  rintro c hc (rfl | rfl)
  · exact h10 hc
  · exact h0 hc

/-- The first call, and those after it. -/
theorem Reads.cons {r : Reader} {lines : List (List UInt8)} (h : Reads r lines) {s : Memory}
    (hs : s.bytes.length = LINE_LEN + 1) :
    (getLine r s).1.map Memory.string = lines[0]? ∧ Reads (getLine r s).2 lines.tail := by
  have hcons : ∀ mems, IsLineBuffers mems →
      (getLine r s).1.map Memory.string :: readLines (getLine r s).2 mems =
        lines[0]? :: (List.range mems.length).map (lines.tail[·]?) := by
    intro mems hmems
    rw [← readLines, h (s :: mems) (List.forall_mem_cons.mpr ⟨hs, hmems⟩), List.length_cons,
      List.range_succ_eq_map, List.map_cons, List.map_map]
    refine congrArg _ (List.map_congr_left fun i _ => ?_)
    rw [List.getElem?_tail]
    rfl
  exact ⟨List.head_eq_of_cons_eq (hcons [] nofun),
    fun mems hmems => List.tail_eq_of_cons_eq (hcons mems hmems)⟩

/-- **The calls give the lines of a file** that the reader can read. -/
theorem reads_of_isReadable (crlf : Bool) (mems : List Memory) :
    ∀ {r : Reader} {content : List UInt8}, Ready r content → IsReadable crlf content →
      readLines r mems = (List.range mems.length).map ((lines crlf content)[·]?) := by
  induction mems with
  | nil => exact fun _ _ => rfl
  | cons s mems ih =>
    intro r content hready hcontent
    rw [readLines, List.length_cons, List.range_succ_eq_map, List.map_cons, List.map_map]
    rcases cases_text content with rfl | ⟨hne, h10⟩ | ⟨l, rest, h10, rfl⟩
    · obtain ⟨hnone, hready'⟩ := getLine_nil hready s
      rw [hnone, ih hready' hcontent]
      rfl
    · obtain ⟨c, hc⟩ := List.getLast?_isSome.mpr hne |> Option.isSome_iff_exists.mp
      exact absurd (hcontent.ended c hc ▸ List.mem_of_getLast? hc) h10
    · obtain ⟨⟨h0, hlen, hcr⟩, hrest⟩ := (isReadable_append crlf h10 rest).mp hcontent
      obtain ⟨m, r', hget, hm, hready', -⟩ :=
        getLine_line hready (not_isEol_of_mem h10 h0) (Or.inl rfl) hlen s
      have hline : stripCr l = lineOf crlf l := by
        cases crlf
        · exact stripCr_of_ne (hcr rfl)
        · rfl
      rw [hget, lines_append crlf h10, ih hready' hrest, Option.map_some, hm, hline]
      rfl

/-! ## The lines that are not read -/

/-- A buffer with no null in it. -/
def filled : Memory := ⟨65, List.replicate (LINE_LEN + 1) 65⟩

theorem length_filled : filled.bytes.length = LINE_LEN + 1 := List.length_replicate

/-- A last line with no newline goes on with what the buffer had. -/
theorem length_lt_string_copy {l : List UInt8} (h : 0 ∉ l) (hlen : l.length < LINE_LEN) :
    l.length < (filled.copy l).string.length := by
  have htail : 0 ∉ filled.bytes.drop l.length := fun hh =>
    absurd (List.eq_of_mem_replicate (List.mem_of_mem_drop hh)) (by decide)
  have hstring : (filled.copy l).string = l ++ filled.bytes.drop l.length :=
    string_append_of_notMem h htail
  rw [hstring, List.length_append, List.length_drop, length_filled]
  omega

/-- A source that gives one byte a read. -/
def oneByOne (content : List UInt8) : List Chunk :=
  content.map fun c => ⟨[c], List.cons_ne_nil c [], (by decide : 1 ≤ LINE_LEN)⟩

theorem bytesOf_oneByOne (content : List UInt8) : bytesOf (oneByOne content) = content := by
  rw [bytesOf, oneByOne, List.flatMap_map]
  exact List.flatMap_singleton' content

theorem string_of_readLines (mems : List Memory) :
    ∀ r, ∀ result ∈ readLines r mems, ∀ l ∈ result, 0 ∉ l := by
  induction mems with
  | nil => exact fun _ _ h => absurd h List.not_mem_nil
  | cons s mems ih =>
    intro r result hresult l hl
    rcases List.mem_cons.mp hresult with rfl | hmem
    · obtain ⟨m, -, rfl⟩ := Option.mem_map.mp hl
      exact zero_notMem_string m.bytes
    · exact ih _ result hmem l hl

/-- Lines that are read have no null. -/
theorem Reads.zero_notMem {r : Reader} {lines : List (List UInt8)} (h : Reads r lines) :
    ∀ l ∈ lines, 0 ∉ l := by
  intro l hl
  obtain ⟨i, hi⟩ := List.mem_iff_getElem?.mp hl
  have hmems : IsLineBuffers (List.replicate (i + 1) filled) := fun s hs =>
    List.eq_of_mem_replicate hs ▸ length_filled
  refine string_of_readLines (List.replicate (i + 1) filled) r (some l) ?_ l rfl
  rw [h _ hmems, List.length_replicate, ← hi]
  exact List.mem_map_of_mem (List.mem_range.mpr (Nat.lt_succ_self i))

section OneByOne

variable {crlf : Bool} {r : Reader} {content : List UInt8}

/-- A first line of `LINE_LEN` bytes or more is not read. -/
theorem getLine_first_long {l : List UInt8} {tail : List UInt8} (h : Ready r (l ++ tail))
    (hone : OneByOne r) (h10 : 10 ∉ l) (h0 : 0 ∉ l) (hlen : LINE_LEN ≤ l.length) :
    (getLine r filled).1 = none := by
  refine getLine_long h hone (fun c hc => not_isEol_of_mem h10 h0 c ?_) ?_ filled
  · rw [List.take_append_of_le_length hlen] at hc
    exact List.mem_of_mem_take hc
  · rw [List.length_append]
    exact hlen.trans (Nat.le_add_right _ _)

/-- **Where one byte at a time is read, only the lines of a readable file are read.** -/
theorem isReadable_of_reads (hready : Ready r content) (hone : OneByOne r) (h0 : 0 ∉ content)
    (h : Reads r (lines crlf content)) : IsReadable crlf content := by
  induction hn : content.length using Nat.strong_induction_on generalizing r content with
  | _ n ih =>
    obtain ⟨hfirst, hrest⟩ := h.cons length_filled
    rcases cases_text content with rfl | ⟨hne, h10⟩ | ⟨l, rest, h10, rfl⟩
    · exact isReadable_nil crlf
    · rw [lines_of_notMem crlf h10 hne] at hfirst
      by_cases hlen : content.length < LINE_LEN
      · rw [getLine_last hready hne (not_isEol_of_mem h10 h0) hlen] at hfirst
        have hlt := length_lt_string_copy h0 hlen
        rw [Option.some.inj hfirst] at hlt
        exact absurd hlt (lt_irrefl _)
      · have hready' : Ready r (content ++ []) := (List.append_nil content).symm ▸ hready
        rw [getLine_first_long hready' hone h10 h0 (Nat.not_lt.mp hlen)] at hfirst
        exact absurd hfirst.symm (Option.some_ne_none _)
    · have hl0 : 0 ∉ l := fun hh => h0 (List.mem_append_left _ hh)
      have hrest0 : 0 ∉ rest := fun hh => h0 (List.mem_append_right _ (List.mem_cons_of_mem _ hh))
      rw [lines_append crlf h10] at hfirst hrest
      by_cases hlen : l.length < LINE_LEN
      · obtain ⟨m, r', hget, hm, hready', hone'⟩ :=
          getLine_line hready (not_isEol_of_mem h10 hl0) (Or.inl rfl) hlen filled
        rw [hget] at hfirst hrest
        have hline : stripCr l = lineOf crlf l := hm ▸ Option.some.inj hfirst
        refine (isReadable_append crlf h10 rest).mpr ⟨⟨hl0, hlen, ?_⟩, ?_⟩
        · rintro rfl hlast
          have hstrip : l.dropLast = l := (if_pos hlast).symm.trans hline
          have hlength := congrArg List.length hstrip
          have hpos := List.length_pos_of_mem (List.mem_of_getLast? hlast)
          rw [List.length_dropLast] at hlength
          omega
        · refine ih rest.length ?_ hready' (hone' hone) hrest0 hrest rfl
          rw [← hn, List.length_append, List.length_cons]
          omega
      · rw [getLine_first_long hready hone h10 hl0 (Nat.not_lt.mp hlen)] at hfirst
        exact absurd hfirst.symm (Option.some_ne_none _)

/-- **The byte-order mark is read as a part of the first line.** -/
theorem not_reads_of_bom (hready : Ready r (bom ++ content)) (hone : OneByOne r)
    (h0 : 0 ∉ bom ++ content) : ¬ Reads r (lines crlf content) := by
  intro h
  have hfirst := (h.cons length_filled).1
  have hbom : 10 ∉ bom := by decide
  rcases cases_text content with rfl | ⟨hne, h10⟩ | ⟨l, rest, h10, rfl⟩
  · rw [getLine_last hready (by decide) (not_isEol_of_mem (by decide) h0) (by decide)] at hfirst
    exact absurd hfirst (Option.some_ne_none _)
  · have h10' : 10 ∉ bom ++ content := fun hh => (List.mem_append.mp hh).elim hbom h10
    rw [lines_of_notMem crlf h10 hne] at hfirst
    by_cases hlen : (bom ++ content).length < LINE_LEN
    · have hne' : bom ++ content ≠ [] := List.append_ne_nil_of_right_ne_nil _ hne
      rw [getLine_last hready hne' (not_isEol_of_mem h10' h0) hlen] at hfirst
      have hlt := length_lt_string_copy h0 hlen
      rw [Option.some.inj hfirst, List.length_append] at hlt
      exact absurd hlt (Nat.not_lt.mpr (Nat.le_add_left _ _))
    · have hready' : Ready r (bom ++ content ++ []) :=
        (List.append_nil (bom ++ content)).symm ▸ hready
      rw [getLine_first_long hready' hone h10' h0 (Nat.not_lt.mp hlen)] at hfirst
      exact absurd hfirst.symm (Option.some_ne_none _)
  · have h10' : 10 ∉ bom ++ l := fun hh => (List.mem_append.mp hh).elim hbom h10
    rw [← List.append_assoc] at hready h0
    have hl0 : 0 ∉ bom ++ l := fun hh => h0 (List.mem_append_left _ hh)
    rw [lines_append crlf h10] at hfirst
    by_cases hlen : (bom ++ l).length < LINE_LEN
    · obtain ⟨m, r', hget, hm, -⟩ :=
        getLine_line hready (not_isEol_of_mem h10' hl0) (Or.inl rfl) hlen filled
      rw [hget] at hfirst
      have hline : stripCr (bom ++ l) = lineOf crlf l := hm ▸ Option.some.inj hfirst
      have hlong := length_le_stripCr (bom ++ l)
      have hshort := length_lineOf_le crlf l
      rw [hline, List.length_append, show bom.length = 3 from rfl] at hlong
      omega
    · rw [getLine_first_long hready hone h10' hl0 (Nat.not_lt.mp hlen)] at hfirst
      exact absurd hfirst.symm (Option.some_ne_none _)

end OneByOne

/-! ## The law of a text -/

/-- A file whose first byte is in no byte-order mark of UTF-16. -/
theorem isBytes_detectEncoding {content : List UInt8}
    (h : ∀ c ∈ content.head?, c.toNat < 0xF8) (n : ℕ) :
    IsBytes (detectEncoding (content.take n)) := by
  rw [detectEncoding.eq_def]
  split
  · next a b c heq =>
    have hhead : content.head? = some a := by
      cases content with
      | nil => exact absurd (List.take_nil.symm.trans heq) nofun
      | cons d content =>
        cases n with
        | zero => exact absurd heq nofun
        | succ n => exact congrArg some (List.cons.inj heq).1
    have ha := h a hhead
    have hFF : a ≠ 0xFF := fun h => absurd (h ▸ ha) (by decide)
    have hFE : a ≠ 0xFE := fun h => absurd (h ▸ ha) (by decide)
    rw [if_neg fun h => hFF h.1, if_neg fun h => hFE h.1]
    split_ifs
    · exact Or.inr rfl
    · exact Or.inl rfl
  · exact Or.inl rfl

theorem ready_create {content : List UInt8} (hhead : ∀ c ∈ content.head?, c.toNat < 0xF8) (n : ℕ)
    {source : List Chunk} (h : bytesOf source = content) :
    Ready (create (content.take n) source) content where
  isBytes := isBytes_detectEncoding hhead n
  toRead := h
  source_nil := fun hnone => absurd hnone.symm (Option.some_ne_none _)

/-- The bytes of a text are below those of the byte-order marks of UTF-16. -/
theorem head_utf8Bytes (text : List Char) : ∀ c ∈ (utf8Bytes text).head?, c.toNat < 0xF8 := by
  intro b hb
  obtain ⟨c, -, hc⟩ := List.mem_flatMap.mp (List.mem_of_mem_head? hb)
  exact Utf16.lt_of_mem_utf8EncodeChar hc

/-- **The line law holds of exactly the texts that the reader can read**: those with no
byte-order mark, no null, lines of less than `LINE_LEN` bytes and a newline at the end. -/
theorem lineLaw_iff (crlf : Bool) (text : List Char) :
    LineLaw crlf text ↔ ¬ bom <+: utf8Bytes text ∧ IsReadable crlf (utf8Bytes text) := by
  constructor
  · intro h
    have hreads := h 0 (oneByOne (utf8Bytes text)) (Nat.zero_le 3) (bytesOf_oneByOne _)
    have hone : OneByOne (create ((utf8Bytes text).take 0) (oneByOne (utf8Bytes text))) := by
      refine ⟨fun chunk hchunk => ?_, rfl⟩
      obtain ⟨c, -, rfl⟩ := List.mem_map.mp hchunk
      rfl
    have hdrop : 0 ∉ dropBom (utf8Bytes text) := fun hh => by
      obtain ⟨l, hl, h0⟩ := exists_mem_lines crlf (by decide) (by decide) hh
      exact hreads.zero_notMem l hl h0
    by_cases hbom : bom <+: utf8Bytes text
    · obtain ⟨content, hcontent⟩ := hbom
      have hdropped : dropBom (utf8Bytes text) = content := by
        rw [← hcontent, dropBom, if_pos (List.prefix_append _ _)]
        rfl
      rw [hdropped] at hreads hdrop
      have hready : Ready (create ((utf8Bytes text).take 0) (oneByOne (utf8Bytes text)))
          (bom ++ content) := by
        rw [hcontent]
        exact ready_create (head_utf8Bytes text) 0 (bytesOf_oneByOne (utf8Bytes text))
      have h0 : 0 ∉ bom ++ content := fun hh => (List.mem_append.mp hh).elim (by decide) hdrop
      exact absurd hreads (not_reads_of_bom hready hone h0)
    · have hready := ready_create (head_utf8Bytes text) 0 (bytesOf_oneByOne (utf8Bytes text))
      rw [dropBom, if_neg hbom] at hreads hdrop
      exact ⟨hbom, isReadable_of_reads hready hone hdrop hreads⟩
  · rintro ⟨hbom, hcontent⟩ n source - hsource mems -
    rw [dropBom, if_neg hbom]
    exact reads_of_isReadable crlf mems (ready_create (head_utf8Bytes text) n hsource) hcontent

/-- **A last line with no newline is read with the bytes behind it.** -/
theorem not_lineLaw_unterminated : ¬ LineLaw true ['O', 'K'] := by
  intro h
  have hmems : IsLineBuffers [filled] := fun s hs => List.eq_of_mem_singleton hs ▸ length_filled
  have hread := h 2 [⟨[0x4F, 0x4B], by decide, by decide⟩] (by decide) (by decide) [filled] hmems
  revert hread
  decide

end ExtSubStreamReader
end AmlSubtitle
