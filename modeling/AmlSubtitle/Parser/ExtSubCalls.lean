import AmlSubtitle.Lib.Lockstep
import AmlSubtitle.Parser.TextSubtitle

/-!
# Calls of `ExtSubStreamReader`

A call of `getLine` ends in one of four ways: with a line whose end is in the buffer, with a null
pointer for a line that is too long, with the bytes behind the last newline of the file, and with a
null pointer at the end of the file.

* `findLine_cases`, `getLine_cases`: the four, of every reader and for every encoding.
* `inBounds_iff`: what is written is in the caller's buffer.
* `pushBack_iff`: a line that is put back is read again.

The length of a line is an unsigned number.  With pointers of 32 bits the byte that `getLine` looks
at behind an empty line, `s[dataLen - 1]`, is the one in front of the buffer.
-/

namespace AmlSubtitle
namespace ExtSubStreamReader

open Utf16 Lines

/-! ## The end of a line -/

section Eol

variable {mEncoding : Encoding} {data : List UInt8} {n : ℕ}

/-- There are bytes enough to see if a line ends. -/
def Decided (mEncoding : Encoding) (data : List UInt8) : Prop :=
  match mEncoding with
  | .AML_ENCODING_NONE | .AML_ENCODING_UTF8 => data ≠ []
  | _ => 4 < data.length

theorem foundEol_append (h : Decided mEncoding data) (more : List UInt8) :
    foundEol mEncoding (data ++ more) = foundEol mEncoding data := by
  have hhead : data ≠ [] → (data ++ more).head? = data.head? := by
    intro hne
    obtain ⟨c, data, rfl⟩ := List.exists_cons_of_ne_nil hne
    rfl
  have htake : 4 < data.length → (data ++ more).take 4 = data.take 4 := fun hlong =>
    List.take_append_of_le_length hlong.le
  have hlen : 4 < data.length → 4 < (data ++ more).length := by
    intro hlong
    rw [List.length_append]
    omega
  cases mEncoding with
  | AML_ENCODING_NONE => rw [foundEol, foundEol, hhead h]
  | AML_ENCODING_UTF8 => rw [foundEol, foundEol, hhead h]
  | AML_ENCODING_UTF16 => simp only [foundEol, htake h, hlen h, show 4 < data.length from h]
  | AML_ENCODING_UTF16BE => simp only [foundEol, htake h, hlen h, show 4 < data.length from h]
  | AML_ENCODING_UTF32 => rfl
  | AML_ENCODING_UTF32BE => rfl

theorem decided_of_foundEol (h : foundEol mEncoding data = true) : Decided mEncoding data := by
  cases mEncoding with
  | AML_ENCODING_NONE =>
    rintro rfl
    exact absurd h (by decide)
  | AML_ENCODING_UTF8 =>
    rintro rfl
    exact absurd h (by decide)
  | AML_ENCODING_UTF16 =>
    simp only [foundEol, Bool.and_eq_true, decide_eq_true_eq] at h
    exact h.1
  | AML_ENCODING_UTF16BE =>
    simp only [foundEol, Bool.and_eq_true, decide_eq_true_eq] at h
    exact h.1
  | AML_ENCODING_UTF32 => exact absurd h Bool.false_ne_true
  | AML_ENCODING_UTF32BE => exact absurd h Bool.false_ne_true

theorem Decided.cons (h : Decided mEncoding data) (c : UInt8) : Decided mEncoding (c :: data) := by
  have hlong : 4 < data.length → 4 < (c :: data).length := fun hlong =>
    hlong.trans (Nat.lt_succ_self _)
  cases mEncoding with
  | AML_ENCODING_NONE => exact List.cons_ne_nil _ _
  | AML_ENCODING_UTF8 => exact List.cons_ne_nil _ _
  | AML_ENCODING_UTF16 => exact hlong h
  | AML_ENCODING_UTF16BE => exact hlong h
  | AML_ENCODING_UTF32 => exact hlong h
  | AML_ENCODING_UTF32BE => exact hlong h

theorem decided_of_findEol (h : findEol mEncoding data = some n) : Decided mEncoding data := by
  induction data generalizing n with
  | nil => exact absurd h.symm (Option.some_ne_none n)
  | cons c data ih =>
    rw [findEol] at h
    split_ifs at h with hfound
    · exact decided_of_foundEol hfound
    · obtain ⟨m, hm, -⟩ := Option.map_eq_some_iff.mp h
      exact (ih hm).cons c

/-- An end that is found in some bytes is found in more of them. -/
theorem findEol_append_of_eq_some (h : findEol mEncoding data = some n) (more : List UInt8) :
    findEol mEncoding (data ++ more) = some n := by
  induction data generalizing n with
  | nil => exact absurd h.symm (Option.some_ne_none n)
  | cons c data ih =>
    have hdecided := decided_of_findEol h
    rw [List.cons_append, findEol, ← List.cons_append, foundEol_append hdecided]
    rw [findEol] at h
    split_ifs at h ⊢
    · exact h
    · obtain ⟨m, hm, rfl⟩ := Option.map_eq_some_iff.mp h
      rw [ih hm]
      rfl

end Eol

/-! ## How a call ends -/

/-- The buffer has room until the end of the line is in it, if `data` is in it at first and the
reads to come are those of `source`. -/
def Reaches (mEncoding : Encoding) (data : List UInt8) (source : List Chunk) : Prop :=
  ∀ before, before <+: source → findEol mEncoding (data ++ bytesOf before) = none →
    (data ++ bytesOf before).length < LINE_LEN

theorem reaches_of_findEol {mEncoding : Encoding} {data : List UInt8} {n : ℕ}
    (h : findEol mEncoding data = some n) (source : List Chunk) :
    Reaches mEncoding data source := by
  intro before _ hnone
  rw [findEol_append_of_eq_some h] at hnone
  exact absurd hnone (Option.some_ne_none n)

theorem reaches_cons {mEncoding : Encoding} {data : List UInt8} {chunk : Chunk}
    {source : List Chunk} (hlen : data.length < LINE_LEN) :
    Reaches mEncoding data (chunk :: source) ↔
      Reaches mEncoding (data ++ chunk.bytes) source := by
  constructor
  · intro h before hbefore
    rw [List.append_assoc, ← bytesOf_cons]
    exact h _ (List.cons_prefix_cons.mpr ⟨rfl, hbefore⟩)
  · intro h before hbefore
    cases before with
    | nil =>
      intro _
      rw [bytesOf, List.flatMap_nil, List.append_nil]
      exact hlen
    | cons chunk' before =>
      obtain ⟨rfl, hrest⟩ := List.cons_prefix_cons.mp hbefore
      rw [bytesOf_cons, ← List.append_assoc]
      exact h before hrest

/-- How the loop ends, with `data` in the buffer at first: what it gives, and what it leaves. -/
inductive Ends (mEncoding : Encoding) (s : Memory) (data : List UInt8) (source : List Chunk) :
    Option Memory × Reader → Prop
  | line {r : Reader} {buffer : List UInt8} {readOffset n : ℕ}
      (hmEncoding : r.mEncoding = mEncoding)
      (hreaches : Reaches mEncoding data source)
      (hfind : findEol mEncoding (data ++ bytesOf source) = some n)
      (hbuffer : findEol mEncoding (buffer.drop readOffset) = some n)
      (hahead : buffer.drop readOffset <+: data ++ bytesOf source) :
      Ends mEncoding s data source (returnLine r s buffer readOffset n)
  | long {r : Reader} (hmEncoding : r.mEncoding = mEncoding)
      (hreaches : ¬ Reaches mEncoding data source) :
      Ends mEncoding s data source (none, freeBuffer r)
  | last {r : Reader} (hmEncoding : r.mEncoding = mEncoding)
      (hfind : findEol mEncoding (data ++ bytesOf source) = none)
      (hne : data ++ bytesOf source ≠ []) (hlen : (data ++ bytesOf source).length < LINE_LEN)
      (hsource : r.mDataSource = []) :
      Ends mEncoding s data source (some (s.copy (data ++ bytesOf source)), freeBuffer r)
  | none {r : Reader} (hnil : data = []) (hsource : source = []) :
      Ends mEncoding s data source (none, r)

/-- One more read is put behind what is in the buffer. -/
theorem Ends.cons {mEncoding : Encoding} {s : Memory} {data : List UInt8} {chunk : Chunk}
    {source : List Chunk} {result : Option Memory × Reader} (hlen : data.length < LINE_LEN)
    (h : Ends mEncoding s (data ++ chunk.bytes) source result) :
    Ends mEncoding s data (chunk :: source) result := by
  have hreaches := @reaches_cons mEncoding data chunk source hlen
  have hbytes : data ++ bytesOf (chunk :: source) = data ++ chunk.bytes ++ bytesOf source := by
    rw [bytesOf_cons, List.append_assoc]
  cases h with
  | line hmEncoding hreach hfind hbuffer hahead =>
    exact .line hmEncoding (hreaches.mpr hreach) (hbytes ▸ hfind) hbuffer (hbytes ▸ hahead)
  | long hmEncoding hreach => exact .long hmEncoding fun h => hreach (hreaches.mp h)
  | last hmEncoding hfind hne hlast hsource =>
    rw [← hbytes] at hfind hne hlast ⊢
    exact .last hmEncoding hfind hne hlast hsource
  | none hnil _ => exact absurd (List.append_eq_nil_iff.mp hnil).2 chunk.ne_nil

/-- **The loop of `getLine`.**  At the end of the file it leaves the reader as it was. -/
theorem findLine_cases (s : Memory) (source : List Chunk) :
    ∀ (r : Reader) (buffer : List UInt8) (readOffset : ℕ),
      Ends r.mEncoding s (buffer.drop readOffset) source
          (findLine r s buffer readOffset source) ∧
        (buffer.drop readOffset = [] → source = [] → (findLine r s buffer readOffset source).2 =
          { r with
            mBuffer := some buffer, mBufferReadOffset := readOffset, mDataSource := [] }) := by
  -- the induction is on the reads to come: each of them is put behind what is in the buffer
  induction source with
  | nil =>
    intro r buffer readOffset
    have hbytes : buffer.drop readOffset ++ bytesOf [] = buffer.drop readOffset :=
      List.append_nil _
    rw [findLine.eq_def]
    cases hfind : findEol r.mEncoding (buffer.drop readOffset) with
    | some n =>
      refine ⟨.line rfl (reaches_of_findEol hfind _) (by rw [hbytes, hfind]) hfind ?_, ?_⟩
      · rw [hbytes]
      · intro hnil
        rw [hnil] at hfind
        exact absurd hfind.symm (Option.some_ne_none n)
    | none =>
      dsimp only
      split_ifs with hlong hne
      · refine ⟨.long rfl fun h => ?_, ?_⟩
        · have hlt := h [] (List.nil_prefix) (by rw [hbytes, hfind])
          rw [hbytes] at hlt
          omega
        · intro hnil
          rw [hnil] at hlong
          exact absurd hlong (by decide)
      · refine ⟨?_, fun hnil => absurd hnil hne⟩
        have hends := @Ends.last r.mEncoding s (buffer.drop readOffset) []
          { r with mDataSource := [] } rfl (by rw [hbytes, hfind]) (by rwa [hbytes])
          (by rw [hbytes]; omega) rfl
        rwa [hbytes] at hends
      · exact ⟨.none (not_not.mp hne) rfl, fun _ _ => rfl⟩
  | cons chunk source ih =>
    intro r buffer readOffset
    rw [findLine.eq_def]
    cases hfind : findEol r.mEncoding (buffer.drop readOffset) with
    | some n =>
      refine ⟨.line rfl (reaches_of_findEol hfind _) (findEol_append_of_eq_some hfind _) hfind
        (List.prefix_append _ _), fun _ hnil => absurd hnil (List.cons_ne_nil _ _)⟩
    | none =>
      dsimp only
      refine ⟨?_, fun _ hnil => absurd hnil (List.cons_ne_nil _ _)⟩
      split_ifs with hlong
      · refine .long rfl fun h => ?_
        have hlt := h [] (List.nil_prefix)
          (by rw [bytesOf, List.flatMap_nil, List.append_nil, hfind])
        rw [bytesOf, List.flatMap_nil, List.append_nil] at hlt
        omega
      · exact .cons (not_le.mp hlong)
          (ih { r with mLastLineLen := 0 } (buffer.drop readOffset ++ chunk.bytes) 0).1

/-- No read is put back. -/
theorem length_source_findLine_le (s : Memory) (source : List Chunk) :
    ∀ (r : Reader) (buffer : List UInt8) (readOffset : ℕ),
      (findLine r s buffer readOffset source).2.mDataSource.length ≤ source.length := by
  induction source with
  | nil =>
    intro r buffer readOffset
    rw [findLine.eq_def]
    dsimp only
    split
    · exact le_rfl
    · split_ifs <;> exact le_rfl
  | cons chunk source ih =>
    intro r buffer readOffset
    rw [findLine.eq_def]
    dsimp only
    split
    · exact le_rfl
    · split_ifs
      · exact le_rfl
      · exact (ih _ _ _).trans (Nat.le_succ _)

/-- `getLine` reads no line, whatever is to come. -/
def Closed (r : Reader) : Prop :=
  r.mEncoding = .AML_ENCODING_UTF32 ∨ r.mEncoding = .AML_ENCODING_UTF32BE ∨ r.mBuffer = some []

instance (r : Reader) : Decidable (Closed r) := inferInstanceAs (Decidable (_ ∨ _ ∨ _))

theorem getLine_of_closed {r : Reader} (h : Closed r) (s : Memory) : getLine r s = (none, r) := by
  unfold getLine
  rcases h with h | h | h
  · rw [if_pos (.inl h)]
  · rw [if_pos (.inr h)]
  · rw [h]
    exact ite_self _

/-- **A call of `getLine`**, unless it reads no line. -/
theorem getLine_cases {r : Reader} (h : ¬ Closed r) (s : Memory) :
    Ends r.mEncoding s (remaining r) r.mDataSource (getLine r s) ∧
      (remaining r = [] → r.mDataSource = [] → (getLine r s).2 =
        if r.mBuffer = none then
          { r with mBuffer := some [], mBufferReadOffset := 0, mLastLineLen := 0 }
        else r) := by
  obtain ⟨mEncoding, mBuffer, mBufferReadOffset, mLastLineLen, mDataSource⟩ := r
  simp only [Closed, not_or] at h
  rw [getLine, if_neg (not_or.mpr ⟨h.1, h.2.1⟩)]
  cases mBuffer with
  | none =>
    have hremaining :
        remaining ⟨mEncoding, none, mBufferReadOffset, mLastLineLen, mDataSource⟩ = [] :=
      List.drop_nil
    rw [hremaining]
    cases mDataSource with
    | nil => exact ⟨.none rfl rfl, fun _ _ => rfl⟩
    | cons chunk source =>
      refine ⟨?_, fun _ hnil => absurd hnil (List.cons_ne_nil _ _)⟩
      exact .cons (by decide) (findLine_cases s source
        ⟨mEncoding, none, mBufferReadOffset, 0, chunk :: source⟩ chunk.bytes 0).1
  | some buffer =>
    cases buffer with
    | nil => exact absurd rfl h.2.2
    | cons c buffer =>
      have hcases := findLine_cases s mDataSource
        ⟨mEncoding, some (c :: buffer), mBufferReadOffset, mLastLineLen, mDataSource⟩ (c :: buffer)
        mBufferReadOffset
      refine ⟨hcases.1, fun hnil hsource => ?_⟩
      dsimp only at hsource
      subst hsource
      exact hcases.2 hnil rfl

/-! ## What is written -/

/-- What a call writes is in the caller's buffer of `LINE_LEN + 1` bytes. -/
def InBounds (s : Memory) (result : Option Memory) : Prop :=
  ∀ m ∈ result, m.bytes.length = LINE_LEN + 1 ∧ m.before = s.before

instance (s : Memory) : ∀ result, Decidable (InBounds s result)
  | none => isTrue nofun
  | some m => decidable_of_iff (m.bytes.length = LINE_LEN + 1 ∧ m.before = s.before)
      ⟨fun h _ hm => Option.some.inj hm ▸ h, fun h => h m rfl⟩

/-- What `convertToUtf8` puts in the place of a line. -/
def converted (mEncoding : Encoding) (line : List UInt8) : List UInt8 :=
  match mEncoding with
  | .AML_ENCODING_NONE | .AML_ENCODING_UTF8 => []
  | _ => (encodeUnits mEncoding (unitsOf line) (line.length * 2)).getD []

/-- A line has room in the caller's buffer, as it stands in the file and as it is converted, and no
carriage return is taken for the end of an empty line. -/
structure LineFits (mEncoding : Encoding) (s : Memory) (line : List UInt8) : Prop where
  length_le : line.length ≤ LINE_LEN
  converted_le : (converted mEncoding line).length ≤ LINE_LEN
  before : line = [] → s.before ≠ 13

/-- If the next line is found, it fits. -/
def Fits (r : Reader) (s : Memory) : Prop :=
  ¬ Closed r → Reaches r.mEncoding (remaining r) r.mDataSource →
    ∀ n, findEol r.mEncoding (remaining r ++ bytesOf r.mDataSource) = some n →
      LineFits r.mEncoding s ((remaining r ++ bytesOf r.mDataSource).take n)

section Written

variable {mEncoding : Encoding} {s : Memory} {line : List UInt8}

theorem length_copy (s : Memory) (bytes : List UInt8) :
    (s.copy bytes).bytes.length = max s.bytes.length bytes.length := by
  rw [Memory.copy]
  dsimp only
  rw [List.length_append, List.length_drop]
  omega

theorem convertToUtf8_of_wide {charset : Encoding}
    (h : ¬ (charset = .AML_ENCODING_UTF8 ∨ charset = .AML_ENCODING_NONE)) (s : Memory) (n : ℕ) :
    convertToUtf8 charset s n =
      if (encodeUnits charset (unitsOf (s.bytes.take n)) (n * 2)).getD [] = [] then s
      else s.copy ((encodeUnits charset (unitsOf (s.bytes.take n)) (n * 2)).getD [] ++ [0]) := by
  rw [convertToUtf8, if_neg h]
  rcases encodeUnits charset (unitsOf (s.bytes.take n)) (n * 2) with _ | _ | ⟨c, out⟩ <;> rfl

theorem convertToUtf8_eq_ite (hline : line = s.bytes.take line.length) :
    convertToUtf8 mEncoding s line.length =
      if converted mEncoding line = [] then s else s.copy (converted mEncoding line ++ [0]) := by
  cases mEncoding with
  | AML_ENCODING_NONE => rfl
  | AML_ENCODING_UTF8 => rfl
  | AML_ENCODING_UTF16 =>
    rw [convertToUtf8_of_wide (by decide), ← hline]
    rfl
  | AML_ENCODING_UTF16BE =>
    rw [convertToUtf8_of_wide (by decide), ← hline]
    rfl
  | AML_ENCODING_UTF32 =>
    rw [convertToUtf8_of_wide (by decide), ← hline]
    rfl
  | AML_ENCODING_UTF32BE =>
    rw [convertToUtf8_of_wide (by decide), ← hline]
    rfl

theorem terminate_bytes_length (s : Memory) (n : ℕ) :
    (terminate s n).bytes.length = s.bytes.length := by
  unfold terminate
  cases n with
  | zero => exact List.length_set
  | succ n =>
    dsimp only
    split_ifs
    · rw [List.length_set, List.length_set]
    · exact List.length_set

theorem terminate_before_iff (s : Memory) (n : ℕ) :
    (terminate s n).before = s.before ↔ (n = 0 → s.before ≠ 13) := by
  unfold terminate
  cases n with
  | zero =>
    dsimp only
    split_ifs with hcr
    · rw [hcr]
      decide
    · exact iff_of_true rfl fun _ => hcr
  | succ n => exact iff_of_true rfl fun h => absurd h (Nat.succ_ne_zero n)

/-- A line that is given to the caller. -/
theorem inBounds_returnLine_iff {r : Reader} {buffer : List UInt8} {readOffset : ℕ}
    (hs : s.bytes.length = LINE_LEN + 1)
    (hline : (buffer.drop readOffset).take line.length = line)
    (hlen : line.length < (buffer.drop readOffset).length) :
    InBounds s (returnLine r s buffer readOffset line.length).1 ↔
      LineFits r.mEncoding s line := by
  have htake : ((buffer.drop readOffset).take (line.length + 1)).length = line.length + 1 :=
    List.length_take_of_le hlen
  have hcopy := length_copy s ((buffer.drop readOffset).take (line.length + 1))
  obtain ⟨copied, hcopied⟩ : ∃ copied,
    s.copy ((buffer.drop readOffset).take (line.length + 1)) = copied := ⟨_, rfl⟩
  have hbefore : copied.before = s.before := by rw [← hcopied, Memory.copy]
  have hfront : line = copied.bytes.take line.length := by
    rw [← hcopied, Memory.copy]
    dsimp only
    rw [List.take_append_of_le_length (by omega), List.take_take, min_eq_left (Nat.le_succ _),
      hline]
  have hconvert :
      (if 0 < line.length then convertToUtf8 r.mEncoding copied line.length else copied) =
      if converted r.mEncoding line = [] then copied
      else copied.copy (converted r.mEncoding line ++ [0]) := by
    rw [← convertToUtf8_eq_ite hfront, ite_eq_left_iff]
    intro hempty
    rw [convertToUtf8_eq_ite hfront]
    obtain rfl : line = [] := List.length_eq_zero_iff.mp (by omega)
    rw [if_pos]
    unfold converted
    cases r.mEncoding <;> rfl
  rw [hcopied, htake, hs] at hcopy
  have hresult : (returnLine r s buffer readOffset line.length).1 =
      some (terminate (if converted r.mEncoding line = [] then copied
        else copied.copy (converted r.mEncoding line ++ [0])) line.length) := by
    rw [returnLine]
    dsimp only
    rw [hcopied, hconvert]
  have hnil : line.length = 0 ↔ line = [] := List.length_eq_zero_iff
  have hlength : (if converted r.mEncoding line = [] then copied
      else copied.copy (converted r.mEncoding line ++ [0])).bytes.length = LINE_LEN + 1 ↔
        line.length ≤ LINE_LEN ∧ (converted r.mEncoding line).length ≤ LINE_LEN := by
    split_ifs with hconverted
    · rw [hconverted, hcopy, List.length_nil]
      omega
    · rw [length_copy, hcopy, List.length_append, List.length_singleton]
      omega
  have hsame : (if converted r.mEncoding line = [] then copied
      else copied.copy (converted r.mEncoding line ++ [0])).before = s.before := by
    split_ifs
    · exact hbefore
    · exact hbefore
  have hkeep := terminate_before_iff (if converted r.mEncoding line = [] then copied
    else copied.copy (converted r.mEncoding line ++ [0])) line.length
  rw [hsame, hnil] at hkeep
  rw [InBounds, hresult]
  constructor
  · intro h
    obtain ⟨hbytes, hsame'⟩ := h _ rfl
    rw [terminate_bytes_length, hlength] at hbytes
    exact ⟨hbytes.1, hbytes.2, hkeep.mp hsame'⟩
  · rintro ⟨hle, hconverted, hempty⟩ m hm
    obtain rfl := Option.some.inj hm
    rw [terminate_bytes_length, hlength]
    exact ⟨⟨hle, hconverted⟩, hkeep.mpr hempty⟩

/-- **What a call writes** is in the caller's buffer exactly if the line it finds fits. -/
theorem inBounds_iff (r : Reader) (hs : s.bytes.length = LINE_LEN + 1) :
    InBounds s (getLine r s).1 ↔ Fits r s := by
  by_cases hclosed : Closed r
  · rw [getLine_of_closed hclosed]
    exact iff_of_true nofun fun h => absurd hclosed h
  rw [Fits, imp_iff_right hclosed]
  have hends := (getLine_cases hclosed s).1
  revert hends
  generalize getLine r s = result
  rintro (⟨hmEncoding, hreaches, hfind, hbuffer, hahead⟩ | ⟨hmEncoding, hreaches⟩ |
    ⟨hmEncoding, hfind, hne, hlen, hsource⟩ | ⟨hnil, hsource⟩)
  case line r' buffer readOffset n =>
    have hlt := length_lt_of_findEol hbuffer
    obtain ⟨rest, hrest⟩ := hahead
    have hline :
        (remaining r ++ bytesOf r.mDataSource).take n = (buffer.drop readOffset).take n := by
      rw [← hrest, List.take_append_of_le_length hlt.le]
    have hlength : ((buffer.drop readOffset).take n).length = n := List.length_take_of_le hlt.le
    have hiff := @inBounds_returnLine_iff s ((buffer.drop readOffset).take n) r' buffer readOffset
      hs (by rw [hlength]) (by rwa [hlength])
    rw [hlength, hmEncoding] at hiff
    rw [hiff, ← hline]
    constructor
    · intro hfits _ m hm
      rwa [Option.some.inj (hm.symm.trans hfind)]
    · exact fun h => h hreaches n hfind
  case long => exact iff_of_true nofun fun h => absurd h hreaches
  case last r' =>
    refine iff_of_true (fun m hm => ?_) fun _ n hn => ?_
    · obtain rfl := Option.some.inj hm
      rw [length_copy, hs]
      exact ⟨by omega, rfl⟩
    · exact absurd (hn.symm.trans hfind) (Option.some_ne_none n)
  case none =>
    refine iff_of_true nofun fun _ n hn => ?_
    rw [hnil, hsource] at hn
    exact absurd hn.symm (Option.some_ne_none n)

end Written

/-! ## Runs -/

/-- `backtoLastLine`. -/
def backtoLastLine (r : Reader) : Reader :=
  { r with
    mBufferReadOffset := if r.mBufferReadOffset > r.mLastLineLen then
        r.mBufferReadOffset - r.mLastLineLen
      else 0 }

/-- `rewindStream`: the source gives `source` from the beginning of the file on.  `lseek` returns
that offset, which is not above zero, and the buffer stays as it is. -/
def rewindStream (r : Reader) (source : List Chunk) : Reader := { r with mDataSource := source }

/-- `char line[LINE_LEN + 1]`. -/
structure LineBuffer extends Memory where
  length_eq : bytes.length = LINE_LEN + 1

/-- A call. -/
inductive Call where
  | getLine (s : LineBuffer)
  | backtoLastLine
  | rewindStream (source : List Chunk)

/-- A call that writes in bounds. -/
def callStep (r : Reader) : Call → Option Reader
  | .getLine s => if InBounds s.toMemory (getLine r s.toMemory).1 then
      some (getLine r s.toMemory).2 else none
  | .backtoLastLine => some (backtoLastLine r)
  | .rewindStream source => some (rewindStream r source)

/-- The line that a call finds, if there is one, fits. -/
def CallFits (r : Reader) : Call → Prop
  | .getLine s => Fits r s.toMemory
  | .backtoLastLine => True
  | .rewindStream _ => True

/-- **Runs of the reader.**  The calls write in the callers' buffers exactly if each line that is
found fits in the one it is for. -/
theorem callsInBounds_iff (header : List UInt8) (source : List Chunk) (calls : List Call) :
    (Lockstep.run callStep (create header source) calls).isSome ↔
      Lockstep.Meets callStep CallFits (create header source) calls := by
  refine Lockstep.isSome_run_iff (I := fun _ => True) (fun r call _ => ⟨?_, fun _ _ => trivial⟩)
    trivial calls
  cases call with
  | getLine s =>
    rw [callStep, CallFits, ← inBounds_iff r s.length_eq]
    split_ifs with h
    · exact iff_of_true rfl h
    · exact iff_of_false Bool.false_ne_true h
  | backtoLastLine => exact iff_of_true rfl trivial
  | rewindStream source => exact iff_of_true rfl trivial

/-- A line of 2049 bytes, of which the first read has 2047. -/
def longSource : List Chunk :=
  [⟨List.replicate 2047 65, List.cons_ne_nil _ _, by rw [List.length_replicate]; decide⟩,
    ⟨[65, 65, 10], by decide, by decide⟩]

/-- The line has no room for its end in the caller's buffer. -/
theorem not_callsInBounds_long : ¬ ∀ (header : List UInt8) (source : List Chunk)
    (calls : List Call), (Lockstep.run callStep (create header source) calls).isSome := by
  intro h
  obtain ⟨hfits, -⟩ :=
    (callsInBounds_iff [] longSource [.getLine ⟨filled, length_filled⟩]).mp (h _ _ _)
  have hbytes : ([] ++ List.replicate 2047 65) ++ [65, 65, 10] =
      List.replicate 2049 (65 : UInt8) ++ 10 :: [] := by
    rw [List.nil_append, show 2049 = 2047 + 2 from rfl, ← List.replicate_append_replicate,
      List.append_assoc]
    rfl
  have hfind : findEol .AML_ENCODING_NONE (([] ++ List.replicate 2047 65) ++ [65, 65, 10]) =
      some 2049 := by
    have hchar : ∀ c ∈ List.replicate 2049 (65 : UInt8), ¬ IsEol c := by
      intro c hc
      rw [List.eq_of_mem_replicate hc]
      unfold IsEol
      decide
    rw [hbytes, findEol_append (.inl rfl) hchar (.inl rfl), List.length_replicate]
  have hreaches : Reaches .AML_ENCODING_NONE [] longSource := by
    refine (reaches_cons (by decide)).mpr ((reaches_cons ?_).mpr (reaches_of_findEol hfind _))
    rw [List.nil_append, List.length_replicate]
    decide
  have hsource : [] ++ bytesOf longSource = ([] ++ List.replicate 2047 65) ++ [65, 65, 10] := by
    rw [longSource, bytesOf_cons, bytesOf_cons, bytesOf, List.flatMap_nil, List.append_nil,
      List.append_assoc]
  have hline := hfits (by decide) hreaches 2049 (hsource ▸ hfind)
  have hlen := hline.length_le
  rw [List.length_take_of_le] at hlen
  · exact absurd hlen (by decide)
  · exact (length_lt_of_findEol (hsource ▸ hfind)).le

/-! ## Lines that are put back -/

/-- A line that is put back is read again, and the reader is then as after the first call. -/
def PushBack (r : Reader) : Prop :=
  ∀ s s' : LineBuffer,
    let first := getLine r s.toMemory
    let again := getLine (backtoLastLine first.2) s'.toMemory
    again.1.map Memory.string = first.1.map Memory.string ∧ again.2 = first.2

/-- The end of a line is found, or there is nothing to read and nothing to put back. -/
def CanGoBack (r : Reader) : Prop :=
  if Closed r then r.mLastLineLen = 0 ∨ r.mBufferReadOffset = 0
  else if remaining r ++ bytesOf r.mDataSource = [] then
    r.mBuffer = none ∨ r.mLastLineLen = 0 ∨ r.mBufferReadOffset = 0
  else
    Reaches r.mEncoding (remaining r) r.mDataSource ∧
      (findEol r.mEncoding (remaining r ++ bytesOf r.mDataSource)).isSome

section PushBack

variable {r : Reader}

theorem backtoLastLine_eq_iff :
    backtoLastLine r = r ↔ r.mLastLineLen = 0 ∨ r.mBufferReadOffset = 0 := by
  have hoffset : backtoLastLine r = r ↔
      (if r.mBufferReadOffset > r.mLastLineLen then r.mBufferReadOffset - r.mLastLineLen else 0) =
        r.mBufferReadOffset := by
    obtain ⟨mEncoding, mBuffer, mBufferReadOffset, mLastLineLen, mDataSource⟩ := r
    simp only [backtoLastLine, Reader.mk.injEq, true_and, and_true]
  rw [hoffset]
  split_ifs with hmore
  · omega
  · omega

/-- The bytes of the two buffers agree up to `k`. -/
def AgreeTo (k : ℕ) (s s' : Memory) : Prop := s.bytes.take k = s'.bytes.take k

theorem AgreeTo.copy {k : ℕ} {s s' : Memory} (h : AgreeTo k s s') (bytes : List UInt8) :
    AgreeTo k (s.copy bytes) (s'.copy bytes) := by
  unfold AgreeTo at h ⊢
  unfold Memory.copy
  dsimp only
  rw [List.take_append, List.take_append, ← List.drop_take, ← List.drop_take, h]

theorem AgreeTo.convertToUtf8 {k n : ℕ} {s s' : Memory} (h : AgreeTo k s s') (hn : n ≤ k)
    (charset : Encoding) : AgreeTo k (convertToUtf8 charset s n) (convertToUtf8 charset s' n) := by
  have hline : s.bytes.take n = s'.bytes.take n := by
    have htake := congrArg (List.take n) h
    rwa [List.take_take, List.take_take, min_eq_left hn] at htake
  unfold ExtSubStreamReader.convertToUtf8
  rw [hline]
  split_ifs
  · exact h
  · split
    · exact h
    · exact h
    · exact h.copy _

theorem takeWhile_take {l : List UInt8} {n : ℕ} (h : l[n]? = some 0) :
    (l.take (n + 1)).takeWhile (· ≠ 0) = l.takeWhile (· ≠ 0) := by
  induction l generalizing n with
  | nil => rfl
  | cons c l ih =>
    cases n with
    | zero =>
      obtain rfl : c = 0 := Option.some.inj h
      rfl
    | succ n => rw [List.take_succ_cons, List.takeWhile_cons, List.takeWhile_cons, ih h]

/-- A line is the string in front of its end, and the rest of the buffer makes no difference. -/
theorem AgreeTo.string_terminate {n : ℕ} {s s' : Memory} (h : AgreeTo (n + 1) s s')
    (hs : n < s.bytes.length) (hs' : n < s'.bytes.length) :
    (terminate s n).string = (terminate s' n).string := by
  have hset : (s.bytes.set n 0).take (n + 1) = (s'.bytes.set n 0).take (n + 1) := by
    rw [List.take_set, List.take_set, h]
  have hnull : ∀ {l : List UInt8}, n < l.length → (l.set n 0)[n]? = some 0 := fun hl =>
    List.getElem?_set_self hl
  have hnull' : ∀ {l : List UInt8} {m : ℕ}, m < n → n < l.length →
      ((l.set n 0).set m 0)[n]? = some 0 := by
    intro l m hm hl
    rw [List.getElem?_set_ne hm.ne, hnull hl]
  cases n with
  | zero =>
    change (s.bytes.set 0 0).takeWhile _ = (s'.bytes.set 0 0).takeWhile _
    rw [← takeWhile_take (hnull hs), hset, takeWhile_take (hnull hs')]
  | succ n =>
    have hlast : (s.bytes.set (n + 1) 0)[n]? = (s'.bytes.set (n + 1) 0)[n]? := by
      have hget : ((s.bytes.set (n + 1) 0).take (n + 1 + 1))[n]? =
          ((s'.bytes.set (n + 1) 0).take (n + 1 + 1))[n]? := by rw [hset]
      rwa [List.getElem?_take_of_lt (by omega), List.getElem?_take_of_lt (by omega)] at hget
    unfold terminate Memory.string
    dsimp only
    rw [hlast]
    split_ifs
    · have hcr : ((s.bytes.set (n + 1) 0).set n 0).take (n + 1 + 1) =
          ((s'.bytes.set (n + 1) 0).set n 0).take (n + 1 + 1) := by
        rw [List.take_set, hset, ← List.take_set]
      rw [← takeWhile_take (hnull' (Nat.lt_succ_self n) hs), hcr,
        takeWhile_take (hnull' (Nat.lt_succ_self n) hs')]
    · rw [← takeWhile_take (hnull hs), hset, takeWhile_take (hnull hs')]

/-- The line that is returned, and the reader that it leaves. -/
theorem returnLine_congr {r r' : Reader} {buffer : List UInt8} {readOffset n : ℕ}
    (hlen : n < (buffer.drop readOffset).length) (hmEncoding : r'.mEncoding = r.mEncoding)
    (hsource : r'.mDataSource = r.mDataSource) (s s' : Memory) :
    (returnLine r' s' buffer readOffset n).1.map Memory.string =
        (returnLine r s buffer readOffset n).1.map Memory.string ∧
      (returnLine r' s' buffer readOffset n).2 = (returnLine r s buffer readOffset n).2 := by
  have htake : ((buffer.drop readOffset).take (n + 1)).length = n + 1 :=
    List.length_take_of_le hlen
  have hcopy : AgreeTo (n + 1) (s'.copy ((buffer.drop readOffset).take (n + 1)))
      (s.copy ((buffer.drop readOffset).take (n + 1))) := by
    unfold AgreeTo Memory.copy
    dsimp only
    rw [List.take_append_of_le_length htake.ge, List.take_append_of_le_length htake.ge]
  have hlong : ∀ s : Memory, n < (s.copy ((buffer.drop readOffset).take (n + 1))).bytes.length := by
    intro s
    rw [length_copy, htake]
    omega
  have hconverted : ∀ s : Memory, n < s.bytes.length →
      n < (convertToUtf8 r.mEncoding s n).bytes.length := by
    intro s hs
    unfold convertToUtf8
    split_ifs
    · exact hs
    · split
      · exact hs
      · exact hs
      · rw [length_copy]
        omega
  obtain ⟨mEncoding, mBuffer, mBufferReadOffset, mLastLineLen, mDataSource⟩ := r
  obtain ⟨mEncoding', mBuffer', mBufferReadOffset', mLastLineLen', mDataSource'⟩ := r'
  dsimp only at hmEncoding hsource hconverted
  subst hmEncoding hsource
  rw [returnLine, returnLine]
  dsimp only
  refine ⟨congrArg some ?_, rfl⟩
  split_ifs
  · exact (hcopy.convertToUtf8 (Nat.le_succ n) _).string_terminate (hconverted _ (hlong s'))
      (hconverted _ (hlong s))
  · exact hcopy.string_terminate (hlong s') (hlong s)

theorem backtoLastLine_returnLine {buffer : List UInt8} {readOffset n : ℕ} (s : Memory) :
    backtoLastLine (returnLine r s buffer readOffset n).2 =
      ⟨r.mEncoding, some buffer, readOffset, n + lineBreakTagLen r.mEncoding, r.mDataSource⟩ := by
  have hoffset : ∀ len, (if readOffset + n + len > n + len then readOffset + n + len - (n + len)
      else 0) = readOffset := by
    intro len
    split_ifs
    · omega
    · omega
  unfold backtoLastLine returnLine
  dsimp only
  rw [hoffset]

/-- A line that is found is found again. -/
theorem getLine_backtoLastLine {buffer : List UInt8} {readOffset n : ℕ}
    (hfind : findEol r.mEncoding (buffer.drop readOffset) = some n) (s s' : Memory) :
    let first := returnLine r s buffer readOffset n
    let again := getLine (backtoLastLine first.2) s'
    again.1.map Memory.string = first.1.map Memory.string ∧ again.2 = first.2 := by
  have hcharset : ¬ (r.mEncoding = .AML_ENCODING_UTF32 ∨ r.mEncoding = .AML_ENCODING_UTF32BE) := by
    have hnone : ∀ charset : Encoding, (∀ data, foundEol charset data = false) →
        ∀ data, findEol charset data = none := by
      intro charset hfound data
      induction data with
      | nil => rfl
      | cons c data ih =>
        rw [findEol, hfound, if_neg Bool.false_ne_true, ih]
        rfl
    rintro (h | h)
    · rw [h, hnone _ fun _ => rfl] at hfind
      exact absurd hfind.symm (Option.some_ne_none n)
    · rw [h, hnone _ fun _ => rfl] at hfind
      exact absurd hfind.symm (Option.some_ne_none n)
  obtain ⟨c, rest, rfl⟩ : ∃ c rest, buffer = c :: rest := by
    refine List.exists_cons_of_ne_nil fun hnil => ?_
    rw [hnil, List.drop_nil] at hfind
    exact absurd hfind.symm (Option.some_ne_none n)
  dsimp only
  have hagain : getLine (backtoLastLine (returnLine r s (c :: rest) readOffset n).2) s' =
      returnLine ⟨r.mEncoding, some (c :: rest), readOffset, n + lineBreakTagLen r.mEncoding,
        r.mDataSource⟩ s' (c :: rest) readOffset n := by
    rw [backtoLastLine_returnLine, getLine, if_neg hcharset]
    dsimp only
    rw [findLine.eq_def, hfind]
  rw [hagain]
  exact returnLine_congr (length_lt_of_findEol hfind) rfl rfl s s'

theorem reaches_nil {mEncoding : Encoding} {data : List UInt8} (hlen : data.length < LINE_LEN) :
    Reaches mEncoding data [] := by
  intro before hbefore _
  rw [List.prefix_nil.mp hbefore, bytesOf, List.flatMap_nil, List.append_nil]
  exact hlen

/-- At the end of the file. -/
theorem getLine_of_nil (hclosed : ¬ Closed r) (hremaining : remaining r = [])
    (hsource : r.mDataSource = []) (s : Memory) :
    getLine r s = (none, if r.mBuffer = none then
      { r with mBuffer := some [], mBufferReadOffset := 0, mLastLineLen := 0 } else r) := by
  obtain ⟨hends, hleft⟩ := getLine_cases hclosed s
  have hnone : (getLine r s).1 = none := by
    rw [hremaining, hsource] at hends
    revert hends
    generalize getLine r s = result
    rintro (⟨-, -, hfind, -, -⟩ | ⟨-, hreaches⟩ | ⟨-, -, hne, -, -⟩ | -)
    · exact absurd hfind.symm (Option.some_ne_none _)
    · exact absurd (reaches_nil (by decide)) hreaches
    · exact absurd rfl hne
    · rfl
  rw [← hleft hremaining hsource, ← hnone]

/-- A reader that has freed its buffer does not go back to that state. -/
theorem getLine_freeBuffer_ne (r : Reader) (hclosed : ¬ Closed (freeBuffer r)) (s : Memory) :
    (getLine (freeBuffer r) s).2 ≠ freeBuffer r := by
  intro h
  cases hsource : r.mDataSource with
  | nil =>
    have hnil := getLine_of_nil hclosed (List.drop_nil) hsource s
    rw [if_pos (by rfl)] at hnil
    rw [hnil] at h
    have hbuffer := congrArg Reader.mBuffer h
    exact absurd hbuffer (Option.some_ne_none _)
  | cons chunk source =>
    simp only [Closed, not_or] at hclosed
    have hle := length_source_findLine_le s source
      ⟨r.mEncoding, none, 0, 0, chunk :: source⟩ chunk.bytes 0
    have hget : getLine (freeBuffer r) s =
        findLine ⟨r.mEncoding, none, 0, 0, chunk :: source⟩ s chunk.bytes 0 source := by
      rw [getLine, if_neg (not_or.mpr ⟨hclosed.1, hclosed.2.1⟩)]
      unfold freeBuffer
      dsimp only
      rw [hsource]
    rw [← hget, h] at hle
    have hlength : (freeBuffer r).mDataSource.length = source.length + 1 :=
      congrArg List.length hsource
    omega

/-- **Push-back.**  A line can be put back if its end was found, and otherwise only where moving
back does nothing. -/
theorem pushBack_iff (r : Reader) : PushBack r ↔ CanGoBack r := by
  have hline : LineBuffer := ⟨filled, length_filled⟩
  by_cases hclosed : Closed r
  · have hback : Closed (backtoLastLine r) := hclosed
    rw [CanGoBack, if_pos hclosed, ← backtoLastLine_eq_iff]
    unfold PushBack
    simp only [getLine_of_closed hclosed, getLine_of_closed hback, true_and]
    exact ⟨fun h => h hline hline, fun h _ _ => h⟩
  by_cases hnil : remaining r ++ bytesOf r.mDataSource = []
  · obtain ⟨hremaining, hbytes⟩ := List.append_eq_nil_iff.mp hnil
    have hsource := bytesOf_eq_nil.mp hbytes
    have hfirst := getLine_of_nil hclosed hremaining hsource
    rw [CanGoBack, if_neg hclosed, if_pos hnil]
    unfold PushBack
    simp only [hfirst]
    by_cases hbuffer : r.mBuffer = none
    · -- the end of the file is seen once more
      have hagain : ∀ s, getLine (backtoLastLine
          { r with mBuffer := some [], mBufferReadOffset := 0, mLastLineLen := 0 }) s =
          (none, { r with mBuffer := some [], mBufferReadOffset := 0, mLastLineLen := 0 }) :=
        fun s => getLine_of_closed (.inr (.inr rfl)) s
      simp only [if_pos hbuffer, hagain]
      exact iff_of_true (fun _ _ => ⟨trivial, trivial⟩) (.inl hbuffer)
    · simp only [if_neg hbuffer]
      rw [or_iff_right hbuffer, ← backtoLastLine_eq_iff]
      constructor
      · intro h
        obtain ⟨hstring, hstate⟩ := h hline hline
        have hback : ¬ Closed (backtoLastLine r) := hclosed
        obtain ⟨hends, hleft⟩ := getLine_cases hback hline.toMemory
        generalize getLine (backtoLastLine r) hline.toMemory = result at hstring hstate hends hleft
        rcases hends with ⟨-, -, -, -, -⟩ | ⟨-, -⟩ | ⟨-, -, -, -, -⟩ | ⟨hdata, -⟩
        · exact absurd hstring (Option.some_ne_none _)
        · exact absurd (congrArg Reader.mBuffer hstate).symm hbuffer
        · exact absurd hstring (Option.some_ne_none _)
        · have hsame := hleft hdata hsource
          rw [if_neg (show ¬ (backtoLastLine r).mBuffer = none from hbuffer)] at hsame
          exact hsame.symm.trans hstate
      · intro h s s'
        rw [h, hfirst, if_neg hbuffer]
        exact ⟨rfl, rfl⟩
  · rw [CanGoBack, if_neg hclosed, if_neg hnil]
    constructor
    · intro h
      have hpush := h hline hline
      have hends := (getLine_cases hclosed hline.toMemory).1
      dsimp only at hpush
      generalize getLine r hline.toMemory = first at hpush hends
      have hfree : ∀ {r' : Reader}, r'.mEncoding = r.mEncoding → ¬ Closed (freeBuffer r') := by
        intro r' hmEncoding
        simp only [Closed, not_or] at hclosed ⊢
        exact ⟨hmEncoding ▸ hclosed.1, hmEncoding ▸ hclosed.2.1, (Option.some_ne_none _).symm⟩
      rcases hends with ⟨-, hreaches, hfind, -, -⟩ | ⟨hmEncoding, -⟩ |
        ⟨hmEncoding, -, -, -, -⟩ | ⟨hdata, hsource⟩
      case line => exact ⟨hreaches, Option.isSome_iff_exists.mpr ⟨_, hfind⟩⟩
      case long r' => exact absurd hpush.2 (getLine_freeBuffer_ne r' (hfree hmEncoding) _)
      case last r' => exact absurd hpush.2 (getLine_freeBuffer_ne r' (hfree hmEncoding) _)
      case none =>
        rw [hdata, hsource] at hnil
        exact absurd rfl hnil
    · rintro ⟨hreaches, hsome⟩ s s'
      obtain ⟨n, hfind⟩ := Option.isSome_iff_exists.mp hsome
      have hends := (getLine_cases hclosed s.toMemory).1
      dsimp only
      generalize getLine r s.toMemory = first at hends
      rcases hends with ⟨hmEncoding, -, -, hbuffer, -⟩ | ⟨-, hnot⟩ | ⟨-, hnone, -, -, -⟩ |
        ⟨hdata, hsource⟩
      case line => exact getLine_backtoLastLine (hmEncoding ▸ hbuffer) _ _
      case long => exact absurd hreaches hnot
      case last => exact absurd (hfind.symm.trans hnone) (Option.some_ne_none n)
      case none =>
        rw [hdata, hsource] at hnil
        exact absurd rfl hnil

end PushBack

/-- A last line with no newline can not be put back: the buffer is freed when it is read. -/
theorem not_pushBack_unterminated : ¬ ∀ r : Reader, PushBack r := by
  intro h
  have hpush := h (create [] [⟨[0x4F, 0x4B], by decide, by decide⟩])
    ⟨filled, length_filled⟩ ⟨filled, length_filled⟩
  exact absurd hpush.1.symm (Option.some_ne_none _)

end ExtSubStreamReader
end AmlSubtitle
