import Mathlib.Data.List.DropRight
import AmlSubtitle.Parser.ExtSubLines

/-!
# `parser/ExtParser/TextSubtitle.cpp`: decoding a subtitle file

`decodeSubtitles` asks the decoder of the format for items until there is none, and
finishes their lines and times.

* The decoders read lines into a buffer on their stack; `isEmptyLine` looks at such a
  line, and cuts the blanks at its end off in the buffer.
* A line that `getLine` gives takes at least one byte of the file (`length_toRead_lt`), so
  that the loops over lines end: they have the bytes that are left as their fuel.
-/

namespace AmlSubtitle
namespace ExtSubStreamReader

/-! ## Empty lines -/

/-- The characters of `"\t "`. -/
def isBlank (c : UInt8) : Bool := c = 9 || c = 32

/-- `trim` with `"\t "`: the blanks at the end of the line become nulls. -/
def trim (line : Memory) : Memory :=
  let kept := line.string.rdropWhile isBlank
  line.copy (kept ++ List.replicate (line.string.length - kept.length) 0)

/-- `triml` with `"\t "`. -/
def triml (line : List UInt8) : List UInt8 := line.dropWhile isBlank

/-- `isEmptyLine`, and the line as it leaves it. -/
def isEmptyLine (line : Memory) : Bool × Memory :=
  let line := trim line
  let p := triml line.string
  (p.isEmpty || p = [13] || p = [10], line)

/-! ## Progress -/

/-- What the reader has still to read. -/
def toRead (r : Reader) : List UInt8 := remaining r ++ bytesOf r.mDataSource

theorem length_lt_of_findEol {charset : Encoding} {data : List UInt8} {n : ℕ}
    (h : findEol charset data = some n) : n < data.length := by
  induction data generalizing n with
  | nil => exact absurd h.symm (Option.some_ne_none _)
  | cons c data ih =>
    rw [findEol] at h
    split_ifs at h
    · rw [← Option.some.inj h]
      exact Nat.succ_pos _
    · obtain ⟨m, hm, rfl⟩ := Option.map_eq_some_iff.mp h
      exact Nat.succ_lt_succ (ih hm)

theorem lineBreakTagLen_pos (charset : Encoding) : 0 < lineBreakTagLen charset := by
  rw [lineBreakTagLen]
  split_ifs <;> decide

theorem length_returnLine_lt {buffer : List UInt8} {readOffset dataLen : ℕ}
    (h : dataLen < (buffer.drop readOffset).length) (r : Reader) (s : Memory) :
    (toRead (returnLine r s buffer readOffset dataLen).2).length <
      (buffer.drop readOffset ++ bytesOf r.mDataSource).length := by
  have htag := lineBreakTagLen_pos r.mEncoding
  have hremaining : (buffer.drop (readOffset + dataLen + lineBreakTagLen r.mEncoding)).length <
      (buffer.drop readOffset).length := by
    rw [List.length_drop] at h ⊢
    rw [List.length_drop]
    omega
  rw [List.length_append]
  exact List.length_append.trans_lt (Nat.add_lt_add_right hremaining _)

/-- The loop of `getLine` takes at least one byte for a line. -/
theorem length_findLine_lt (s : Memory) (source : List Chunk) :
    ∀ (r : Reader) (buffer : List UInt8) (readOffset : ℕ) (m : Memory),
      (findLine r s buffer readOffset source).1 = some m →
      (toRead (findLine r s buffer readOffset source).2).length <
        (buffer.drop readOffset ++ bytesOf source).length := by
  induction source with
  | nil =>
    intro r buffer readOffset m h
    rw [findLine.eq_def] at h ⊢
    cases hfind : findEol r.mEncoding (buffer.drop readOffset) with
    | some dataLen =>
      exact length_returnLine_lt (length_lt_of_findEol hfind) { r with mDataSource := [] } s
    | none =>
      rw [hfind] at h
      dsimp only at h ⊢
      split_ifs at h ⊢ with hlong hne
      · rw [List.length_append]
        exact Nat.add_pos_left (List.length_pos_of_ne_nil hne) _
  | cons chunk source ih =>
    intro r buffer readOffset m h
    rw [findLine.eq_def] at h ⊢
    cases hfind : findEol r.mEncoding (buffer.drop readOffset) with
    | some dataLen =>
      exact length_returnLine_lt (length_lt_of_findEol hfind)
        { r with mDataSource := chunk :: source } s
    | none =>
      rw [hfind] at h
      dsimp only at h ⊢
      split_ifs at h ⊢ with hlong
      · have hlt := ih _ _ 0 m h
        rwa [List.drop_zero, List.append_assoc, ← bytesOf_cons] at hlt

/-- **A line that `getLine` gives takes at least one byte of what is left to read.** -/
theorem length_toRead_lt {r r' : Reader} {s m : Memory} (hget : getLine r s = (some m, r')) :
    (toRead r').length < (toRead r).length := by
  have h : (getLine r s).1 = some m := congrArg Prod.fst hget
  rw [← show (getLine r s).2 = r' from congrArg Prod.snd hget]
  clear hget
  obtain ⟨mEncoding, mBuffer, mBufferReadOffset, mLastLineLen, mDataSource⟩ := r
  rw [getLine] at h ⊢
  split_ifs at h ⊢
  · cases mBuffer with
    | none =>
      cases mDataSource with
      | nil => exact absurd h.symm (Option.some_ne_none _)
      | cons chunk source =>
        refine (length_findLine_lt s source _ _ 0 m h).trans_eq (congrArg List.length ?_)
        rw [toRead, remaining, Option.getD_none, List.drop_nil]
        exact (bytesOf_cons chunk source).symm
    | some buffer =>
      cases buffer with
      | nil => exact absurd h.symm (Option.some_ne_none _)
      | cons c buffer => exact length_findLine_lt s mDataSource _ _ _ m h

/-- No call of `getLine` has more to read afterwards. -/
theorem length_findLine_le (s : Memory) (source : List Chunk) :
    ∀ (r : Reader) (buffer : List UInt8) (readOffset : ℕ),
      (toRead (findLine r s buffer readOffset source).2).length ≤
        (buffer.drop readOffset ++ bytesOf source).length := by
  induction source with
  | nil =>
    intro r buffer readOffset
    rw [findLine.eq_def]
    cases hfind : findEol r.mEncoding (buffer.drop readOffset) with
    | some dataLen =>
      exact (length_returnLine_lt (length_lt_of_findEol hfind) { r with mDataSource := [] } s).le
    | none =>
      dsimp only
      split_ifs with hlong hne
      · exact Nat.zero_le _
      · exact Nat.zero_le _
      · exact le_rfl
  | cons chunk source ih =>
    intro r buffer readOffset
    rw [findLine.eq_def]
    cases hfind : findEol r.mEncoding (buffer.drop readOffset) with
    | some dataLen =>
      exact (length_returnLine_lt (length_lt_of_findEol hfind)
        { r with mDataSource := chunk :: source } s).le
    | none =>
      dsimp only
      split_ifs with hlong
      · rw [List.length_append]
        exact Nat.le_add_left _ _
      · have hle := ih { r with mLastLineLen := 0 } (buffer.drop readOffset ++ chunk.bytes) 0
        rwa [List.drop_zero, List.append_assoc, ← bytesOf_cons] at hle

/-- What `getLine` leaves to read is no more than there was. -/
theorem length_toRead_le (r : Reader) (s : Memory) :
    (toRead (getLine r s).2).length ≤ (toRead r).length := by
  obtain ⟨mEncoding, mBuffer, mBufferReadOffset, mLastLineLen, mDataSource⟩ := r
  rw [getLine]
  split_ifs
  · exact le_rfl
  · cases mBuffer with
    | none =>
      cases mDataSource with
      | nil => exact Nat.zero_le _
      | cons chunk source =>
        refine (length_findLine_le s source _ _ 0).trans_eq (congrArg List.length ?_)
        rw [toRead, remaining, Option.getD_none, List.drop_nil]
        exact (bytesOf_cons chunk source).symm
    | some buffer =>
      cases buffer with
      | nil => exact le_rfl
      | cons c buffer => exact length_findLine_le s mDataSource _ _ _

/-! ## Trimming -/

theorem string_of_copy {bytes kept : List UInt8} (h : 0 ∉ kept) (before : UInt8) (n : ℕ)
    (hn : Lines.string bytes = kept ∧ n = 0 ∨ n ≠ 0) :
    (Memory.copy ⟨before, bytes⟩ (kept ++ List.replicate n 0)).string = kept := by
  rcases hn with ⟨hkept, rfl⟩ | hn
  · have hprefix : kept <+: bytes := hkept ▸ List.takeWhile_prefix _
    obtain ⟨tail, rfl⟩ := hprefix
    rw [List.replicate_zero, List.append_nil, Memory.copy]
    dsimp only
    rw [List.drop_left]
    exact hkept
  · obtain ⟨m, rfl⟩ := Nat.exists_eq_succ_of_ne_zero hn
    have hcopy : (Memory.copy ⟨before, bytes⟩ (kept ++ List.replicate (m + 1) 0)).string =
        Lines.string (kept ++ 0 :: (List.replicate m 0 ++
          bytes.drop (kept ++ List.replicate (m + 1) 0).length)) := by
      rw [Memory.copy, Memory.string]
      dsimp only
      rw [List.append_assoc, List.replicate_succ]
      rfl
    rw [hcopy, Lines.string_append h]

/-- `trim` cuts the blanks at the end off. -/
theorem string_trim (line : Memory) : (trim line).string = line.string.rdropWhile isBlank := by
  have hnull : 0 ∉ line.string.rdropWhile isBlank := fun h =>
    Lines.zero_notMem_string line.bytes ((List.rdropWhile_prefix isBlank _).subset h)
  refine string_of_copy hnull line.before _ ?_
  by_cases hlen : line.string.length - (line.string.rdropWhile isBlank).length = 0
  · have hle := (List.rdropWhile_prefix isBlank line.string).length_le
    have heq := (List.rdropWhile_prefix isBlank line.string).eq_of_length (by omega)
    exact Or.inl ⟨heq.symm, hlen⟩
  · exact Or.inr hlen

/-- The text of a line that `isEmptyLine` does not take for empty. -/
structure IsKept (text : List UInt8) : Prop where
  last : text.getLast?.any isBlank = false
  not_cr : triml text ≠ [13]

theorem isKept_of_isEmptyLine {line line' : Memory} (h : isEmptyLine line = (false, line')) :
    IsKept line'.string := by
  injection h with hempty hline
  subst hline
  simp only [Bool.or_eq_false_iff, decide_eq_false_iff_not] at hempty
  refine ⟨?_, hempty.1.2⟩
  rw [string_trim]
  cases hlast : (line.string.rdropWhile isBlank).getLast? with
  | none => rfl
  | some c =>
    have hne := List.ne_nil_of_mem (List.mem_of_getLast? hlast)
    have hnot := List.rdropWhile_last_not isBlank line.string hne
    rw [List.getLast?_eq_some_getLast hne] at hlast
    rw [Option.some.inj hlast] at hnot
    exact (Bool.not_eq_true _).mp hnot

/-- A line that is kept. -/
theorem isEmptyLine_of_isKept {line : Memory} {text : List UInt8} (htext : line.string = text)
    (h : IsKept text) (hblank : ¬ ∀ c ∈ text, isBlank c = true) (h10 : 10 ∉ text) :
    isEmptyLine line = (false, trim line) ∧ (trim line).string = text := by
  have htrim : (trim line).string = text := by
    rw [string_trim, htext, List.rdropWhile_eq_self_iff]
    intro hne hlast
    have hany := h.last
    rw [List.getLast?_eq_some_getLast hne] at hany
    exact absurd hany ((Bool.not_eq_false _).mpr hlast)
  refine ⟨?_, htrim⟩
  have hnil : triml text ≠ [] := fun hh => hblank (List.dropWhile_eq_nil_iff.mp hh)
  have hlf : triml text ≠ [10] := fun hh =>
    h10 ((List.dropWhile_sublist _).subset (hh ▸ List.mem_singleton_self (10 : UInt8)))
  rw [isEmptyLine, htrim]
  have hnil' : (triml text).isEmpty = false := (Bool.not_eq_true _).mp fun hh =>
    hnil (List.isEmpty_iff.mp hh)
  rw [hnil', decide_eq_false h.not_cr, decide_eq_false hlf]
  rfl

/-- A line of blanks. -/
theorem isEmptyLine_of_blank {line : Memory} (h : ∀ c ∈ line.string, isBlank c = true) :
    isEmptyLine line = (true, trim line) := by
  have htrim : (trim line).string = [] := by
    rw [string_trim, List.rdropWhile_eq_nil_iff]
    exact h
  rw [isEmptyLine, htrim]
  rfl

end ExtSubStreamReader

namespace TextSubtitle

open ExtSubStreamReader

/-! ## Items -/

/-- `ExtSubItem`, as far as the text decoders fill it in. -/
structure ExtSubItem where
  start : ℤ
  stop : ℤ
  lines : List (List UInt8)
  deriving DecidableEq, Repr

/-- `sub_ms2pts`. -/
def sub_ms2pts (x : ℤ) : ℤ := x * 900

/-! ## Tags -/

/-- How many bytes the regular expression `<br[ ]*/>` matches at the beginning of these. -/
def brTag : List UInt8 → Option ℕ
  | 60 :: 98 :: 114 :: s =>
    match s.dropWhile (· = 32) with
    | 47 :: 62 :: _ => some (3 + (s.takeWhile (· = 32)).length + 2)
    | _ => none
  | _ => none

/-- `regex_replace`: the matches become newlines.  The first `skip` bytes are the rest of a
match. -/
def replaceTags (skip : ℕ) : List UInt8 → List UInt8
  | [] => []
  | c :: s =>
    match skip, brTag (c :: s) with
    | skip + 1, _ => replaceTags skip s
    | 0, some n => 10 :: replaceTags (n - 1) s
    | 0, none => c :: replaceTags 0 s

/-- What `decodeSubtitles` makes of a line. -/
def replaceLine (it : List UInt8) : List UInt8 :=
  (replaceTags 0 it).map fun c => if c = 124 then 10 else c

theorem brTag_eq_none {c : UInt8} (h : c ≠ 60) (s : List UInt8) : brTag (c :: s) = none := by
  rw [brTag.eq_def]
  split
  · next heq => exact absurd (List.cons.inj heq).1 h
  · rfl

/-- What is matched ends with `>`. -/
theorem getElem?_of_brTag {s : List UInt8} {n : ℕ} (h : brTag s = some n) :
    0 < n ∧ s[n - 1]? = some 62 := by
  rw [brTag.eq_def] at h
  split at h
  · next s =>
    split at h
    · next rest heq =>
      obtain rfl := Option.some.inj h
      refine ⟨Nat.succ_pos _, ?_⟩
      have hs : s = s.takeWhile (· = 32) ++ 47 :: 62 :: rest := by
        rw [← heq, List.takeWhile_append_dropWhile]
      generalize s.takeWhile (· = 32) = blanks at hs ⊢
      subst hs
      show (60 :: 98 :: 114 :: (blanks ++ 47 :: 62 :: rest))[3 + blanks.length + 1]? = some 62
      have hindex : 3 + blanks.length + 1 = blanks.length + 1 + 1 + 1 + 1 := by omega
      rw [hindex, List.getElem?_cons_succ, List.getElem?_cons_succ, List.getElem?_cons_succ,
        List.getElem?_append_right (Nat.le_succ _), Nat.succ_sub le_rfl, Nat.sub_self]
      rfl
    · exact absurd h.symm (Option.some_ne_none _)
  · exact absurd h.symm (Option.some_ne_none _)

theorem replaceTags_length (s : List UInt8) : replaceTags s.length s = [] := by
  induction s with
  | nil => rfl
  | cons c s ih => exact ih

/-- The end of a line stays, unless it is the end of a tag. -/
theorem getLast?_replaceTags (s : List UInt8) : ∀ skip < s.length,
    (replaceTags skip s).getLast? = s.getLast? ∨
      (replaceTags skip s).getLast? = some 10 ∧ s.getLast? = some 62 := by
  induction s with
  | nil => exact fun _ h => absurd h (Nat.not_lt_zero _)
  | cons c s ih =>
    have hcons : ∀ (d : UInt8) (skip : ℕ), skip < s.length →
        (d :: replaceTags skip s).getLast? = (c :: s).getLast? ∨
          (d :: replaceTags skip s).getLast? = some 10 ∧ (c :: s).getLast? = some 62 := by
      intro d skip hskip
      have hs := List.getLast?_eq_some_getLast (List.ne_nil_of_length_pos (Nat.zero_lt_of_lt hskip))
      rw [List.getLast?_cons, List.getLast?_cons]
      rcases ih skip hskip with h | ⟨h, h'⟩
      · rw [h, hs]
        exact Or.inl rfl
      · rw [h, h']
        exact Or.inr ⟨rfl, rfl⟩
    intro skip hskip
    rw [replaceTags.eq_def]
    dsimp only
    cases skip with
    | succ skip =>
      have hlt := Nat.lt_of_succ_lt_succ hskip
      have hs := List.getLast?_eq_some_getLast (List.ne_nil_of_length_pos (Nat.zero_lt_of_lt hlt))
      have hlast : (c :: s).getLast? = s.getLast? := by
        rw [List.getLast?_cons, hs]
        rfl
      rw [hlast]
      exact ih skip hlt
    | zero =>
      cases htag : brTag (c :: s) with
      | none =>
        cases s with
        | nil => exact Or.inl rfl
        | cons d s => exact hcons c 0 (Nat.succ_pos _)
      | some n =>
        obtain ⟨hn, hend⟩ := getElem?_of_brTag htag
        obtain ⟨hlt, -⟩ := List.getElem?_eq_some_iff.mp hend
        rcases Nat.lt_or_ge (n - 1) s.length with hskip' | hge
        · exact hcons 10 (n - 1) hskip'
        · have heq : n - 1 = s.length := le_antisymm (Nat.lt_succ_iff.mp hlt) hge
          have hnil : replaceTags s.length s = [] := replaceTags_length s
          have hlast : (c :: s).getLast? = some 62 := by
            rw [List.getLast?_eq_getElem?, ← hend, heq]
            rfl
          dsimp only
          rw [heq, hnil]
          exact Or.inr ⟨rfl, hlast⟩

theorem replaceTags_of_notMem {s : List UInt8} (h : 60 ∉ s) : replaceTags 0 s = s := by
  induction s with
  | nil => rfl
  | cons c s ih =>
    have hc : c ≠ 60 := fun hh => h (hh ▸ List.mem_cons_self)
    rw [replaceTags.eq_def]
    dsimp only
    rw [brTag_eq_none hc]
    dsimp only
    rw [ih fun hh => h (List.mem_cons_of_mem c hh)]

/-- A line with no newline in place of a tag has none. -/
theorem replaceTags_eq_self {s : List UInt8} (h : 10 ∉ replaceTags 0 s) : replaceTags 0 s = s := by
  induction s with
  | nil => rfl
  | cons c s ih =>
    rw [replaceTags.eq_def] at h ⊢
    dsimp only at h ⊢
    cases htag : brTag (c :: s) with
    | none =>
      rw [htag] at h
      dsimp only at h ⊢
      rw [ih fun hh => h (List.mem_cons_of_mem c hh)]
    | some n =>
      rw [htag] at h
      exact absurd List.mem_cons_self h

theorem replaceLine_eq_self {s : List UInt8} (h : 10 ∉ replaceLine s) : replaceLine s = s := by
  have hmap : ∀ t : List UInt8, 10 ∉ t.map (fun c => if c = 124 then 10 else c) →
      t.map (fun c => if c = 124 then 10 else c) = t := by
    intro t ht
    refine (List.map_congr_left fun c hc => ?_).trans (List.map_id t)
    refine if_neg fun hbar => ht ?_
    exact List.mem_map.mpr ⟨c, hc, if_pos hbar⟩
  have h10 : 10 ∉ replaceTags 0 s := fun hh =>
    h (List.mem_map.mpr ⟨10, hh, rfl⟩)
  rw [replaceLine, hmap _ h, replaceTags_eq_self h10]

theorem replaceLine_of_notMem {s : List UInt8} (h60 : 60 ∉ s) (h124 : 124 ∉ s) :
    replaceLine s = s := by
  rw [replaceLine, replaceTags_of_notMem h60]
  refine (List.map_congr_left fun c hc => ?_).trans (List.map_id s)
  exact if_neg fun hbar : c = 124 => h124 (hbar ▸ hc)

theorem isBlank_replace (c : UInt8) : isBlank (if c = 124 then 10 else c) = isBlank c := by
  split_ifs with h
  · rw [h]
    rfl
  · rfl

/-- The replacements keep whether a line ends with a blank. -/
theorem getLast?_replaceLine (s : List UInt8) :
    (replaceLine s).getLast?.any isBlank = s.getLast?.any isBlank := by
  cases s with
  | nil => rfl
  | cons c s =>
    rw [replaceLine, List.getLast?_map, Option.any_map]
    have hany : ∀ o : Option UInt8,
        o.any (fun c => isBlank (if c = 124 then 10 else c)) = o.any isBlank := fun o =>
      congrArg o.any (funext isBlank_replace)
    rw [hany]
    rcases getLast?_replaceTags (c :: s) 0 (Nat.succ_pos _) with h | ⟨h, h'⟩
    · rw [h]
    · rw [h, h']
      rfl

/-- **What the replacements show of a line** is enough to see whether it is kept. -/
theorem isKept_of_replaceLine_eq {t l : List UInt8} (h10 : 10 ∉ t) (hl : IsKept l)
    (h : replaceLine t = replaceLine l) : IsKept t where
  last := by rw [← getLast?_replaceLine, h, getLast?_replaceLine, hl.last]
  not_cr := by
    intro hcr
    have hmem : ∀ c ∈ t, isBlank c = true ∨ c = 13 := by
      intro c hc
      rw [← List.takeWhile_append_dropWhile (p := isBlank) (l := t), List.mem_append] at hc
      rcases hc with hc | hc
      · exact Or.inl (List.mem_takeWhile_imp hc)
      · rw [show t.dropWhile isBlank = [13] from hcr] at hc
        exact Or.inr (List.eq_of_mem_singleton hc)
    have h60 : 60 ∉ t := fun hh => absurd (hmem 60 hh) (by decide)
    have h124 : 124 ∉ t := fun hh => absurd (hmem 124 hh) (by decide)
    have ht : replaceLine t = t := replaceLine_of_notMem h60 h124
    have hself : replaceLine l = l := by
      refine replaceLine_eq_self ?_
      rw [← h, ht]
      exact h10
    have heq : t = l := by rw [← ht, h, hself]
    exact hl.not_cr (heq ▸ hcr)

/-! ## The loop over the items -/

/-- A decoder: the item it finds, if there is one, with the buffer on its stack as it comes. -/
abbrev Decoder := Reader → Memory → Option ExtSubItem × Reader

/-- What `decodeSubtitles` makes of an item. -/
def finishItem (item : ExtSubItem) : ExtSubItem where
  start := sub_ms2pts item.start
  stop := sub_ms2pts item.stop
  lines := item.lines.map replaceLine

/-- The loop of `decodeSubtitles`; `stack i` is what the buffer has at the `i`-th call. -/
def decodeItems (decodedItem : Decoder) : ℕ → Reader → (ℕ → Memory) → List ExtSubItem
  | 0, _, _ => []
  | fuel + 1, r, stack =>
    match decodedItem r (stack 0) with
    | (none, _) => []
    | (some item, r) => finishItem item :: decodeItems decodedItem fuel r fun i => stack (i + 1)

/-- `decodeSubtitles`. -/
def decodeSubtitles (decodedItem : Decoder) (r : Reader) (stack : ℕ → Memory) :
    List ExtSubItem :=
  decodeItems decodedItem ((toRead r).length + 1) r stack

/-- A decoder takes at least one byte for an item. -/
def Progresses (decodedItem : Decoder) : Prop :=
  ∀ r s item r', decodedItem r s = (some item, r') → (toRead r').length < (toRead r).length

/-- **The loop ends by itself**: more fuel than there are bytes left changes nothing. -/
theorem decodeItems_eq {decodedItem : Decoder} (hprogress : Progresses decodedItem) (fuel : ℕ) :
    ∀ r stack, (toRead r).length < fuel →
      decodeItems decodedItem fuel r stack = decodeSubtitles decodedItem r stack := by
  have hsucc : ∀ fuel r stack, (toRead r).length < fuel →
      decodeItems decodedItem (fuel + 1) r stack = decodeItems decodedItem fuel r stack := by
    intro fuel
    induction fuel with
    | zero => exact fun _ _ h => absurd h (Nat.not_lt_zero _)
    | succ fuel ih =>
      intro r stack h
      rw [decodeItems]
      conv_rhs => rw [decodeItems]
      split
      · rfl
      · next item r' hfound =>
        have hlt := hprogress r (stack 0) item r' hfound
        rw [ih r' _ (by omega)]
  intro r stack h
  induction fuel, (Nat.succ_le_of_lt h) using Nat.le_induction with
  | base => rfl
  | succ fuel hle ih => exact (hsucc fuel r stack hle).trans (ih hle)

end TextSubtitle
end AmlSubtitle
