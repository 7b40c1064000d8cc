import AmlSubtitle.Parser.ExtSubFactory
import AmlSubtitle.Parser.SubViewer
import AmlSubtitle.Parser.VobSubUnits

/-!
# `parser/ExtParser/VobSubIndex.cpp`: the index of the units

The `.idx` file has a section for each track: a line with the number of the track, and a line for
each unit of it, with its time and its place in the `.sub` file.

* `scanFields`: `sscanf` with a format of texts and conversions that may have a width.
* `decodedItem` reads up to the next unit of the track that is selected, `decodeSubtitles` up to the
  end, and `popDecodedItem` takes the first unit of the track.
* Left out are the lines `delay:`, `org:` and `custom colors:`, which set only what nothing reads. An
  `unsigned long` has 64 bits.
* `itemsOf` says what comes of the lines, and `decodeSubtitles_of_delivers` that this is decoded.
* `Document`: a header, and the sections of the tracks.
* `presents_track`: of an index and the file of its units, exactly those of the track that is
  selected are presented, in their order, each at its time and with the picture of its bytes.
-/

namespace AmlSubtitle
namespace VobSub

open Scanf ExtSubStreamReader TextSubtitle
open Words
open Dvb (Source)

/-! ## Formats with widths -/

/-- `%d` and `%s` with a width, or `%llx`; the text is not kept. -/
inductive Conversion where
  | int (width : Option ℕ)
  | word (width : ℕ)
  | hex
  deriving DecidableEq, Repr

/-- `%2d`, for one: blanks, a sign and digits, of which the width bounds the last two. -/
def scanIntWidth (width : Option ℕ) (s : List UInt8) : Option (ℤ × List UInt8) :=
  let s := s.dropWhile isSpace
  match width with
  | none => scanInt s
  | some width => (scanInt (s.take width)).map fun (z, rest) => (z, rest ++ s.drop width)

/-- A number in hexadecimal digits, which `0x` may begin. -/
def hexDigits (s : List UInt8) : List UInt8 × List UInt8 :=
  let s := if (s.take 2 = [48, 120] ∨ s.take 2 = [48, 88]) ∧ isHexDigit ((s.drop 2).headD 0) = true
    then s.drop 2 else s
  (s.takeWhile isHexDigit, s.dropWhile isHexDigit)

/-- The value of hexadecimal digits. -/
def hexValue (digits : List UInt8) : ℕ := digits.foldl (fun n c => 16 * n + digitValue c) 0

/-- `strtoull` with the base 16, of the digits behind a sign. -/
def strtoull (negative : Bool) (digits : List UInt8) : ℕ :=
  if 2 ^ 64 ≤ hexValue digits then 2 ^ 64 - 1
  else if negative then (2 ^ 64 - hexValue digits) % 2 ^ 64
  else hexValue digits

/-- `%llx`. -/
def scanHex (s : List UInt8) : Option (ℤ × List UInt8) :=
  let (negative, s) := scanSign (s.dropWhile isSpace)
  let (digits, rest) := hexDigits s
  if digits = [] then none else some (asSigned 64 (strtoull negative digits), rest)

/-- The text of a format: a blank stands for blanks. -/
def scanText : List UInt8 → List UInt8 → Option (List UInt8)
  | [], s => some s
  | 32 :: text, s => scanText text (s.dropWhile isSpace)
  | c :: text, s => if s.head? = some c then scanText text s.tail else none

/-- What a conversion assigns, if it is a number. -/
def convert : Conversion → List UInt8 → Option (Option ℤ × List UInt8)
  | .int width, s => (scanIntWidth width s).map fun (z, rest) => (some z, rest)
  | .hex, s => (scanHex s).map fun (z, rest) => (some z, rest)
  | .word width, s =>
    let s := s.dropWhile isSpace
    let word := (s.take width).takeWhile fun c => !isSpace c
    if word = [] then none else some (none, s.drop word.length)

/-- `sscanf`: the numbers that are assigned. -/
def scanFields : List (List UInt8 × Conversion) → List UInt8 → List ℤ
  | [], _ => []
  | (text, conversion) :: format, s =>
    match (scanText text s).bind (convert conversion) with
    | none => []
    | some (z, s) => z.toList ++ scanFields format s

/-! ## `decodedItem` -/

/-- `timestamp:`. -/
def timestampTag : List UInt8 := [116, 105, 109, 101, 115, 116, 97, 109, 112, 58]

/-- `filepos:`. -/
def fileposTag : List UInt8 := [102, 105, 108, 101, 112, 111, 115, 58]

/-- `langidx:`. -/
def langidxTag : List UInt8 := [108, 97, 110, 103, 105, 100, 120, 58]

/-- `id:`. -/
def idTag : List UInt8 := [105, 100, 58]

/-- `palette:`. -/
def paletteTag : List UInt8 := [112, 97, 108, 101, 116, 116, 101, 58]

/-- `size:`. -/
def sizeTag : List UInt8 := [115, 105, 122, 101, 58]

/-- `timestamp: %02d:%02d:%02d:%03d, filepos:%llx`. -/
def timestampFormat : List (List UInt8 × Conversion) :=
  [(timestampTag ++ [32], .int (some 2)), ([58], .int (some 2)), ([58], .int (some 2)),
    ([58], .int (some 3)), ([44, 32] ++ fileposTag, .hex)]

/-- `id: %2s, index: %d`. -/
def idFormat : List (List UInt8 × Conversion) :=
  [(idTag ++ [32], .word 2), ([44, 32, 105, 110, 100, 101, 120, 58, 32], .int none)]

/-- `size: %dx%d`. -/
def sizeFormat : List (List UInt8 × Conversion) :=
  [(sizeTag ++ [32], .int none), ([120], .int none)]

/-- An item, as `ExtSubItem` has it for an index. -/
structure IndexItem where
  start : ℤ
  subId : ℤ
  filePos : ℤ
  deriving DecidableEq, Repr

/-- The members of the object. -/
structure Members where
  mIdxSubTrackId : ℤ
  mSelectedTrackId : ℤ := -1
  mVobsubId : ℤ := 0
  mOrigFrameWidth : ℕ := 0
  mOrigFrameHeight : ℕ := 0
  palette : List ℕ := List.replicate 16 0
  deriving DecidableEq, Repr

/-- The loop of `vobsub_parse_palette`, which reads `n` colours. -/
def parsePalette : ℕ → List UInt8 → List ℕ
  | 0, _ => []
  | n + 1, line =>
    let line := line.dropWhile isSpace
    let p := line.dropWhile isHexDigit
    let (negative, t) := scanSign line
    let tmp := strtoull negative (hexDigits t).1 % 2 ^ 32
    (if tmp = 0 then 0xffffff else tmp) ::
      parsePalette n (if p.head? = some 44 then p.tail else p)

/-- The body of the loop of `decodedItem`, of the text of a line; `filepos` tells that the line has
a place. -/
def readText (members : Members) (line : List UInt8) (filepos : Prop) [Decidable filepos] :
    Members × Option IndexItem :=
  if line = [] ∨ line.head? = some 13 ∨ line.head? = some 10 ∨ line.head? = some 35 then
    (members, none)
  else if langidxTag <+: line then
    let mVobsubId := atoi (line.drop 8)
    ({ members with
        mVobsubId := mVobsubId
        -- use the default idx for playing
        mSelectedTrackId :=
          if members.mIdxSubTrackId = -1 then mVobsubId else members.mSelectedTrackId }, none)
  else if idTag <+: line then
    let mVobsubId := (scanFields idFormat line).getD 0 members.mVobsubId
    if members.mIdxSubTrackId = -1 then
      ({ members with
          mVobsubId := mVobsubId
          mSelectedTrackId := mVobsubId
          mIdxSubTrackId := mVobsubId }, none)
    else
      ({ members with mVobsubId := mVobsubId }, none)
  else if paletteTag <+: line then
    ({ members with palette := parsePalette 16 (line.drop 8) }, none)
  else if sizeTag <+: line then
    let size := scanFields sizeFormat line
    ({ members with
        mOrigFrameWidth := asUnsigned 32 (size.getD 0 members.mOrigFrameWidth)
        mOrigFrameHeight := asUnsigned 32 (size.getD 1 members.mOrigFrameHeight) }, none)
  else if timestampTag <+: line ∧ filepos then
    let fields := scanFields timestampFormat line
    if members.mVobsubId ≠ members.mSelectedTrackId then (members, none)
    else
      (members, some
        { start := asSigned 32 ((fields.getD 0 0 * 60 * 60 + fields.getD 1 0 * 60 +
            fields.getD 2 0) * 100 + (fields.getD 3 0).tdiv 10)
          subId := members.mVobsubId
          filePos := fields.getD 4 0 })
  else
    (members, none)

/-- The body of the loop, of a line in its buffer: what stands 25 bytes behind its beginning may be
behind its end. -/
def readLine (members : Members) (line : Memory) : Members × Option IndexItem :=
  readText members line.string ((line.bytes.drop 25).take 8 = fileposTag)

/-- The loop of `decodedItem`. -/
def findItem : ℕ → Members → Reader → Memory → Option IndexItem × Members × Reader
  | 0, members, r, _ => (none, members, r)
  | fuel + 1, members, r, line =>
    match getLine r line with
    | (none, r) => (none, members, r)
    | (some line, r) =>
      match readLine members line with
      | (members, some item) => (some item, members, r)
      | (members, none) => findItem fuel members r line

/-- What `decodedItem` begins with. -/
def select (members : Members) : Members :=
  if 0 ≤ members.mIdxSubTrackId then { members with mSelectedTrackId := members.mIdxSubTrackId }
  else members

/-- `decodedItem`. -/
def decodedItem (members : Members) (r : Reader) (line : Memory) :
    Option IndexItem × Members × Reader :=
  findItem ((toRead r).length + 1) (select members) r line

/-- The loop of `decodeSubtitles`. -/
def decodeItems : ℕ → Members → Reader → (ℕ → Memory) → List IndexItem × Members
  | 0, members, _, _ => ([], members)
  | fuel + 1, members, r, stack =>
    match decodedItem members r (stack 0) with
    | (none, members, _) => ([], members)
    | (some item, members, r) =>
      let (items, members) := decodeItems fuel members r fun i => stack (i + 1)
      ({ item with start := sub_ms2pts item.start } :: items, members)

/-- `decodeSubtitles`, of an object as its constructor leaves it. -/
def decodeSubtitles (idxSubTrackId : ℤ) (r : Reader) (stack : ℕ → Memory) :
    List IndexItem × Members :=
  decodeItems ((toRead r).length + 1) { mIdxSubTrackId := idxSubTrackId } r stack

/-! ## `popDecodedItem` -/

/-- What `popDecodedItem` sets in `AML_SPUVAR`; `genMethod` is `genSubBitmap`. -/
structure Popped where
  pts : ℤ
  m_delay : ℤ
  dynGen : Bool
  pos : ℤ
  isExtSub : Bool
  deriving DecidableEq, Repr

/-- `popDecodedItem`: the first item of the track, and what is left. -/
def popDecodedItem (mSelectedTrackId : ℤ) (subtitles : List IndexItem) :
    Option Popped × List IndexItem :=
  match subtitles.find? (·.subId = mSelectedTrackId) with
  | none => (none, subtitles)
  | some item =>
    (some { pts := item.start, m_delay := 0, dynGen := true, pos := item.filePos,
            isExtSub := true },
      subtitles.eraseP (·.subId = mSelectedTrackId))

/-- The calls of `popDecodedItem` up to the first one that gives nothing. -/
def popAll (mSelectedTrackId : ℤ) : ℕ → List IndexItem → List Popped
  | 0, _ => []
  | fuel + 1, subtitles =>
    match popDecodedItem mSelectedTrackId subtitles with
    | (none, _) => []
    | (some spu, subtitles) => spu :: popAll mSelectedTrackId fuel subtitles

/-! ## What is decoded of the lines -/

/-- The line has a place. -/
def HasFilepos (line : List UInt8) : Prop := (line.drop 25).take 8 = fileposTag

instance : DecidablePred HasFilepos := fun line =>
  inferInstanceAs (Decidable ((line.drop 25).take 8 = fileposTag))

/-- A line with a time is long enough to have a place. -/
def IsWhole (line : List UInt8) : Prop := timestampTag <+: line → 33 ≤ line.length

/-- The items of the lines, and the members behind them. -/
def itemsOf : Members → List (List UInt8) → List IndexItem × Members
  | members, [] => ([], members)
  | members, line :: lines =>
    match readText members line (HasFilepos line) with
    | (members, none) => itemsOf members lines
    | (members, some item) =>
      ({ item with start := sub_ms2pts item.start } :: (itemsOf members lines).1,
        (itemsOf members lines).2)

section Lines

variable {members : Members} {line : List UInt8}

theorem readText_congr {P Q : Prop} [Decidable P] [Decidable Q]
    (h : timestampTag <+: line → (P ↔ Q)) :
    readText members line P = readText members line Q := by
  have hiff : (timestampTag <+: line ∧ P) ↔ (timestampTag <+: line ∧ Q) := and_congr_right h
  rw [readText, readText]
  simp only [hiff]

/-- What stands behind the end of the line does not matter. -/
theorem readLine_eq {m : Memory} (hm : m.string = line) (hwhole : IsWhole line) :
    readLine members m = readText members line (HasFilepos line) := by
  rw [readLine, hm]
  refine readText_congr fun htag => ?_
  obtain ⟨rest, hrest⟩ : line <+: m.bytes := hm ▸ List.takeWhile_prefix _
  have hlen : line.length - 25 ≥ 8 := by
    have h33 := hwhole htag
    omega
  have htake : (m.bytes.drop 25).take 8 = (line.drop 25).take 8 := by
    rw [← hrest, List.drop_append_of_le_length (by omega),
      List.take_append_of_le_length (by rw [List.length_drop]; exact hlen)]
  rw [htake, HasFilepos]

/-- The selection is kept, once it was made. -/
theorem select_readText {P : Prop} [Decidable P] (h : select members = members) :
    select (readText members line P).1 = (readText members line P).1 := by
  have hsel : 0 ≤ members.mIdxSubTrackId → members.mSelectedTrackId = members.mIdxSubTrackId := by
    intro hidx
    rw [select, if_pos hidx] at h
    exact (congrArg Members.mSelectedTrackId h).symm
  have hselect : ∀ m : Members, (0 ≤ m.mIdxSubTrackId → m.mSelectedTrackId = m.mIdxSubTrackId) →
      select m = m := by
    intro m hm
    rw [select]
    split_ifs with hidx
    · exact congrArg (fun id => { m with mSelectedTrackId := id }) (hm hidx).symm
    · rfl
  refine hselect _ ?_
  rw [readText]
  split_ifs <;> dsimp only <;> omega

end Lines

/-- A call of the loop gives the first item of the lines. -/
theorem findItem_of_delivers (lines : List (List UInt8)) (hlines : ∀ l ∈ lines, IsWhole l) :
    ∀ {members : Members} {r : Reader} {fuel : ℕ}, DeliversAll r lines → lines.length < fuel →
      select members = members → ∀ s,
      (∃ item members' r' lines', findItem fuel members r s = (some item, members', r') ∧
        DeliversAll r' lines' ∧ lines' <:+ lines ∧ lines'.length < lines.length ∧
        select members' = members' ∧ itemsOf members lines =
          ({ item with start := sub_ms2pts item.start } :: (itemsOf members' lines').1,
            (itemsOf members' lines').2)) ∨
      (∃ members' r', findItem fuel members r s = (none, members', r') ∧
        itemsOf members lines = ([], members')) := by
  induction lines with
  | nil =>
    intro members r fuel hall hfuel _ s
    obtain ⟨fuel, rfl⟩ := Nat.exists_eq_add_one_of_ne_zero (Nat.ne_zero_of_lt hfuel)
    obtain ⟨r', hget, -⟩ := hall.nil s
    refine .inr ⟨members, r', ?_, rfl⟩
    rw [findItem, hget]
  | cons line lines ih =>
    intro members r fuel hall hfuel hselect s
    obtain ⟨fuel, rfl⟩ := Nat.exists_eq_add_one_of_ne_zero (Nat.ne_zero_of_lt hfuel)
    obtain ⟨hwhole, hlines⟩ := List.forall_mem_cons.mp hlines
    obtain ⟨m, r', hget, hm, hrest⟩ := hall s
    have hread := @readLine_eq members line m hm hwhole
    have hselect' := @select_readText members line (HasFilepos line) _ hselect
    rw [findItem, hget]
    dsimp only
    rw [hread, itemsOf]
    rcases hres : readText members line (HasFilepos line) with ⟨members', _ | item⟩
    · rw [hres] at hselect'
      rcases ih hlines hrest (Nat.lt_of_succ_lt_succ hfuel) hselect' m with
        ⟨item, members'', r'', lines', hfind, hall', hsuffix, hlen, hsel, hitems⟩ |
        ⟨members'', r'', hfind, hitems⟩
      · exact .inl ⟨item, members'', r'', lines', hfind, hall',
          hsuffix.trans (List.suffix_cons _ _), Nat.lt_succ_of_lt hlen, hsel, hitems⟩
      · exact .inr ⟨members'', r'', hfind, hitems⟩
    · rw [hres] at hselect'
      exact .inl ⟨item, members', r', lines, rfl, hrest, List.suffix_cons _ _,
        Nat.lt_succ_self _, hselect', rfl⟩

/-- **The loop over the items gives the items of the lines.** -/
theorem decodeItems_of_delivers (fuel : ℕ) : ∀ {lines : List (List UInt8)},
    (∀ l ∈ lines, IsWhole l) → ∀ {members : Members} {r : Reader}, DeliversAll r lines →
      lines.length < fuel → ∀ stack,
      decodeItems fuel members r stack = itemsOf (select members) lines := by
  induction fuel with
  | zero => exact fun _ _ _ _ hfuel => absurd hfuel (Nat.not_lt_zero _)
  | succ fuel ih =>
    intro lines hlines members r hall hfuel stack
    have hidem : select (select members) = select members := by
      unfold select
      split_ifs <;> rfl
    rw [decodeItems, decodedItem]
    rcases findItem_of_delivers lines hlines hall (Nat.lt_succ_of_le hall.length_le) hidem
      (stack 0) with
      ⟨item, members', r', lines', hfind, hall', hsuffix, hlen, hsel, hitems⟩ |
      ⟨members', r', hfind, hitems⟩
    · rw [hfind, hitems]
      dsimp only
      rw [ih (fun l hl => hlines l (hsuffix.subset hl)) hall' (by omega), hsel]
    · rw [hfind, hitems]

/-- **An index is decoded to the items of its lines.** -/
theorem decodeSubtitles_of_delivers {lines : List (List UInt8)} (hlines : ∀ l ∈ lines, IsWhole l)
    {r : Reader} (hall : DeliversAll r lines) (idxSubTrackId : ℤ) (stack : ℕ → Memory) :
    decodeSubtitles idxSubTrackId r stack =
      itemsOf (select { mIdxSubTrackId := idxSubTrackId }) lines :=
  decodeItems_of_delivers _ hlines hall (Nat.lt_succ_of_le hall.length_le) stack

/-! ## The fields of a line -/

/-- A number in `k` digits is read with this width. -/
theorem scanIntWidth_padded {k n : ℕ} (hk : k ≠ 0) (hn : n < 10 ^ k) (h31 : 10 ^ k ≤ 2 ^ 31)
    (rest : List UInt8) :
    scanIntWidth (some k) (padded k n ++ rest) = some ((n : ℤ), rest) := by
  have hscan : scanInt (padded k n) = some ((n : ℤ), []) := by
    have hread := @scanInt_digits (padded k n) []
      (List.ne_nil_of_length_pos (by rw [length_padded]; exact Nat.pos_of_ne_zero hk))
      (isDigit_of_mem_padded k n) (fun _ hc => absurd hc (Option.not_mem_none _))
    rw [List.append_nil, decimal_padded, Nat.mod_eq_of_lt hn,
      toInt_natCast (hn.trans_le h31)] at hread
    exact hread
  rw [scanIntWidth, dropWhile_padded hk]
  dsimp only
  rw [List.take_left' (length_padded k n), List.drop_left' (length_padded k n), hscan]
  rfl

/-- A field of a line is read, and the format goes on behind it. -/
theorem scanFields_padded {text s rest : List UInt8} {k n : ℕ}
    (h : scanText text s = some (padded k n ++ rest)) (hk : k ≠ 0) (hn : n < 10 ^ k)
    (h31 : 10 ^ k ≤ 2 ^ 31) (format : List (List UInt8 × Conversion)) :
    scanFields ((text, .int (some k)) :: format) s = (n : ℤ) :: scanFields format rest := by
  rw [scanFields, h, Option.bind_some, convert, scanIntWidth_padded hk hn h31]
  rfl

/-- A place in hexadecimal digits. -/
structure Place where
  digits : List UInt8
  ne_nil : digits ≠ []
  all_digits : ∀ c ∈ digits, isHexDigit c = true
  lt : hexValue digits < 2 ^ 63

/-- No blank, sign or prefix stands in front of the digits. -/
theorem Place.parts (place : Place) : place.digits.dropWhile isSpace = place.digits ∧
    scanSign place.digits = (false, place.digits) ∧
      hexDigits place.digits = (place.digits, []) := by
  have hkinds : ∀ n < 256, isHexDigit (UInt8.ofNat n) = true → isSpace (UInt8.ofNat n) = false ∧
      UInt8.ofNat n ≠ 45 ∧ UInt8.ofNat n ≠ 43 ∧ UInt8.ofNat n ≠ 120 ∧ UInt8.ofNat n ≠ 88 := by
    decide +kernel
  have hkind : ∀ c ∈ place.digits, isSpace c = false ∧ c ≠ 45 ∧ c ≠ 43 ∧ c ≠ 120 ∧ c ≠ 88 := by
    intro c hc
    have h := hkinds c.toNat c.toNat_lt
    rw [UInt8.ofNat_toNat] at h
    exact h (place.all_digits c hc)
  have hplain : ¬ ((place.digits.take 2 = [48, 120] ∨ place.digits.take 2 = [48, 88]) ∧
      isHexDigit ((place.digits.drop 2).headD 0) = true) := by
    rintro ⟨h | h, -⟩
    · have hmem : 120 ∈ place.digits.take 2 := h ▸ List.mem_cons_of_mem _ List.mem_cons_self
      exact (hkind 120 (List.mem_of_mem_take hmem)).2.2.2.1 rfl
    · have hmem : 88 ∈ place.digits.take 2 := h ▸ List.mem_cons_of_mem _ List.mem_cons_self
      exact (hkind 88 (List.mem_of_mem_take hmem)).2.2.2.2 rfl
  have htake : place.digits.takeWhile isHexDigit = place.digits :=
    List.takeWhile_eq_self_iff.mpr place.all_digits
  have hdrop : place.digits.dropWhile isHexDigit = [] :=
    List.dropWhile_eq_nil_iff.mpr place.all_digits
  refine ⟨?_, ?_, ?_⟩
  · obtain ⟨c, cs, hcs⟩ := List.exists_cons_of_ne_nil place.ne_nil
    have hc := (hkind c (hcs ▸ List.mem_cons_self)).1
    rw [hcs]
    exact List.dropWhile_cons_of_neg ((Bool.not_eq_true _).mpr hc)
  · obtain ⟨c, cs, hcs⟩ := List.exists_cons_of_ne_nil place.ne_nil
    obtain ⟨-, h45, h43, -⟩ := hkind c (hcs ▸ List.mem_cons_self)
    rw [hcs, scanSign, if_neg h45, if_neg h43]
  · rw [hexDigits, if_neg hplain, htake, hdrop]

/-- **A place is read back.** -/
theorem scanHex_place (place : Place) :
    scanHex (32 :: place.digits) = some ((hexValue place.digits : ℤ), []) := by
  obtain ⟨hblank, hsign, hhex⟩ := place.parts
  have hskip : (32 :: place.digits).dropWhile isSpace = place.digits :=
    (List.dropWhile_cons_of_pos rfl).trans hblank
  have hlt := place.lt
  have hsigned : asSigned 64 (hexValue place.digits) = hexValue place.digits :=
    asSigned_of_lt (by omega)
  rw [scanHex, hskip, hsign]
  dsimp only
  rw [hhex]
  dsimp only
  rw [if_neg place.ne_nil, strtoull, if_neg (by omega), if_neg Bool.false_ne_true, hsigned]

/-! ## What is presented -/

/-- What is popped of an item. -/
def popped (item : IndexItem) : Popped where
  pts := item.start
  m_delay := 0
  dynGen := true
  pos := item.filePos
  isExtSub := true

/-- **The calls pop the items of the track in their order.** -/
theorem popAll_eq (mSelectedTrackId : ℤ) (fuel : ℕ) : ∀ {items : List IndexItem},
    items.length < fuel → popAll mSelectedTrackId fuel items =
      (items.filter (·.subId = mSelectedTrackId)).map popped := by
  induction fuel with
  | zero => exact fun h => absurd h (Nat.not_lt_zero _)
  | succ fuel ih =>
    intro items hfuel
    rw [popAll, popDecodedItem]
    cases hfind : items.find? (·.subId = mSelectedTrackId) with
    | none =>
      have hnil : items.filter (·.subId = mSelectedTrackId) = [] :=
        List.filter_eq_nil_iff.mpr (List.find?_eq_none.mp hfind)
      rw [hnil]
      rfl
    | some item =>
      obtain ⟨hitem, before, after, rfl, hbefore⟩ := List.find?_eq_some_iff_append.mp hfind
      have hbefore' : ∀ x ∈ before, ¬ decide (x.subId = mSelectedTrackId) = true := by
        intro x hx hx'
        have hnot := hbefore x hx
        rw [hx'] at hnot
        exact absurd hnot (by decide)
      have hcons : (item :: after).eraseP (·.subId = mSelectedTrackId) = after :=
        List.eraseP_cons_of_pos hitem
      have hkept : (item :: after).filter (·.subId = mSelectedTrackId) =
          item :: after.filter (·.subId = mSelectedTrackId) := List.filter_cons_of_pos hitem
      have hlen : (before ++ after).length < fuel := by
        rw [List.length_append, List.length_cons] at hfuel
        rw [List.length_append]
        omega
      dsimp only
      rw [List.eraseP_append_right _ hbefore', hcons, ih hlen, List.filter_append,
        List.filter_append, hkept, List.filter_eq_nil_iff.mpr hbefore']
      rfl

/-! ## Documents -/

/-- A unit in the index: its time, its place, and what stands there. -/
structure IndexCue where
  time : SubViewer.Time
  place : Place
  unit : SubUnit

/-- The line of the unit. -/
def IndexCue.line (cue : IndexCue) : List UInt8 :=
  timestampTag ++ 32 :: (padded 2 cue.time.hours ++ 58 :: (padded 2 cue.time.minutes ++
    58 :: (padded 2 cue.time.seconds ++ 58 :: (padded 3 cue.time.millis ++
      44 :: 32 :: (fileposTag ++ 32 :: cue.place.digits)))))

/-- A line of a section: a unit, or a line that is neither that nor the number of a track. -/
inductive IndexLine where
  | cue (cue : IndexCue)
  | other (line : List UInt8) (timestamp : ¬ timestampTag <+: line) (id : ¬ idTag <+: line)
      (langidx : ¬ langidxTag <+: line)

/-- The line. -/
def IndexLine.line : IndexLine → List UInt8
  | cue c => c.line
  | other line _ _ _ => line

/-- The unit of the line, if there is one. -/
def IndexLine.cue? : IndexLine → Option IndexCue
  | cue c => some c
  | other _ _ _ _ => none

/-- A section: its language, the number of its track, and its lines. -/
structure Section where
  lang : UInt8 × UInt8
  index : Numeral
  lines : List IndexLine
  lang_nonblank : isSpace lang.1 = false ∧ isSpace lang.2 = false

/-- The line of the number. -/
def Section.idLine (s : Section) : List UInt8 :=
  idTag ++ 32 :: s.lang.1 :: s.lang.2 ::
    ([44, 32, 105, 110, 100, 101, 120, 58, 32] ++ s.index.digits)

/-- The units of the section. -/
def Section.cues (s : Section) : List IndexCue := s.lines.filterMap IndexLine.cue?

/-- An index: a header with no time and no number of a track, and the sections. -/
structure Document where
  header : List (List UInt8)
  first : Section
  others : List Section
  untimed : ∀ l ∈ header, ¬ timestampTag <+: l
  unnumbered : ∀ l ∈ header, ¬ idTag <+: l

/-- The lines of the index. -/
def Document.lines (d : Document) : List (List UInt8) :=
  d.header ++ (d.first :: d.others).flatMap fun s => s.idLine :: s.lines.map IndexLine.line

/-- The track that is selected: that of the first section, if none is asked for. -/
def Document.selected (d : Document) (idxSubTrackId : ℤ) : ℤ :=
  if idxSubTrackId = -1 then d.first.index.value else idxSubTrackId

/-- The units of a track. -/
def Document.cuesOf (d : Document) (track : ℤ) : List IndexCue :=
  ((d.first :: d.others).filter fun s => (s.index.value : ℤ) = track).flatMap Section.cues

/-- The item of a unit. -/
def IndexCue.item (track : ℤ) (cue : IndexCue) : IndexItem where
  start := cue.time.pts
  subId := track
  filePos := hexValue cue.place.digits

section Documents

variable {members : Members}

/-- A line begins with no tag that has another letter at its beginning. -/
theorem not_tag {line rest : List UInt8} {c : UInt8} (hline : line = c :: rest) (tag : List UInt8)
    (htag : (tag.head?.all (· ≠ c) && !tag.isEmpty) = true) : ¬ tag <+: line := by
  subst hline
  cases tag with
  | nil =>
    rw [List.isEmpty_nil, Bool.not_true, Bool.and_false] at htag
    exact absurd htag Bool.false_ne_true
  | cons d tag =>
    rw [List.cons_prefix_cons]
    rintro ⟨rfl, -⟩
    simp at htag

/-- It is neither empty nor a comment. -/
theorem not_skipped {line rest : List UInt8} {c : UInt8} (hline : line = c :: rest)
    (hc : c ≠ 13 ∧ c ≠ 10 ∧ c ≠ 35) :
    ¬ (line = [] ∨ line.head? = some 13 ∨ line.head? = some 10 ∨ line.head? = some 35) := by
  subst hline
  rintro (h | h | h | h)
  · exact absurd h (List.cons_ne_nil _ _)
  · exact hc.1 (Option.some.inj h)
  · exact hc.2.1 (Option.some.inj h)
  · exact hc.2.2 (Option.some.inj h)

theorem IndexCue.hasFilepos (cue : IndexCue) : HasFilepos cue.line := by
  have hsplit : cue.line = (timestampTag ++ 32 :: (padded 2 cue.time.hours ++
      58 :: (padded 2 cue.time.minutes ++ 58 :: (padded 2 cue.time.seconds ++
        58 :: (padded 3 cue.time.millis ++ [44, 32]))))) ++
          (fileposTag ++ 32 :: cue.place.digits) := by
    rw [IndexCue.line]
    simp only [List.append_assoc, List.cons_append, List.nil_append]
  rw [HasFilepos, hsplit, List.drop_left']
  · rfl
  · simp only [List.length_append, List.length_cons, length_padded, List.length_nil]
    rfl

/-- The times of a unit are read back. -/
theorem IndexCue.scanFields_line (cue : IndexCue) : scanFields timestampFormat cue.line =
    [(cue.time.hours : ℤ), (cue.time.minutes : ℤ), (cue.time.seconds : ℤ), (cue.time.millis : ℤ),
      (hexValue cue.place.digits : ℤ)] := by
  obtain ⟨time, place, unit⟩ := cue
  have hminutes := time.minutes_lt
  have hseconds := time.seconds_lt
  have htag : scanText (timestampTag ++ [32]) (IndexCue.line ⟨time, place, unit⟩) =
      some (padded 2 time.hours ++ 58 :: (padded 2 time.minutes ++ 58 :: (padded 2 time.seconds ++
        58 :: (padded 3 time.millis ++ 44 :: 32 :: (fileposTag ++ 32 :: place.digits))))) := by
    have hskip := dropWhile_padded (k := 2) (by decide) time.hours (58 :: (padded 2 time.minutes ++
      58 :: (padded 2 time.seconds ++ 58 :: (padded 3 time.millis ++
        44 :: 32 :: (fileposTag ++ 32 :: place.digits)))))
    exact (congrArg some ((List.dropWhile_cons_of_pos rfl).trans hskip))
  rw [timestampFormat, scanFields_padded htag (by decide) time.hours_lt (by decide),
    scanFields_padded rfl (by decide) (by omega) (by decide),
    scanFields_padded rfl (by decide) (by omega) (by decide),
    scanFields_padded rfl (by decide) time.millis_lt (by decide)]
  have hplace : scanText ([44, 32] ++ fileposTag) (44 :: 32 :: (fileposTag ++ 32 :: place.digits)) =
      some (32 :: place.digits) := rfl
  rw [scanFields, hplace, Option.bind_some, convert, scanHex_place]
  rfl

/-- **The line of a unit** gives its item, if its track is selected. -/
theorem IndexCue.readText_line (cue : IndexCue) :
    readText members cue.line (HasFilepos cue.line) = (members,
      if members.mVobsubId = members.mSelectedTrackId then
        some ⟨cue.time.hours * 360000 + cue.time.minutes * 6000 + cue.time.seconds * 100 +
          cue.time.millis / 10, members.mVobsubId, hexValue cue.place.digits⟩
      else none) := by
  obtain ⟨rest, hline⟩ : ∃ rest, cue.line = 116 :: rest := ⟨_, rfl⟩
  have htag : timestampTag <+: cue.line := ⟨_, rfl⟩
  have hstart : asSigned 32 (((cue.time.hours : ℤ) * 60 * 60 + cue.time.minutes * 60 +
      cue.time.seconds) * 100 + (cue.time.millis : ℤ).tdiv 10) =
      cue.time.hours * 360000 + cue.time.minutes * 6000 + cue.time.seconds * 100 +
        cue.time.millis / 10 := by
    have hhours := cue.time.hours_lt
    have hminutes := cue.time.minutes_lt
    have hseconds := cue.time.seconds_lt
    have hmillis := cue.time.millis_lt
    rw [Int.tdiv_eq_ediv_of_nonneg (Int.natCast_nonneg _), asSigned_eq (by omega) (by omega)]
    ring
  rw [readText, if_neg (not_skipped hline (by decide)), if_neg (not_tag hline langidxTag rfl),
    if_neg (not_tag hline idTag rfl), if_neg (not_tag hline paletteTag rfl),
    if_neg (not_tag hline sizeTag rfl), if_pos ⟨htag, cue.hasFilepos⟩, cue.scanFields_line]
  simp only [List.getD_cons_zero, List.getD_cons_succ]
  rw [hstart, ite_not]
  split_ifs <;> rfl

/-- The number of a section is read back. -/
theorem Section.scanFields_idLine (s : Section) :
    scanFields idFormat s.idLine = [(s.index.value : ℤ)] := by
  have htag : scanText (idTag ++ [32]) s.idLine = some (s.lang.1 :: s.lang.2 ::
      ([44, 32, 105, 110, 100, 101, 120, 58, 32] ++ s.index.digits)) := by
    have hskip : (s.lang.1 :: s.lang.2 ::
        ([44, 32, 105, 110, 100, 101, 120, 58, 32] ++ s.index.digits)).dropWhile isSpace =
        s.lang.1 :: s.lang.2 :: ([44, 32, 105, 110, 100, 101, 120, 58, 32] ++ s.index.digits) :=
      List.dropWhile_cons_of_neg ((Bool.not_eq_true _).mpr s.lang_nonblank.1)
    exact (congrArg some ((List.dropWhile_cons_of_pos rfl).trans hskip))
  have hword : convert (.word 2) (s.lang.1 :: s.lang.2 ::
      ([44, 32, 105, 110, 100, 101, 120, 58, 32] ++ s.index.digits)) =
      some (none, [44, 32, 105, 110, 100, 101, 120, 58, 32] ++ s.index.digits) := by
    rw [convert, List.dropWhile_cons_of_neg ((Bool.not_eq_true _).mpr s.lang_nonblank.1),
      List.take_succ_cons, List.take_succ_cons, List.take_zero, List.takeWhile_cons_of_pos,
      List.takeWhile_cons_of_pos]
    · rfl
    · rw [s.lang_nonblank.2]; rfl
    · rw [s.lang_nonblank.1]; rfl
  have hindex : scanText [44, 32, 105, 110, 100, 101, 120, 58, 32]
      ([44, 32, 105, 110, 100, 101, 120, 58, 32] ++ s.index.digits) = some s.index.digits := by
    obtain ⟨d, ds, hds, hd⟩ := s.index.exists_cons
    have hskip : s.index.digits.dropWhile isSpace = s.index.digits := by
      rw [hds]
      exact List.dropWhile_cons_of_neg ((Bool.not_eq_true _).mpr (isSpace_of_isDigit hd))
    exact (congrArg some ((List.dropWhile_cons_of_pos rfl).trans hskip))
  have hint : convert (.int none) s.index.digits = some (some (s.index.value : ℤ), []) := by
    have hscan := @scanInt_numeral s.index [] (fun _ hc => absurd hc (Option.not_mem_none _))
    rw [List.append_nil] at hscan
    obtain ⟨d, ds, hds, hd⟩ := s.index.exists_cons
    have hskip : s.index.digits.dropWhile isSpace = s.index.digits := by
      rw [hds]
      exact List.dropWhile_cons_of_neg ((Bool.not_eq_true _).mpr (isSpace_of_isDigit hd))
    rw [convert, scanIntWidth, hskip]
    dsimp only
    rw [hscan]
    rfl
  rw [idFormat, scanFields, htag, Option.bind_some, hword]
  dsimp only
  rw [scanFields, hindex, Option.bind_some, hint]
  rfl

/-- **The line of a section** selects its track, if none is selected for good. -/
theorem Section.readText_idLine (s : Section) {P : Prop} [Decidable P] :
    readText members s.idLine P = (if members.mIdxSubTrackId = -1 then
      { members with
          mVobsubId := s.index.value
          mSelectedTrackId := s.index.value
          mIdxSubTrackId := s.index.value }
      else { members with mVobsubId := s.index.value }, none) := by
  obtain ⟨rest, hline⟩ : ∃ rest, s.idLine = 105 :: rest := ⟨_, rfl⟩
  have htag : idTag <+: s.idLine := ⟨_, rfl⟩
  rw [readText, if_neg (not_skipped hline (by decide)), if_neg (not_tag hline langidxTag rfl),
    if_pos htag, s.scanFields_idLine]
  simp only [List.getD_cons_zero]
  split_ifs <;> rfl

/-- A line of the header keeps what was asked for. -/
theorem readText_header {line : List UInt8} (htimestamp : ¬ timestampTag <+: line)
    (hid : ¬ idTag <+: line) {P : Prop} [Decidable P] :
    (readText members line P).2 = none ∧
      (readText members line P).1.mIdxSubTrackId = members.mIdxSubTrackId := by
  have hnot : ¬ (timestampTag <+: line ∧ P) := fun h => htimestamp h.1
  rw [readText, if_neg hid, if_neg hnot]
  split_ifs <;> exact ⟨rfl, rfl⟩

/-- Any other line of a section keeps the selection. -/
theorem readText_other {line : List UInt8} (htimestamp : ¬ timestampTag <+: line)
    (hid : ¬ idTag <+: line) (hlangidx : ¬ langidxTag <+: line) {P : Prop} [Decidable P] :
    (readText members line P).2 = none ∧
      (readText members line P).1.mIdxSubTrackId = members.mIdxSubTrackId ∧
      (readText members line P).1.mSelectedTrackId = members.mSelectedTrackId ∧
      (readText members line P).1.mVobsubId = members.mVobsubId := by
  have hnot : ¬ (timestampTag <+: line ∧ P) := fun h => htimestamp h.1
  rw [readText, if_neg hlangidx, if_neg hid, if_neg hnot]
  split_ifs <;> exact ⟨rfl, rfl, rfl, rfl⟩

/-- A line that gives no item. -/
theorem itemsOf_cons_none {line : List UInt8}
    (h : (readText members line (HasFilepos line)).2 = none)
    (lines : List (List UInt8)) : itemsOf members (line :: lines) =
      itemsOf (readText members line (HasFilepos line)).1 lines := by
  rw [itemsOf]
  rcases hres : readText members line (HasFilepos line) with ⟨members', _ | item⟩
  · rfl
  · rw [hres] at h
    exact absurd h (Option.some_ne_none item)

/-- The header gives no items. -/
theorem itemsOf_header (rest : List (List UInt8)) (header : List (List UInt8)) :
    ∀ {members : Members}, (∀ l ∈ header, ¬ timestampTag <+: l) → (∀ l ∈ header, ¬ idTag <+: l) →
      select members = members → ∃ members', members'.mIdxSubTrackId = members.mIdxSubTrackId ∧
        select members' = members' ∧ itemsOf members (header ++ rest) = itemsOf members' rest := by
  induction header with
  | nil => exact fun _ _ hselect => ⟨_, rfl, hselect, rfl⟩
  | cons line header ih =>
    intro members htimestamps hids hselect
    obtain ⟨htimestamp, htimestamps⟩ := List.forall_mem_cons.mp htimestamps
    obtain ⟨hid, hids⟩ := List.forall_mem_cons.mp hids
    obtain ⟨hnone, hidx⟩ :=
      @readText_header members line htimestamp hid (HasFilepos line) _
    obtain ⟨members', hidx', hselect', hitems⟩ :=
      ih htimestamps hids (@select_readText members line (HasFilepos line) _ hselect)
    refine ⟨members', hidx'.trans hidx, hselect', ?_⟩
    rw [List.cons_append, itemsOf_cons_none hnone, hitems]

/-- The lines of a section give its units, if its track is selected. -/
theorem itemsOf_indexLines (rest : List (List UInt8)) (lines : List IndexLine) :
    ∀ {members : Members}, ∃ members', members'.mIdxSubTrackId = members.mIdxSubTrackId ∧
      members'.mSelectedTrackId = members.mSelectedTrackId ∧
      itemsOf members (lines.map IndexLine.line ++ rest) =
        ((if members.mVobsubId = members.mSelectedTrackId then
            (lines.filterMap IndexLine.cue?).map (IndexCue.item members.mVobsubId)
          else []) ++ (itemsOf members' rest).1, (itemsOf members' rest).2) := by
  induction lines with
  | nil =>
    intro members
    refine ⟨members, rfl, rfl, ?_⟩
    simp only [List.filterMap_nil, List.map_nil, ite_self, List.nil_append]
  | cons line lines ih =>
    intro members
    cases line with
    | cue c =>
      obtain ⟨members', hidx, hsel, hitems⟩ := @ih members
      refine ⟨members', hidx, hsel, ?_⟩
      rw [List.map_cons, List.cons_append, IndexLine.line, itemsOf, c.readText_line]
      by_cases hown : members.mVobsubId = members.mSelectedTrackId
      · rw [if_pos hown] at hitems ⊢
        dsimp only
        rw [if_pos hown, hitems]
        rfl
      · rw [if_neg hown] at hitems ⊢
        dsimp only
        rw [if_neg hown, hitems]
    | other line htimestamp hid hlangidx =>
      obtain ⟨hnone, hidx, hsel, hvob⟩ :=
        @readText_other members line htimestamp hid hlangidx (HasFilepos line) _
      obtain ⟨members', hidx', hsel', hitems⟩ :=
        @ih (readText members line (HasFilepos line)).1
      refine ⟨members', hidx'.trans hidx, hsel'.trans hsel, ?_⟩
      rw [hvob, hsel] at hitems
      rw [List.map_cons, List.cons_append, IndexLine.line, itemsOf_cons_none hnone, hitems]
      rfl

/-- The sections give the units of the track that is selected for good. -/
theorem itemsOf_sections {selected : ℤ} (hne : selected ≠ -1) (sections : List Section) :
    ∀ {members : Members}, members.mIdxSubTrackId = selected →
      members.mSelectedTrackId = selected → ∃ members', members'.mSelectedTrackId = selected ∧
        itemsOf members (sections.flatMap fun s => s.idLine :: s.lines.map IndexLine.line) =
          (((sections.filter fun s => (s.index.value : ℤ) = selected).flatMap Section.cues).map
            (IndexCue.item selected), members') := by
  induction sections with
  | nil => exact fun _ hsel => ⟨_, hsel, rfl⟩
  | cons s sections ih =>
    intro members hidx hsel
    have hread := @Section.readText_idLine members s (HasFilepos s.idLine) _
    rw [if_neg (hidx.symm ▸ hne)] at hread
    obtain ⟨members', hidx', hsel', hitems⟩ := @itemsOf_indexLines
      (sections.flatMap fun s => s.idLine :: s.lines.map IndexLine.line) s.lines
      { members with mVobsubId := s.index.value }
    obtain ⟨members'', hsel'', hrest⟩ := ih (hidx'.trans hidx) (hsel'.trans hsel)
    refine ⟨members'', hsel'', ?_⟩
    rw [List.flatMap_cons, List.cons_append, itemsOf_cons_none (by rw [hread]), hread, hitems,
      hrest]
    dsimp only
    rw [hsel]
    by_cases hown : (s.index.value : ℤ) = selected
    · have hfilter : (s :: sections).filter (fun s => (s.index.value : ℤ) = selected) =
          s :: sections.filter fun s => (s.index.value : ℤ) = selected :=
        List.filter_cons_of_pos (decide_eq_true hown)
      rw [if_pos hown, hfilter, List.flatMap_cons, List.map_append, hown]
      rfl
    · have hfilter : (s :: sections).filter (fun s => (s.index.value : ℤ) = selected) =
          sections.filter fun s => (s.index.value : ℤ) = selected :=
        List.filter_cons_of_neg fun h => hown (of_decide_eq_true h)
      rw [if_neg hown, hfilter, List.nil_append]

/-- **The items of an index** are the units of the track that is selected. -/
theorem itemsOf_document (d : Document) {idxSubTrackId : ℤ} (hidx : -1 ≤ idxSubTrackId) :
    ∃ members, members.mSelectedTrackId = d.selected idxSubTrackId ∧
      itemsOf (select { mIdxSubTrackId := idxSubTrackId }) d.lines =
        ((d.cuesOf (d.selected idxSubTrackId)).map (IndexCue.item (d.selected idxSubTrackId)),
          members) := by
  have hidem : select (select { mIdxSubTrackId := idxSubTrackId }) =
      select { mIdxSubTrackId := idxSubTrackId } := by
    unfold select
    split_ifs <;> rfl
  have hkept : (select { mIdxSubTrackId := idxSubTrackId }).mIdxSubTrackId = idxSubTrackId := by
    unfold select
    split_ifs <;> rfl
  obtain ⟨members, hidx', hselect, hitems⟩ := itemsOf_header
    ((d.first :: d.others).flatMap fun s => s.idLine :: s.lines.map IndexLine.line) d.header
    d.untimed d.unnumbered hidem
  rw [hkept] at hidx'
  rw [Document.lines, hitems, Document.selected]
  by_cases hnone : idxSubTrackId = -1
  · -- the first section selects its track
    rw [if_pos hnone]
    have hread := @Section.readText_idLine members d.first (HasFilepos d.first.idLine) _
    rw [if_pos (hidx'.trans hnone)] at hread
    obtain ⟨members', hidx'', hsel', hlines⟩ := @itemsOf_indexLines
      (d.others.flatMap fun s => s.idLine :: s.lines.map IndexLine.line) d.first.lines
      { members with
          mVobsubId := d.first.index.value
          mSelectedTrackId := d.first.index.value
          mIdxSubTrackId := d.first.index.value }
    obtain ⟨members'', hsel'', hrest⟩ := itemsOf_sections
      (show (d.first.index.value : ℤ) ≠ -1 by omega) d.others hidx'' hsel'
    refine ⟨members'', hsel'', ?_⟩
    have hfilter : (d.first :: d.others).filter
        (fun s => (s.index.value : ℤ) = d.first.index.value) =
        d.first :: d.others.filter fun s => (s.index.value : ℤ) = d.first.index.value :=
      List.filter_cons_of_pos (decide_eq_true rfl)
    rw [List.flatMap_cons, List.cons_append, itemsOf_cons_none (by rw [hread]), hread, hlines,
      hrest, Document.cuesOf, hfilter, List.flatMap_cons, List.map_append, if_pos rfl]
    rfl
  · rw [if_neg hnone]
    have hsel : members.mSelectedTrackId = idxSubTrackId := by
      rw [select, if_pos (by omega)] at hselect
      rw [← hidx']
      exact (congrArg Members.mSelectedTrackId hselect).symm
    exact itemsOf_sections hnone (d.first :: d.others) hidx' hsel

end Documents

/-- The index tells where each unit stands, and on which track. -/
structure Indexes (d : Document) (units : List SubUnit) : Prop where
  placed : ∀ s ∈ d.first :: d.others, ∀ cue ∈ s.cues, ∃ before after,
    units = before ++ cue.unit :: after ∧
      hexValue cue.place.digits = (before.flatMap SubUnit.bytes).length
  numbered : ∀ s ∈ d.first :: d.others, ∀ cue ∈ s.cues, cue.unit.track = s.index.value

theorem IndexCue.length_line (cue : IndexCue) : 33 ≤ cue.line.length := by
  have htag : timestampTag.length = 10 := rfl
  have hplace : fileposTag.length = 8 := rfl
  rw [IndexCue.line]
  simp only [List.length_append, List.length_cons, length_padded, htag, hplace]
  omega

/-- The lines of an index are long enough. -/
theorem Document.isWhole (d : Document) : ∀ l ∈ d.lines, IsWhole l := by
  intro l hl
  rcases List.mem_append.mp hl with hl | hl
  · exact fun h => absurd h (d.untimed l hl)
  · obtain ⟨s, -, hl⟩ := List.mem_flatMap.mp hl
    rcases List.mem_cons.mp hl with rfl | hl
    · obtain ⟨rest, hline⟩ : ∃ rest, s.idLine = 105 :: rest := ⟨_, rfl⟩
      exact fun h => absurd h (not_tag hline timestampTag rfl)
    · obtain ⟨line, -, rfl⟩ := List.mem_map.mp hl
      cases line with
      | cue c => exact fun _ => c.length_line
      | other line htimestamp => exact fun h => absurd h htimestamp

/-- **The units of the track that is selected are presented**: of an index and the file of its units
come exactly the units of this track, in their order, each at its time and with the picture that is
drawn of its bytes. -/
theorem presents_track (d : Document) (index : TextFile d.lines) {units : List SubUnit}
    (hindex : Indexes d units) {tail file : List UInt8}
    (hfile : file = units.flatMap SubUnit.bytes ++ tail) (hsmall : file.length < 2 ^ 31)
    {idxSubTrackId : ℤ} (hidx : -1 ≤ idxSubTrackId) (n : ℕ) {source : List Chunk}
    (hsource : bytesOf source = index.content) (stack : ℕ → Memory) (palette : ℤ → ℕ)
    (video : ℕ × ℕ) (junk : Source) {fuel : ℕ} (hfuel : file.length < fuel) (mpg : Mpeg) :
    ∃ items members, decodeSubtitles idxSubTrackId (create (index.content.take n) source) stack =
        (items, members) ∧
      (popAll members.mSelectedTrackId (items.length + 1) items).map (fun spu =>
        (spu.pts, genSubBitmap file members.mSelectedTrackId palette
          (members.mOrigFrameWidth, members.mOrigFrameHeight) video junk fuel mpg
            spu.pts spu.pos)) =
      (d.cuesOf (d.selected idxSubTrackId)).map fun cue =>
        (cue.time.pts, renderUnit palette (members.mOrigFrameWidth, members.mOrigFrameHeight) video
          cue.time.pts (behind cue.unit.data junk) fuel) := by
  obtain ⟨members, hsel, hitems⟩ := itemsOf_document d hidx
  refine ⟨_, members, (decodeSubtitles_of_delivers d.isWhole (index.deliversAll n hsource)
    idxSubTrackId stack).trans hitems, ?_⟩
  have hall : ((d.cuesOf (d.selected idxSubTrackId)).map
      (IndexCue.item (d.selected idxSubTrackId))).filter
        (·.subId = d.selected idxSubTrackId) =
      (d.cuesOf (d.selected idxSubTrackId)).map (IndexCue.item (d.selected idxSubTrackId)) := by
    refine List.filter_eq_self.mpr fun item hitem => ?_
    obtain ⟨cue, -, rfl⟩ := List.mem_map.mp hitem
    exact decide_eq_true rfl
  rw [hsel, popAll_eq _ _ (Nat.lt_succ_self _), hall, List.map_map, List.map_map]
  refine List.map_congr_left fun cue hcue => ?_
  obtain ⟨s, hs, hcue⟩ := List.mem_flatMap.mp hcue
  obtain ⟨hs, hown⟩ := List.mem_filter.mp hs
  obtain ⟨before, after, hunits, hplace⟩ := hindex.placed s hs cue hcue
  have htrack : d.selected idxSubTrackId = cue.unit.track := by
    rw [hindex.numbered s hs cue hcue]
    exact (of_decide_eq_true hown).symm
  have hdraw := genSubBitmap_unit hunits hfile hsmall (d.selected idxSubTrackId) palette
    (members.mOrigFrameWidth, members.mOrigFrameHeight) video junk hfuel mpg cue.time.pts
  rw [if_pos htrack, ← hplace] at hdraw
  exact congrArg (Prod.mk cue.time.pts) hdraw

/-- An index with a track of no commands and one of a picture. -/
def twoTracks : Document where
  header := [[35, 32, 86], langidxTag ++ [32, 48]]
  first := ⟨(101, 110), twoDigits 0, [.cue ⟨SubViewer.trailingBlank.start,
    ⟨[48, 48], by decide, by decide +kernel, by decide⟩, emptyUnit⟩], rfl, rfl⟩
  others := [⟨(102, 114), twoDigits 1, [.cue ⟨SubViewer.trailingBlank.stop,
    ⟨[48, 101], by decide, by decide +kernel, by decide⟩, twoLines⟩], rfl, rfl⟩]
  untimed := by decide
  unnumbered := by decide

theorem indexes_twoTracks : Indexes twoTracks [emptyUnit, twoLines] where
  placed := by
    intro s hs cue hcue
    rcases List.mem_pair.mp hs with rfl | rfl
    · rw [List.eq_of_mem_singleton hcue]
      exact ⟨[], [twoLines], rfl, rfl⟩
    · rw [List.eq_of_mem_singleton hcue]
      exact ⟨[emptyUnit], [], rfl, rfl⟩
  numbered := by
    intro s hs cue hcue
    rcases List.mem_pair.mp hs with rfl | rfl
    · rw [List.eq_of_mem_singleton hcue]
      rfl
    · rw [List.eq_of_mem_singleton hcue]
      rfl

/-- Of track 1 comes the picture, two seconds after the beginning. -/
theorem presents_twoTracks : ∃ items members,
    decodeSubtitles 1 (create [] (oneByOne (joinLines twoTracks.lines)))
        (fun _ => ⟨0, []⟩) = (items, members) ∧
      (popAll members.mSelectedTrackId (items.length + 1) items).map (fun spu =>
        (spu.pts, genSubBitmap ([emptyUnit, twoLines].flatMap SubUnit.bytes)
          members.mSelectedTrackId (fun _ => 0) (members.mOrigFrameWidth, members.mOrigFrameHeight)
          (720, 576) (fun _ => 0) 100 ⟨0, 0, -1, [], 0⟩ spu.pts spu.pos)) =
      [(180000, renderUnit (fun _ => 0) (members.mOrigFrameWidth, members.mOrigFrameHeight)
        (720, 576) 180000 (behind twoLines.data fun _ => 0) 100)] :=
  @presents_track twoTracks (TextFile.ofPlain _ (by decide) rfl) _ indexes_twoTracks [] _
    (List.append_nil _).symm (by decide) 1 (by decide) 0
    (oneByOne (joinLines twoTracks.lines)) (bytesOf_oneByOne _) (fun _ => ⟨0, []⟩)
    (fun _ => 0) (720, 576) (fun _ => 0) 100 (by decide) ⟨0, 0, -1, [], 0⟩

end VobSub
end AmlSubtitle
