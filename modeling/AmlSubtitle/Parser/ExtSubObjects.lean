import AmlSubtitle.Parser.ExtSubDelivery

/-!
# Decoders that keep members between two items

`decodeSubtitles` calls the method `decodedItem` of one object until it returns a null pointer.
The decoders of some formats keep something from one call to the next: the frame rate of the file,
or a line that was read ahead.

* `ObjectDecoder σ` is such a method, and `σ` what its object keeps.
* `DeliversAll`: the lines are delivered, and no call after them reads on.
* `TakesFirstFrom` says what a call does with the lines that are delivered, and
  `decodeObjectSubtitles_of_delivers` what all calls do.
* `TextFile ls` is a file with the lines `ls`, in one or the other kind of newline.
* `findInLines parse` is the loop of the decoders that look at one line at a time, and
  `decodeObjectSubtitles_findInLines` what comes of it: the items of the lines.
-/

namespace AmlSubtitle
namespace ExtSubStreamReader

open Lines

/-- The calls of `getLine` give the lines, and from then on no more. -/
def DeliversAll : Reader → List (List UInt8) → Prop
  | r, [] => Ready r []
  | r, l :: ls => ∀ s, ∃ m r', getLine r s = (some m, r') ∧ m.string = l ∧ DeliversAll r' ls

theorem DeliversAll.nil {r : Reader} (h : DeliversAll r []) (s : Memory) :
    ∃ r', getLine r s = (none, r') ∧ DeliversAll r' [] :=
  ⟨(getLine r s).2, Prod.ext (getLine_nil h s).1 rfl, (getLine_nil h s).2⟩

theorem DeliversAll.delivers {r : Reader} {ls : List (List UInt8)} (h : DeliversAll r ls) :
    Delivers r ls := by
  induction ls generalizing r with
  | nil => exact fun s => (getLine_nil h s).1
  | cons l ls ih =>
    intro s
    obtain ⟨m, r', hget, hm, hrest⟩ := h s
    exact ⟨m, r', hget, hm, ih hrest⟩

theorem DeliversAll.length_le {r : Reader} {ls : List (List UInt8)} (h : DeliversAll r ls) :
    ls.length ≤ (toRead r).length := h.delivers.length_le

/-- A file that can be read is delivered to its end. -/
theorem deliversAll_of_isReadable (crlf : Bool) {content : List UInt8} {r : Reader}
    (hready : Ready r content) (hcontent : IsReadable crlf content) :
    DeliversAll r (lines crlf content) := by
  induction hn : content.length using Nat.strong_induction_on generalizing r content with
  | _ n ih =>
    rcases cases_text content with rfl | ⟨hne, h10⟩ | ⟨l, rest, h10, rfl⟩
    · exact hready
    · obtain ⟨c, hc⟩ := Option.isSome_iff_exists.mp (List.getLast?_isSome.mpr hne)
      exact absurd (hcontent.ended c hc ▸ List.mem_of_getLast? hc) h10
    · obtain ⟨⟨h0, hlen, hcr⟩, hrest⟩ := (isReadable_append crlf h10 rest).mp hcontent
      rw [lines_append crlf h10]
      intro s
      obtain ⟨m, r', hget, hm, hready', -⟩ :=
        getLine_line hready (not_isEol_of_mem h10 h0) (Or.inl rfl) hlen s
      refine ⟨m, r', hget, hm.trans (stripCr_eq_lineOf hcr), ih rest.length ?_ hready' hrest rfl⟩
      rw [← hn, List.length_append, List.length_cons]
      omega

/-- A file with the lines `ls`. -/
structure TextFile (ls : List (List UInt8)) where
  crlf : Bool
  content : List UInt8
  readable : IsReadable crlf content
  lines_eq : lines crlf content = ls
  no_bom : ∀ c ∈ content.head?, c.toNat < 0xF8

/-- The lines of a file are delivered, however it is read. -/
theorem TextFile.deliversAll {ls : List (List UInt8)} (file : TextFile ls) (n : ℕ)
    {source : List Chunk} (hsource : bytesOf source = file.content) :
    DeliversAll (create (file.content.take n) source) ls := by
  have h := deliversAll_of_isReadable file.crlf (ready_create file.no_bom n hsource) file.readable
  rwa [file.lines_eq] at h

theorem TextFile.delivers {ls : List (List UInt8)} (file : TextFile ls) (n : ℕ)
    {source : List Chunk} (hsource : bytesOf source = file.content) :
    Delivers (create (file.content.take n) source) ls := (file.deliversAll n hsource).delivers

/-- The lines have no more bytes than the text. -/
theorem length_flatten_lines_le (crlf : Bool) (content : List UInt8) :
    (lines crlf content).flatten.length ≤ content.length := by
  induction content with
  | nil => exact le_rfl
  | cons c s ih =>
    rw [lines]
    split_ifs
    · exact ih.trans (Nat.le_succ _)
    · exact ih.trans (Nat.le_succ _)
    · split
      · exact Nat.succ_le_succ (Nat.zero_le _)
      · next l ls heq =>
        rw [heq] at ih
        exact Nat.succ_le_succ ih

/-- There are bytes enough for the lines of a file. -/
theorem TextFile.length_flatten_le {ls : List (List UInt8)} (file : TextFile ls) (n : ℕ)
    {source : List Chunk} (hsource : bytesOf source = file.content) :
    ls.flatten.length ≤ (toRead (create (file.content.take n) source)).length := by
  have hready := ready_create file.no_bom n hsource
  have hle := length_flatten_lines_le file.crlf file.content
  rw [file.lines_eq] at hle
  rwa [toRead, hready.toRead]

/-- The file that has some plain lines, each with a line feed. -/
def TextFile.ofPlain (ls : List (List UInt8)) (h : ∀ l ∈ ls, IsPlain l)
    (hhead : ((joinLines ls).head?.all fun c => c.toNat < 0xF8) = true) : TextFile ls where
  crlf := false
  content := joinLines ls
  readable := (isReadable_joinLines h).2
  lines_eq := (isReadable_joinLines h).1
  no_bom := fun c hc => of_decide_eq_true (Option.all_eq_true _ _ |>.mp hhead c hc)

end ExtSubStreamReader

namespace TextSubtitle

open ExtSubStreamReader Scanf

variable {σ : Type}

/-! ## The loop over the items -/

/-- A decoder with the members of its object. -/
abbrev ObjectDecoder (σ : Type) := σ → Reader → Memory → Option ExtSubItem × σ × Reader

/-- The loop of `decodeSubtitles`; `stack i` is what the buffer has at the `i`-th call. -/
def decodeObjectItems (decodedItem : ObjectDecoder σ) :
    ℕ → σ → Reader → (ℕ → Memory) → List ExtSubItem
  | 0, _, _, _ => []
  | fuel + 1, members, r, stack =>
    match decodedItem members r (stack 0) with
    | (none, _) => []
    | (some item, members, r) =>
      finishItem item :: decodeObjectItems decodedItem fuel members r fun i => stack (i + 1)

/-- `decodeSubtitles`, of an object as its constructor leaves it. -/
def decodeObjectSubtitles (decodedItem : ObjectDecoder σ) (members : σ) (r : Reader)
    (stack : ℕ → Memory) : List ExtSubItem :=
  decodeObjectItems decodedItem ((toRead r).length + 1) members r stack

/-- The decoder takes the first of the items of some lines, and leaves the lines of the others. -/
def TakesFirstFrom (decodedItem : ObjectDecoder σ)
    (items : σ → List (List UInt8) → List ExtSubItem) : Prop :=
  ∀ members r lines s, DeliversAll r lines →
    items members lines = [] ∧ (decodedItem members r s).1 = none ∨
    ∃ item members' rest r', items members lines = item :: items members' rest ∧
      decodedItem members r s = (some item, members', r') ∧ DeliversAll r' rest

/-- The loop has all items, if its fuel is enough for them. -/
theorem decodeObjectItems_of_delivers {decodedItem : ObjectDecoder σ}
    {items : σ → List (List UInt8) → List ExtSubItem} (htakes : TakesFirstFrom decodedItem items)
    (fuel : ℕ) : ∀ {members : σ} {r : Reader} {lines : List (List UInt8)} (stack : ℕ → Memory),
      DeliversAll r lines → (items members lines).length < fuel →
      decodeObjectItems decodedItem fuel members r stack =
        (items members lines).map finishItem := by
  induction fuel with
  | zero => exact fun _ _ h => absurd h (Nat.not_lt_zero _)
  | succ fuel ih =>
    intro members r lines stack h hlt
    rw [decodeObjectItems]
    rcases htakes members r lines (stack 0) h with ⟨hnil, hnone⟩ |
      ⟨item, members', rest, r', hitems, hitem, hdelivers⟩
    · obtain ⟨p, hp⟩ : ∃ p, decodedItem members r (stack 0) = (none, p) :=
        ⟨(decodedItem members r (stack 0)).2, Prod.ext hnone rfl⟩
      rw [hp, hnil]
      rfl
    · rw [hitems, List.length_cons] at hlt
      rw [hitem, hitems, List.map_cons]
      exact congrArg _ (ih _ hdelivers (Nat.lt_of_succ_lt_succ hlt))

/-- **All items of the lines** are decoded, if no line has more than one. -/
theorem decodeObjectSubtitles_of_delivers {decodedItem : ObjectDecoder σ}
    {items : σ → List (List UInt8) → List ExtSubItem} (htakes : TakesFirstFrom decodedItem items)
    {members : σ} {r : Reader} {lines : List (List UInt8)} (h : DeliversAll r lines)
    (hle : (items members lines).length ≤ (toRead r).length) (stack : ℕ → Memory) :
    decodeObjectSubtitles decodedItem members r stack = (items members lines).map finishItem :=
  decodeObjectItems_of_delivers htakes _ stack h (Nat.lt_succ_of_le hle)

/-! ## One line at a time -/

/-- `memset` of a line buffer of `n` bytes that `malloc` returned. -/
def clear (n : ℕ) (s : Memory) : Memory := { s with bytes := List.replicate n 0 }

/-- A loop that reads lines up to one that is an item. -/
def findInLines (parse : σ → List UInt8 → σ × Option ExtSubItem) : ℕ → ObjectDecoder σ
  | 0, members, r, _ => (none, members, r)
  | fuel + 1, members, r, line =>
    match getLine r line with
    | (none, r) => (none, members, r)
    | (some line, r) =>
      match parse members line.string with
      | (members, none) => findInLines parse fuel members r line
      | (members, some item) => (some item, members, r)

/-- The items of some lines. -/
def itemsOfLines (parse : σ → List UInt8 → σ × Option ExtSubItem) :
    σ → List (List UInt8) → List ExtSubItem
  | _, [] => []
  | members, line :: lines =>
    match parse members line with
    | (members, none) => itemsOfLines parse members lines
    | (members, some item) => item :: itemsOfLines parse members lines

variable {parse : σ → List UInt8 → σ × Option ExtSubItem}

theorem itemsOfLines_cons_none {members members' : σ} {line : List UInt8}
    (h : parse members line = (members', none)) (lines : List (List UInt8)) :
    itemsOfLines parse members (line :: lines) = itemsOfLines parse members' lines := by
  rw [itemsOfLines, h]

theorem itemsOfLines_cons_some {members members' : σ} {line : List UInt8} {item : ExtSubItem}
    (h : parse members line = (members', some item)) (lines : List (List UInt8)) :
    itemsOfLines parse members (line :: lines) = item :: itemsOfLines parse members' lines := by
  rw [itemsOfLines, h]

theorem length_itemsOfLines_le (lines : List (List UInt8)) :
    ∀ members : σ, (itemsOfLines parse members lines).length ≤ lines.length := by
  induction lines with
  | nil => exact fun _ => le_rfl
  | cons line lines ih =>
    intro members
    rw [itemsOfLines]
    split
    · exact (ih _).trans (Nat.le_succ _)
    · exact Nat.succ_le_succ (ih _)

/-- **The loop over lines** stops at the first one that is an item. -/
theorem findInLines_of_delivers (lines : List (List UInt8)) :
    ∀ (members : σ) {r : Reader} (s : Memory) (fuel : ℕ), DeliversAll r lines →
      lines.length < fuel →
      itemsOfLines parse members lines = [] ∧ (findInLines parse fuel members r s).1 = none ∨
      ∃ item members' rest r', itemsOfLines parse members lines =
          item :: itemsOfLines parse members' rest ∧
        findInLines parse fuel members r s = (some item, members', r') ∧ DeliversAll r' rest := by
  induction lines with
  | nil =>
    intro members r s fuel h hlt
    obtain ⟨fuel, rfl⟩ := Nat.exists_eq_succ_of_ne_zero (Nat.ne_zero_of_lt hlt)
    obtain ⟨r', hget, -⟩ := h.nil s
    refine .inl ⟨rfl, ?_⟩
    rw [findInLines, hget]
  | cons line lines ih =>
    intro members r s fuel h hlt
    obtain ⟨fuel, rfl⟩ := Nat.exists_eq_succ_of_ne_zero (Nat.ne_zero_of_lt hlt)
    obtain ⟨m, r', hget, hm, hrest⟩ := h s
    rw [findInLines, hget]
    dsimp only
    rw [hm]
    cases hparse : parse members line with
    | mk members' found =>
      cases found with
      | none =>
        rw [itemsOfLines_cons_none hparse]
        exact ih members' m fuel hrest (Nat.lt_of_succ_lt_succ hlt)
      | some item =>
        exact .inr ⟨item, members', lines, r', itemsOfLines_cons_some hparse lines, rfl, hrest⟩

/-- A decoder whose calls run the loop over lines with fuel enough, on a buffer of its own. -/
theorem takesFirstFrom_findInLines (buffer : Memory → Memory) :
    TakesFirstFrom (fun members r s =>
      findInLines parse ((toRead r).length + 1) members r (buffer s)) (itemsOfLines parse) :=
  fun members _ lines s h =>
    findInLines_of_delivers lines members (buffer s) _ h (Nat.lt_succ_of_le h.length_le)

/-- **A decoder that looks at one line at a time** decodes the items of the lines. -/
theorem decodeObjectSubtitles_findInLines (buffer : Memory → Memory) {members : σ} {r : Reader}
    {lines : List (List UInt8)} (h : DeliversAll r lines) (stack : ℕ → Memory) :
    decodeObjectSubtitles (fun members r s =>
        findInLines parse ((toRead r).length + 1) members r (buffer s)) members r stack =
      (itemsOfLines parse members lines).map finishItem :=
  decodeObjectSubtitles_of_delivers (takesFirstFrom_findInLines buffer) h
    ((length_itemsOfLines_le lines members).trans h.length_le) stack

end TextSubtitle
end AmlSubtitle
