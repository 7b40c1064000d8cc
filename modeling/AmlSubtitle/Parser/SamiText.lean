import AmlSubtitle.Parser.SamiBody

/-!
# The text buffer of the SAMI decoder

The buffer `text` has the row that is written up to the place `p`, and behind it what is left of the
rows before.

* `Sheet`: the rows, in a buffer with no end.
* `Shows`: the variables are those of a sheet, and `Shows.of_copyPieces`: they stay so.
* `Shows.isSome_copyPieces_iff`: the writes are in bounds exactly if the sheet fits in the buffer.
* `any_isVisible_rows`: something is to be seen in the rows exactly if there is in a piece.
* `Block.isSome_copied_iff`, `Block.lines_copied_iff`: both for a block that another one follows.
-/

namespace AmlSubtitle
namespace Sami

open Scanf ExtSubStreamReader

/-! ## Sheets -/

/-- Something is to be seen in a row. -/
def isVisible (row : List UInt8) : Bool := row.any (!isSpace ·)

/-- A row with no blanks around it. -/
def trimmed (row : List UInt8) : List UInt8 := (row.dropWhile isSpace).rdropWhile isSpace

/-- The rows that were ended, the one that is written, and what stands behind it in the buffer, up
to the last byte that was written. -/
structure Sheet where
  ended : List (List UInt8)
  row : List UInt8
  behind : List UInt8

/-- All rows. -/
def Sheet.rows (sheet : Sheet) : List (List UInt8) := sheet.ended ++ [sheet.row]

/-- The bytes that were written. -/
def Sheet.extent (sheet : Sheet) : ℕ := sheet.row.length + sheet.behind.length

/-- The sheet fits in the buffer. -/
def Sheet.Fits (sheet : Sheet) : Prop := sheet.extent ≤ LINE_LEN + 1

/-- A character is put behind the row; of some spaces two are kept at the beginning, else one. -/
def Sheet.put (sheet : Sheet) (c : UInt8) : Sheet :=
  if c = 32 ∧ 2 ≤ sheet.row.length ∧ sheet.row.getLast? = some 32 then
    { sheet with behind := 32 :: sheet.behind.drop 1 }
  else { sheet with row := sheet.row ++ [c], behind := sheet.behind.drop 1 }

/-- The row is ended, and stays behind the next one. -/
def Sheet.endRow (sheet : Sheet) : Sheet where
  ended := sheet.rows
  row := []
  behind := trimmed sheet.row ++
    (List.replicate (sheet.row.length + 1 - (trimmed sheet.row).length) 0 ++ sheet.behind.drop 1)

/-- A run of characters is written. -/
def Sheet.writeRun : ℕ → Sheet → List UInt8 → Sheet
  | _, sheet, [] => sheet
  | k + 1, sheet, _ :: t => Sheet.writeRun k sheet t
  | 0, sheet, c :: t =>
    if startsWithI nbsp (c :: t) then Sheet.writeRun 5 (sheet.put 32) t
    else if c = 9 then Sheet.writeRun 0 (sheet.put 32) t
    else if c = 13 ∨ c = 10 then Sheet.writeRun 0 sheet t
    else Sheet.writeRun 0 (sheet.put c) t

/-- A piece is written. -/
def Sheet.write (sheet : Sheet) : Piece → Sheet
  | .text t => Sheet.writeRun 0 sheet t
  | .tag t =>
    if isBr t then sheet.endRow
    else if isSkipped t then sheet
    else Sheet.writeRun 0 sheet (60 :: (t ++ [62]))

/-- Some pieces are written on an empty sheet. -/
def sheetOf (ps : List Piece) : Sheet := ps.foldl Sheet.write ⟨[], [], []⟩

/-! ## Rows -/

theorem length_trimmed_le (row : List UInt8) : (trimmed row).length ≤ row.length :=
  (List.rdropWhile_prefix isSpace _).length_le.trans (List.dropWhile_suffix isSpace).length_le

theorem zero_notMem_trimmed {row : List UInt8} (h : 0 ∉ row) : 0 ∉ trimmed row := fun h0 =>
  h ((List.dropWhile_suffix isSpace).subset ((List.rdropWhile_prefix isSpace _).subset h0))

/-- Something is left of a row in which there is something to be seen. -/
theorem trimmed_ne_nil_iff {row : List UInt8} :
    trimmed row ≠ [] ↔ isVisible row = true := by
  rw [trimmed, Ne, List.rdropWhile_eq_nil_iff, isVisible, List.any_eq_true]
  constructor
  · intro h
    simp only [not_forall, Bool.not_eq_true] at h
    obtain ⟨c, hc, hspace⟩ := h
    exact ⟨c, (List.dropWhile_suffix isSpace).subset hc, by rw [hspace]; rfl⟩
  · rintro ⟨c, hc, hspace⟩ hall
    have hne : row.dropWhile isSpace ≠ [] := by
      intro hnil
      rw [List.dropWhile_eq_nil_iff.mp hnil c hc] at hspace
      exact absurd hspace (by decide)
    have hhead := List.head_dropWhile_not isSpace hne
    rw [hall _ (List.head_mem hne)] at hhead
    exact absurd hhead (by decide)

/-- What is to be seen in a row is not trimmed off. -/
theorem isVisible_trimmed (row : List UInt8) : isVisible (trimmed row) = isVisible row := by
  rw [Bool.eq_iff_iff, ← @trimmed_ne_nil_iff row]
  constructor
  · rintro h hnil
    rw [hnil] at h
    exact absurd h Bool.false_ne_true
  · intro hne
    have hlast : ¬ isSpace ((trimmed row).getLast hne) = true :=
      List.rdropWhile_last_not isSpace (row.dropWhile isSpace) hne
    refine List.any_eq_true.mpr ⟨_, List.getLast_mem hne, ?_⟩
    rw [(Bool.not_eq_true _).mp hlast]
    rfl

/-- A row with a null behind it is trimmed. -/
theorem trimSpace_row {row : List UInt8} (h : 0 ∉ row) (behind : List UInt8) :
    trimSpace (row ++ 0 :: behind) = some (trimmed row ++
      0 :: (List.replicate (row.length - (trimmed row).length) 0 ++ behind)) := by
  have hlen := length_trimmed_le row
  have hdrop : (row ++ 0 :: behind).drop (row.length + 1) = behind := by
    rw [← List.drop_drop, List.drop_left]
    rfl
  rw [trimSpace, Lines.string_append h, ← trimmed, if_pos, hdrop,
    show row.length + 1 - (trimmed row).length = row.length - (trimmed row).length + 1 by omega,
    List.replicate_succ]
  · rfl
  · rw [List.length_append, List.length_cons]
    omega

/-- Nulls behind a string make no difference. -/
theorem string_append_replicate (s : List UInt8) (n : ℕ) :
    Lines.string (s ++ List.replicate n 0) = Lines.string s := by
  induction s with
  | nil => cases n <;> rfl
  | cons c s ih =>
    rw [Lines.string, Lines.string] at ih
    rw [List.cons_append, Lines.string, Lines.string, List.takeWhile_cons, List.takeWhile_cons, ih]

/-- A buffer is trimmed if there is a null in it. -/
theorem string_trimSpace (text : List UInt8) : (trimSpace text).map Lines.string =
    if (Lines.string text).length < text.length then some (trimmed (Lines.string text))
    else none := by
  have htrimmed := length_trimmed_le (Lines.string text)
  rw [trimSpace, ← trimmed]
  split_ifs
  · have hsucc : (Lines.string text).length + 1 - (trimmed (Lines.string text)).length =
        (Lines.string text).length - (trimmed (Lines.string text)).length + 1 := by omega
    rw [Option.map_some, hsucc, List.replicate_succ, List.cons_append,
      Lines.string_append (zero_notMem_trimmed (Lines.zero_notMem_string text))]
  · rfl

/-! ## The buffer of a sheet -/

/-- The variables are those of a sheet. -/
structure Shows (v : Vars) (sheet : Sheet) : Prop where
  text_eq : v.text =
    sheet.row ++ (sheet.behind ++ List.replicate (LINE_LEN + 1 - sheet.extent) 0)
  fits : sheet.Fits
  p_eq : v.p = sheet.row.length
  no_null : 0 ∉ sheet.row
  squeezed : 3 ≤ sheet.row.length → sheet.row.getLast? = some 32 →
    sheet.row.dropLast.getLast? ≠ some 32
  lines_eq : v.lines = (sheet.ended.map trimmed).filter (· ≠ [])

section Row

variable {v v' : Vars} {sheet : Sheet} {c : UInt8}

theorem Shows.length_text (h : Shows v sheet) : v.text.length = LINE_LEN + 1 := by
  have hfits := h.fits
  rw [Sheet.Fits, Sheet.extent] at hfits
  rw [h.text_eq, List.length_append, List.length_append, List.length_replicate, Sheet.extent]
  omega

theorem squeeze_snoc {row behind : List UInt8} (htext : v.text = row ++ c :: behind)
    (hp : v.p = row.length + 1) : squeeze v =
      if c = 32 ∧ 2 ≤ row.length ∧ row.getLast? = some 32 then { v with p := row.length }
      else v := by
  have hlast : v.text[v.p - 1]? = some c := by
    rw [htext, hp, Nat.add_sub_cancel, List.getElem?_append_right le_rfl, Nat.sub_self]
    rfl
  have hbefore : 2 ≤ row.length → v.text[row.length + 1 - 2]? = row.getLast? := by
    intro hlen
    rw [htext, List.getLast?_eq_getElem?, List.getElem?_append_left (by omega)]
    rfl
  rw [squeeze, hlast]
  refine if_congr ?_ (by rw [hp, Nat.add_sub_cancel]) rfl
  rw [hp]
  constructor
  · rintro ⟨hlen, hc, hspace⟩
    have h2 : 2 ≤ row.length := by omega
    exact ⟨Option.some.inj hc, h2, hbefore h2 ▸ hspace⟩
  · rintro ⟨hc, hlen, hspace⟩
    exact ⟨by omega, congrArg some hc, (hbefore hlen).trans hspace⟩

/-- No space is duplicated in a row. -/
theorem Shows.squeeze_eq (h : Shows v sheet) : squeeze v = v := by
  have htext := h.text_eq
  have hsqueezed := h.squeezed
  have hp := h.p_eq
  rcases List.eq_nil_or_concat sheet.row with hrow | ⟨row, d, hrow⟩
  · rw [hrow] at hp
    exact if_neg fun hmore => absurd hmore.1 (by rw [hp]; decide)
  · rw [hrow, List.concat_eq_append] at htext hsqueezed hp
    rw [List.append_assoc] at htext
    rw [List.length_append, List.getLast?_concat, List.dropLast_concat] at hsqueezed
    rw [squeeze_snoc htext (hp.trans List.length_append), if_neg]
    rintro ⟨rfl, hlen, hspace⟩
    exact hsqueezed (Nat.succ_le_succ hlen) rfl hspace

/-- What stands in the buffer where the byte behind the row is `c`. -/
def Sheet.bytesWith (sheet : Sheet) (c : UInt8) : List UInt8 :=
  sheet.row ++ c :: (sheet.behind.drop 1 ++
    List.replicate (LINE_LEN - sheet.row.length - (sheet.behind.drop 1).length) 0)

/-- The byte behind the row is written. -/
theorem Shows.write_eq (h : Shows v sheet) (c : UInt8) : write v.text v.p c =
    if sheet.row.length ≤ LINE_LEN then some (sheet.bytesWith c) else none := by
  rw [write, h.length_text, h.p_eq]
  by_cases hle : sheet.row.length ≤ LINE_LEN
  · rw [if_pos (Nat.lt_succ_of_le hle), if_pos hle, h.text_eq,
      List.set_append_right _ _ le_rfl, Nat.sub_self, Sheet.extent, Sheet.bytesWith]
    refine congrArg (fun bytes => some (sheet.row ++ bytes)) ?_
    cases sheet.behind with
    | nil =>
      rw [List.length_nil,
        show LINE_LEN + 1 - (sheet.row.length + 0) = LINE_LEN - sheet.row.length + 1 by omega,
        List.replicate_succ]
      rfl
    | cons b behind =>
      rw [List.length_cons, List.drop_succ_cons, List.drop_zero, List.cons_append,
        List.set_cons_zero]
      exact congrArg (fun n => c :: (behind ++ List.replicate n 0)) (by omega)
  · rw [if_neg fun hlt => hle (Nat.le_of_lt_succ hlt), if_neg hle]

/-- A character takes its place. -/
theorem Sheet.length_lt_extent_put (sheet : Sheet) (c : UInt8) :
    sheet.row.length < (sheet.put c).extent ∧ sheet.extent ≤ (sheet.put c).extent := by
  rw [Sheet.put, Sheet.extent]
  split_ifs
  · rw [Sheet.extent]
    dsimp only
    rw [List.length_cons, List.length_drop]
    omega
  · rw [Sheet.extent]
    dsimp only
    rw [List.length_append, List.length_singleton, List.length_drop]
    omega

theorem Shows.isSome_put (h : Shows v sheet) (hfits : (sheet.put c).Fits) : (put v c).isSome := by
  have hlt := (sheet.length_lt_extent_put c).1.trans_le hfits
  rw [Sami.put, h.write_eq, if_pos (Nat.le_of_lt_succ hlt)]
  rfl

/-- **A character** is put. -/
theorem Shows.of_put (h : Shows v sheet) (hc : c ≠ 0) (hput : put v c = some v') :
    Shows v' (sheet.put c) := by
  have hfits := h.fits
  rw [Sheet.Fits, Sheet.extent] at hfits
  obtain ⟨text, hwrite, rfl⟩ := Option.map_eq_some_iff.mp hput
  rw [h.write_eq] at hwrite
  split_ifs at hwrite with hle
  obtain rfl := Option.some.inj hwrite
  have hsqueeze := squeeze_snoc (v := { v with text := sheet.bytesWith c, p := v.p + 1 }) rfl
    (congrArg (· + 1) h.p_eq)
  rw [hsqueeze, Sheet.put]
  split_ifs with hspace
  · refine ⟨?_, ?_, rfl, h.no_null, h.squeezed, h.lines_eq⟩
    · rw [Sheet.bytesWith, hspace.1, Sheet.extent]
      dsimp only
      rw [List.length_cons, List.cons_append]
      congr 4
      omega
    · rw [Sheet.Fits, Sheet.extent]
      dsimp only
      rw [List.length_cons, List.length_drop]
      omega
  · refine ⟨?_, ?_, ?_, ?_, ?_, h.lines_eq⟩
    · rw [Sheet.bytesWith, Sheet.extent]
      dsimp only
      rw [List.length_append, List.length_singleton, List.append_assoc, List.singleton_append]
      congr 4
      omega
    · rw [Sheet.Fits, Sheet.extent]
      dsimp only
      rw [List.length_append, List.length_singleton, List.length_drop]
      omega
    · rw [List.length_append, h.p_eq]
      rfl
    · rw [List.mem_append, List.mem_singleton]
      exact fun h0 => h0.elim h.no_null fun h0 => hc h0.symm
    · rw [List.length_append, List.getLast?_concat, List.dropLast_concat]
      exact fun h3 hlast hbefore => hspace
        ⟨Option.some.inj hlast, Nat.le_of_succ_le_succ h3, hbefore⟩

theorem Sheet.length_endRow (sheet : Sheet) :
    sheet.endRow.extent = sheet.row.length + 1 + (sheet.behind.drop 1).length := by
  have htrimmed := length_trimmed_le sheet.row
  rw [Sheet.extent, Sheet.endRow]
  dsimp only
  rw [List.length_nil, List.length_append, List.length_append, List.length_replicate]
  omega

/-- **A row** is ended: it is trimmed, and is a line unless it is empty. -/
theorem Shows.of_flush (h : Shows v sheet) (hflush : flush v = some v') :
    Shows { v' with p := 0 } sheet.endRow ∧ Lines.string v'.text = trimmed sheet.row := by
  have hfits := h.fits
  rw [Sheet.Fits, Sheet.extent] at hfits
  have hextent := sheet.length_endRow
  have hdrop : (sheet.behind.drop 1).length = sheet.behind.length - 1 := List.length_drop
  obtain ⟨text, hwrite, hpush⟩ := Option.bind_eq_some_iff.mp hflush
  rw [h.write_eq] at hwrite
  split_ifs at hwrite with hle
  obtain rfl := Option.some.inj hwrite
  rw [pushText, Sheet.bytesWith, trimSpace_row h.no_null] at hpush
  obtain rfl := Option.some.inj hpush
  have hstring := Lines.string_append (zero_notMem_trimmed h.no_null)
  refine ⟨⟨?_, ?_, rfl, List.not_mem_nil, fun h3 => absurd h3 (Nat.not_succ_le_zero _), ?_⟩,
    hstring _⟩
  · have htrimmed := length_trimmed_le sheet.row
    rw [hextent, Sheet.endRow]
    dsimp only
    rw [show sheet.row.length + 1 - (trimmed sheet.row).length =
      sheet.row.length - (trimmed sheet.row).length + 1 by omega, List.replicate_succ,
      List.nil_append, List.append_assoc, List.cons_append, List.cons_append, List.append_assoc]
    rw [show LINE_LEN - sheet.row.length - (sheet.behind.drop 1).length =
      LINE_LEN + 1 - (sheet.row.length + 1 + (sheet.behind.drop 1).length) by omega]
  · rw [Sheet.Fits, hextent]
    omega
  · dsimp only
    rw [hstring, Sheet.endRow, Sheet.rows, List.map_append, List.filter_append, ← h.lines_eq]
    split_ifs with hnil
    · rw [List.map_singleton, hnil]
      exact (List.append_nil _).symm
    · rw [List.map_singleton, List.filter_singleton, decide_eq_true hnil]
      rfl

theorem Shows.isSome_flush (h : Shows v sheet) (hfits : sheet.endRow.Fits) : (flush v).isSome := by
  have hle : sheet.row.length ≤ LINE_LEN := by
    rw [Sheet.Fits, sheet.length_endRow] at hfits
    omega
  rw [flush, h.write_eq, if_pos hle, Option.bind_some, pushText, Option.isSome_map,
    Sheet.bytesWith, trimSpace_row h.no_null]
  rfl

end Row

/-! ## Pieces -/

section Pieces

variable {v v' : Vars} {sheet : Sheet}

/-- The sheet only grows. -/
theorem Sheet.extent_le_writeRun {t : List UInt8} : ∀ (k : ℕ) (sheet : Sheet),
    sheet.extent ≤ (Sheet.writeRun k sheet t).extent := by
  induction t with
  | nil =>
    intro k sheet
    rw [Sheet.writeRun]
  | cons c t ih =>
    intro k sheet
    cases k with
    | succ k => exact ih k sheet
    | zero =>
      rw [Sheet.writeRun]
      split_ifs
      · exact (sheet.length_lt_extent_put 32).2.trans (ih 5 _)
      · exact (sheet.length_lt_extent_put 32).2.trans (ih 0 _)
      · exact ih 0 sheet
      · exact (sheet.length_lt_extent_put c).2.trans (ih 0 _)

theorem Sheet.extent_le_endRow (sheet : Sheet) : sheet.extent ≤ sheet.endRow.extent := by
  rw [sheet.length_endRow, Sheet.extent, List.length_drop]
  omega

theorem Sheet.extent_le_write (sheet : Sheet) (piece : Piece) :
    sheet.extent ≤ (sheet.write piece).extent := by
  cases piece with
  | text t => exact Sheet.extent_le_writeRun 0 sheet
  | tag t =>
    rw [Sheet.write]
    split_ifs
    · exact sheet.extent_le_endRow
    · exact le_rfl
    · exact Sheet.extent_le_writeRun 0 sheet

theorem Sheet.extent_le_foldl {ps : List Piece} : ∀ (sheet : Sheet),
    sheet.extent ≤ (ps.foldl Sheet.write sheet).extent := by
  induction ps with
  | nil => exact fun sheet => le_rfl
  | cons piece ps ih => exact fun sheet => (sheet.extent_le_write piece).trans (ih _)

/-- **A run of characters** is copied. -/
theorem Shows.of_copyRun {t : List UInt8} : ∀ {k : ℕ} {v : Vars} {sheet : Sheet}, Shows v sheet →
    (∀ c ∈ t, c ≠ 0) → copyRun k v t = some v' → Shows v' (Sheet.writeRun k sheet t) := by
  induction t with
  | nil =>
    intro k v sheet h _ hcopy
    rw [copyRun] at hcopy
    rw [Sheet.writeRun, ← Option.some.inj hcopy]
    exact h
  | cons c t ih =>
    intro k v sheet h hnull hcopy
    obtain ⟨hc, ht⟩ := List.forall_mem_cons.mp hnull
    cases k with
    | succ k => exact ih h ht hcopy
    | zero =>
      rw [copyRun] at hcopy
      rw [Sheet.writeRun]
      split_ifs at hcopy ⊢
      · obtain ⟨u, hu, hcopy⟩ := Option.bind_eq_some_iff.mp hcopy
        exact ih (h.of_put (by decide) hu) ht hcopy
      · obtain ⟨u, hu, hcopy⟩ := Option.bind_eq_some_iff.mp hcopy
        exact ih (h.of_put (by decide) hu) ht hcopy
      · rw [h.squeeze_eq] at hcopy
        exact ih h ht hcopy
      · obtain ⟨u, hu, hcopy⟩ := Option.bind_eq_some_iff.mp hcopy
        exact ih (h.of_put hc hu) ht hcopy

theorem Shows.isSome_copyRun {t : List UInt8} : ∀ {k : ℕ} {v : Vars} {sheet : Sheet},
    Shows v sheet → (∀ c ∈ t, c ≠ 0) → (Sheet.writeRun k sheet t).Fits →
    (copyRun k v t).isSome := by
  induction t with
  | nil =>
    intro k v sheet _ _ _
    rw [copyRun]
    rfl
  | cons c t ih =>
    intro k v sheet h hnull hfits
    obtain ⟨hc, ht⟩ := List.forall_mem_cons.mp hnull
    -- a character is put, and what follows is only written behind it
    have hput : ∀ {d : UInt8} {j : ℕ}, d ≠ 0 → (Sheet.writeRun j (sheet.put d) t).Fits →
        ((put v d).bind fun v => copyRun j v t).isSome := by
      intro d j hd hfits
      obtain ⟨u, hu⟩ := Option.isSome_iff_exists.mp
        (h.isSome_put ((Sheet.extent_le_writeRun j _).trans hfits))
      rw [hu]
      exact ih (h.of_put hd hu) ht hfits
    cases k with
    | succ k => exact ih h ht hfits
    | zero =>
      rw [copyRun]
      rw [Sheet.writeRun] at hfits
      split_ifs at hfits ⊢
      · exact hput (by decide) hfits
      · exact hput (by decide) hfits
      · rw [h.squeeze_eq]
        exact ih h ht hfits
      · exact hput hc hfits

theorem Piece.Ok.copied_ne_zero {t : List UInt8} (h : (Piece.tag t).Ok) :
    ∀ c ∈ 60 :: (t ++ [62]), c ≠ 0 := fun _ hc h0 => h.zero_notMem (h0 ▸ hc)

/-- **A piece** is copied. -/
theorem Shows.of_copyPiece {piece : Piece} (h : Shows v sheet) (hok : piece.Ok)
    (hcopy : copyPiece v piece = some v') : Shows v' (sheet.write piece) := by
  cases piece with
  | text t => exact h.of_copyRun (fun c hc => (hok.2 c hc).1) hcopy
  | tag t =>
    rw [copyPiece] at hcopy
    rw [Sheet.write]
    split_ifs at hcopy ⊢
    · obtain ⟨u, hu, rfl⟩ := Option.map_eq_some_iff.mp hcopy
      have hshows := (h.of_flush hu).1
      rw [hshows.squeeze_eq]
      exact hshows
    · rw [h.squeeze_eq] at hcopy
      exact Option.some.inj hcopy ▸ h
    · exact h.of_copyRun hok.copied_ne_zero hcopy

theorem Shows.isSome_copyPiece {piece : Piece} (h : Shows v sheet) (hok : piece.Ok)
    (hfits : (sheet.write piece).Fits) : (copyPiece v piece).isSome := by
  cases piece with
  | text t => exact h.isSome_copyRun (fun c hc => (hok.2 c hc).1) hfits
  | tag t =>
    rw [Sheet.write] at hfits
    rw [copyPiece]
    split_ifs at hfits ⊢
    · rw [Option.isSome_map]
      exact h.isSome_flush hfits
    · rfl
    · exact h.isSome_copyRun hok.copied_ne_zero hfits

/-- **Some pieces** are copied. -/
theorem Shows.of_copyPieces {ps : List Piece} : ∀ {v : Vars} {sheet : Sheet}, Shows v sheet →
    (∀ piece ∈ ps, piece.Ok) → copyPieces v ps = some v' →
    Shows v' (ps.foldl Sheet.write sheet) := by
  induction ps with
  | nil => exact fun h _ hcopy => Option.some.inj hcopy ▸ h
  | cons piece ps ih =>
    intro v sheet h hok hcopy
    obtain ⟨hpiece, hps⟩ := List.forall_mem_cons.mp hok
    obtain ⟨u, hu, hcopy⟩ := Option.bind_eq_some_iff.mp hcopy
    exact ih (h.of_copyPiece hpiece hu) hps hcopy

/-- **The writes are in bounds** exactly if the sheet fits in the buffer. -/
theorem Shows.isSome_copyPieces_iff {ps : List Piece} : ∀ {v : Vars} {sheet : Sheet},
    Shows v sheet → (∀ piece ∈ ps, piece.Ok) →
    ((copyPieces v ps).isSome ↔ (ps.foldl Sheet.write sheet).Fits) := by
  induction ps with
  | nil => exact fun h _ => iff_of_true rfl h.fits
  | cons piece ps ih =>
    intro v sheet h hok
    obtain ⟨hpiece, hps⟩ := List.forall_mem_cons.mp hok
    rw [copyPieces_cons, List.foldl_cons]
    cases hu : copyPiece v piece with
    | none =>
      refine iff_of_false Bool.false_ne_true fun hfits => ?_
      have hsome := h.isSome_copyPiece hpiece ((Sheet.extent_le_foldl _).trans hfits)
      rw [hu] at hsome
      exact absurd hsome Bool.false_ne_true
    | some u => exact ih (h.of_copyPiece hpiece hu) hps

theorem Shows.setStop (h : Shows v sheet) (stop : ℤ) : Shows { v with stop := stop } sheet :=
  ⟨h.text_eq, h.fits, h.p_eq, h.no_null, h.squeezed, h.lines_eq⟩

end Pieces

/-! ## What is to be seen -/

/-- Something is to be seen of a piece: tags that are copied are text. -/
def Piece.shows : Piece → Bool
  | .text t => visible 0 t
  | .tag t => !isBr t && !Sami.isSkipped t

/-- Something is to be seen on a sheet. -/
def Sheet.shows (sheet : Sheet) : Bool := sheet.rows.any isVisible

theorem Sheet.shows_put (sheet : Sheet) (c : UInt8) :
    (sheet.put c).shows = (sheet.shows || !isSpace c) := by
  rw [Sheet.put]
  split_ifs with hspace
  · rw [hspace.1]
    exact (Bool.or_false _).symm
  · rw [Sheet.shows, Sheet.shows, Sheet.rows, Sheet.rows]
    simp only [List.any_append, List.any_cons, List.any_nil, Bool.or_false, isVisible,
      Bool.or_assoc]

theorem Sheet.shows_writeRun {t : List UInt8} : ∀ (k : ℕ) (sheet : Sheet),
    (Sheet.writeRun k sheet t).shows = (sheet.shows || visible k t) := by
  induction t with
  | nil =>
    intro k sheet
    rw [Sheet.writeRun, visible, Bool.or_false]
  | cons c t ih =>
    intro k sheet
    cases k with
    | succ k => exact ih k sheet
    | zero =>
      rw [Sheet.writeRun, visible]
      split_ifs with hnbsp h9 heol
      · rw [ih, Sheet.shows_put]
        exact congrArg (· || _) (Bool.or_false _)
      · rw [ih, Sheet.shows_put, h9, Bool.or_assoc]
        rfl
      · rw [ih]
        rcases heol with rfl | rfl <;> rfl
      · rw [ih, Sheet.shows_put, Bool.or_assoc]

theorem Sheet.shows_write (sheet : Sheet) (piece : Piece) :
    (sheet.write piece).shows = (sheet.shows || piece.shows) := by
  cases piece with
  | text t => exact Sheet.shows_writeRun 0 sheet
  | tag t =>
    rw [Sheet.write, Piece.shows]
    split_ifs with hbr hskipped
    · rw [hbr, Sheet.shows, Sheet.rows, Sheet.endRow, List.any_append]
      rfl
    · rw [hskipped, Bool.not_true, Bool.and_false, Bool.or_false]
    · rw [Sheet.shows_writeRun, Bool.eq_false_iff.mpr hbr, Bool.eq_false_iff.mpr hskipped, visible,
        if_neg (not_startsWithI_nbsp _)]
      rfl

/-- **Something is to be seen** on the sheet exactly if there is in a piece. -/
theorem shows_sheetOf (ps : List Piece) : (sheetOf ps).shows = ps.any Piece.shows := by
  have hall : ∀ (ps : List Piece) (sheet : Sheet),
      (ps.foldl Sheet.write sheet).shows = (sheet.shows || ps.any Piece.shows) := by
    intro ps
    induction ps with
    | nil => exact fun sheet => (Bool.or_false _).symm
    | cons piece ps ih =>
      intro sheet
      rw [List.foldl_cons, ih, Sheet.shows_write, List.any_cons, Bool.or_assoc]
  exact hall ps ⟨[], [], []⟩

/-! ## The end of an item -/

/-- The string in the buffer. -/
def Sheet.leftover (sheet : Sheet) : List UInt8 := Lines.string (sheet.row ++ sheet.behind)

/-- What stands behind the loop of `decodedItem`: an item with no end so far takes what is left in
the buffer as its last line, and is dropped if that is blank. -/
theorem Shows.finish_eq {v : Vars} {sheet : Sheet} (h : Shows v sheet) : finish v =
    if 0 < v.stop then some (some ⟨v.start, v.stop, v.lines⟩)
    else if sheet.leftover.length ≤ LINE_LEN then
      some (if isVisible sheet.leftover then
        some ⟨v.start, v.start + v.mSubSlackTime, v.lines ++ [trimmed sheet.leftover]⟩ else none)
    else none := by
  have hstring : Lines.string v.text = sheet.leftover := by
    rw [h.text_eq, ← List.append_assoc, Sheet.leftover]
    exact string_append_replicate _ _
  have hline : (trimSpace v.text).map Lines.string =
      if sheet.leftover.length ≤ LINE_LEN then some (trimmed sheet.leftover) else none := by
    rw [string_trimSpace, hstring, h.length_text]
    exact if_congr Nat.lt_succ_iff rfl rfl
  by_cases hstop : 0 < v.stop
  · rw [finish, if_neg (not_le.mpr hstop), if_pos hstop]
  · have hmap : finish v = ((trimSpace v.text).map Lines.string).map fun line =>
        if line = [] then none
        else some ⟨v.start, v.start + v.mSubSlackTime, v.lines ++ [line]⟩ := by
      rw [finish, if_pos (not_lt.mp hstop), Option.map_map]
      rfl
    rw [hmap, hline, if_neg hstop]
    split_ifs with hle hvisible
    · rw [Option.map_some, if_neg (trimmed_ne_nil_iff.mpr hvisible)]
    · rw [Option.map_some, if_pos (not_not.mp fun hne => hvisible (trimmed_ne_nil_iff.mp hne))]
    · rfl

theorem Sheet.leftover_endRow (sheet : Sheet) (h : 0 ∉ sheet.row) :
    sheet.endRow.leftover = trimmed sheet.row := by
  have htrimmed := length_trimmed_le sheet.row
  rw [Sheet.leftover, Sheet.endRow, List.nil_append,
    show sheet.row.length + 1 - (trimmed sheet.row).length =
      sheet.row.length - (trimmed sheet.row).length + 1 by omega, List.replicate_succ,
    List.cons_append]
  exact Lines.string_append (zero_notMem_trimmed h) _

/-! ## The text of a block -/

theorem enter_subset {content : List (List Piece)} {ps : List Piece} (h : ps ∈ enter content) :
    ∃ ps' ∈ content, ps <:+ ps' := by
  induction content with
  | nil => exact absurd h List.not_mem_nil
  | cons qs content ih =>
    match qs with
    | [] =>
      obtain ⟨ps', hmem, hsuffix⟩ := ih h
      exact ⟨ps', List.mem_cons_of_mem _ hmem, hsuffix⟩
    | .text t :: qs => exact ⟨ps, h, List.suffix_refl ps⟩
    | .tag t :: qs =>
      rcases List.mem_cons.mp h with rfl | h
      · exact ⟨.tag t :: ps, List.mem_cons_self, List.suffix_cons _ ps⟩
      · exact ⟨ps, List.mem_cons_of_mem _ h, List.suffix_refl ps⟩

theorem mem_of_mem_seenFrom {followed : Bool} {content : List (List Piece)} {piece : Piece}
    (h : piece ∈ seenFrom followed content) : ∃ ps ∈ content, piece ∈ ps := by
  induction content with
  | nil => exact absurd h List.not_mem_nil
  | cons ps content ih =>
    cases content with
    | nil =>
      refine ⟨ps, List.mem_cons_self, ?_⟩
      cases followed
      · exact h
      · exact (List.takeWhile_prefix _).subset h
    | cons ps' content =>
      rcases List.mem_append.mp h with h | h
      · exact ⟨ps, List.mem_cons_self, h⟩
      · obtain ⟨qs, hqs, hpiece⟩ := ih h
        exact ⟨qs, List.mem_cons_of_mem _ hqs, hpiece⟩

theorem Block.ok_seen (b : Block) (followed : Bool) : ∀ piece ∈ b.seen followed, piece.Ok := by
  intro piece hpiece
  obtain ⟨ps, hps, hmem⟩ := mem_of_mem_seenFrom hpiece
  obtain ⟨ps', hps', hsuffix⟩ := enter_subset hps
  exact (b.isLine ps' hps').ok piece (hsuffix.subset hmem)

theorem Block.shows_enterText (b : Block) (stop : ℤ) : Shows (b.enterText stop) ⟨[], [], []⟩ where
  text_eq := rfl
  fits := Nat.zero_le _
  p_eq := rfl
  no_null := List.not_mem_nil
  squeezed := fun h3 => absurd h3 (by decide)
  lines_eq := rfl

theorem Block.shows_copyPieces {b : Block} {stop : ℤ} {followed : Bool} {v : Vars}
    (h : copyPieces (b.enterText stop) (b.seen followed) = some v) :
    Shows v (sheetOf (b.seen followed)) :=
  (b.shows_enterText stop).of_copyPieces (b.ok_seen followed) h

/-- The variables where the next block begins: what is seen of the block is copied, and the last row
ended. -/
def Block.copied (b : Block) (stop stop' : ℤ) : Option Vars :=
  (copyPieces (b.enterText stop) (b.seen true)).bind fun v => flush { squeeze v with stop := stop' }

/-- The last row of a block that another one follows. -/
def Block.lastRow (b : Block) : List UInt8 := (sheetOf (b.seen true)).row

/-- The sheet of a block that another one follows. -/
def Block.sheet (b : Block) : Sheet := (sheetOf (b.seen true)).endRow

/-- Something is to be seen of a block that another one follows. -/
def Block.shows (b : Block) : Bool := (b.seen true).any Piece.shows

section Copied

variable {b : Block} {stop stop' : ℤ} {w : Vars}

theorem Block.shows_copied (h : b.copied stop stop' = some w) :
    Shows { w with p := 0 } b.sheet := by
  obtain ⟨v, hv, hflush⟩ := Option.bind_eq_some_iff.mp h
  have hshows := b.shows_copyPieces hv
  rw [hshows.squeeze_eq] at hflush
  exact ((hshows.setStop stop').of_flush hflush).1

/-- **The writes of a block are in bounds** exactly if its sheet fits in the buffer. -/
theorem Block.isSome_copied_iff (b : Block) (stop stop' : ℤ) :
    (b.copied stop stop').isSome ↔ b.sheet.Fits := by
  constructor
  · intro hsome
    obtain ⟨w, hw⟩ := Option.isSome_iff_exists.mp hsome
    exact (b.shows_copied hw).fits
  · intro hfits
    obtain ⟨v, hv⟩ := Option.isSome_iff_exists.mp
      (((b.shows_enterText stop).isSome_copyPieces_iff (b.ok_seen true)).mpr
        ((Sheet.extent_le_endRow _).trans hfits))
    have hshows := b.shows_copyPieces hv
    rw [Block.copied, hv, Option.bind_some, hshows.squeeze_eq]
    exact (hshows.setStop stop').isSome_flush hfits

/-- **There are lines** exactly if something is to be seen. -/
theorem Block.lines_copied_iff (h : b.copied stop stop' = some w) :
    w.lines ≠ [] ↔ b.shows = true := by
  have hlines : w.lines = (b.sheet.ended.map trimmed).filter (· ≠ []) := (b.shows_copied h).lines_eq
  rw [Block.shows, ← shows_sheetOf, Sheet.shows, List.any_eq_true, hlines, Ne,
    List.filter_eq_nil_iff, not_forall]
  constructor
  · rintro ⟨row, hrow⟩
    rw [Classical.not_imp, not_not, decide_eq_true_iff] at hrow
    obtain ⟨hmem, hne⟩ := hrow
    obtain ⟨row, hrow, rfl⟩ := List.mem_map.mp hmem
    exact ⟨row, hrow, trimmed_ne_nil_iff.mp hne⟩
  · rintro ⟨row, hrow, hvisible⟩
    refine ⟨trimmed row, ?_⟩
    rw [Classical.not_imp, not_not, decide_eq_true_iff]
    exact ⟨List.mem_map_of_mem hrow, trimmed_ne_nil_iff.mpr hvisible⟩

theorem Block.fixed_copied (h : b.copied stop stop' = some w) :
    w.fixed = (.getText, (b.start / 10 : ℤ), stop', 0) := by
  obtain ⟨v, hv, hflush⟩ := Option.bind_eq_some_iff.mp h
  have hfixed := (squeeze_fixed v).trans (copyPieces_fixed hv)
  obtain ⟨hstate, hstart, -, hslack⟩ : (squeeze v).state = .getText ∧
      (squeeze v).start = b.start / 10 ∧ (squeeze v).stop = stop ∧
      (squeeze v).mSubSlackTime = 0 := by
    simpa only [Vars.fixed, Block.enterText, Prod.mk.injEq] using hfixed
  rw [flush_fixed hflush, Vars.fixed, hstate, hstart, hslack]

/-- **The end of a block.**  If the next one begins in the first 20 ms, the last row is a line once
more, and there is no item if it is blank. -/
theorem Block.finish_copied {b' : Block} (h : b.copied stop (b'.start / 10 - 1) = some w) :
    (20 ≤ b'.start → finish w = some (some ⟨b.start / 10, b'.start / 10 - 1, w.lines⟩)) ∧
    (b'.start < 20 → if isVisible b.lastRow then
        ∃ lines, finish w = some (some ⟨b.start / 10, b.start / 10, lines⟩)
      else finish w = some none) := by
  have hshows := b.shows_copied h
  have hnull : 0 ∉ (sheetOf (b.seen true)).row := by
    obtain ⟨v, hv, -⟩ := Option.bind_eq_some_iff.mp h
    exact (b.shows_copyPieces hv).no_null
  have hleftover : b.sheet.leftover = trimmed b.lastRow := Sheet.leftover_endRow _ hnull
  have hle : b.sheet.leftover.length ≤ LINE_LEN := by
    have hfits := hshows.fits
    have htrimmed := length_trimmed_le b.lastRow
    rw [Sheet.Fits, Block.sheet, Sheet.length_endRow] at hfits
    rw [hleftover]
    exact htrimmed.trans (by rw [Block.lastRow]; omega)
  have hfinish : finish w = _ := hshows.finish_eq
  have hfixed := b.fixed_copied h
  simp only [Vars.fixed, Prod.mk.injEq] at hfixed
  obtain ⟨-, hstart, hstop, hslack⟩ := hfixed
  dsimp only at hfinish
  rw [hstart, hstop, hslack, if_pos hle, hleftover, isVisible_trimmed, Int.add_zero] at hfinish
  constructor
  · intro h20
    rw [if_pos (by omega)] at hfinish
    exact hfinish
  · intro h20
    rw [if_neg (by omega)] at hfinish
    split_ifs at hfinish ⊢
    · exact ⟨_, hfinish⟩
    · exact hfinish

end Copied

end Sami
end AmlSubtitle
