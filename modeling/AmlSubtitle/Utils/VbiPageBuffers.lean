import AmlSubtitle.Utils.VbiPageDocument
import Mathlib.Data.List.TakeWhile

/-!
# The buffers of a row of a CEA 608 page

`vbi_page_row_to_json` collects the characters of one style in a buffer of three bytes a column and
one for the zero, and `vbi_text_to_json` has a buffer of 64 bytes for the blanks that it writes in
place of a flashing text.

* `rowWrites`: what is written to the two buffers, over the writers of `VbiPageJson`.
* `rowRuns`: the texts of a row and their styles.
* `buf_rowWrites`: the buffer of a row is long enough.
* `rowWrites_inside_iff`: the blanks fit if and only if no flashing text of the row is too long.
-/

namespace AmlSubtitle
namespace ClosedCaptionJson

open Json

/-! ## What is written to the buffers -/

/-- A write to one of the two buffers. -/
inductive Write where
  | buf (index : ℕ)
  | blank_str (index : ℕ)
  deriving DecidableEq, Repr

/-- `sizeof(blank_str)`. -/
def sizeofBlankStr : ℕ := 64

/-- The write is in its buffer. -/
def Write.Inside (columns : ℕ) : Write → Prop
  | buf i => i < columns * 3 + 1
  | blank_str i => i < sizeofBlankStr

instance (columns : ℕ) : DecidablePred (Write.Inside columns)
  | .buf i => inferInstanceAs (Decidable (i < columns * 3 + 1))
  | .blank_str i => inferInstanceAs (Decidable (i < sizeofBlankStr))

/-- The properties of a text in front of its data. -/
def headProps (st : VbiChar) (flash : Bool) : List (String × PropValue) :=
  [("fg_opacity", .str (ascii (vbi_transparent_to_str
      (if st.flash && flash then VBI_TRANSPARENT_SPACE else VBI_OPAQUE)))),
    ("bg_opacity", .str (ascii (vbi_transparent_to_str st.opacity))),
    ("underline", .bool st.underline),
    ("italics", .bool st.italic)]

/-- `vbi_text_to_json` up to the data. -/
def textHead (pg : VbiPage) (st : VbiChar) (flash : Bool) : Writer :=
  inSequence [o_symbol 123,
    o_int_prop (ascii "fg_color") (vbi_color_value (pg.color_map st.foreground)),
    o_int_prop (ascii "bg_color") (vbi_color_value (pg.color_map st.background)),
    o_props (headProps st flash)]

/-- The writes of `vbi_text_to_json`: the zero behind the text, and the blanks with theirs. -/
def vbiTextWrites (pg : VbiPage) (buf : Text) (st : VbiChar) (out : Output) : List Write :=
  if buf.length = 0 then []
  else
    .buf buf.length ::
      if st.flash && out.flash && (textHead pg st out.flash out).1 then
        (List.range (cText buf).length).map .blank_str ++ [.blank_str (cText buf).length]
      else []

/-- The writes when the style changes in front of a character. -/
def changeWrites (pg : VbiPage) (r : Row VbiChar) (i : ℕ) (out : Output) : List Write :=
  if vbi_style_cmp r.st (pg.text i) then vbiTextWrites pg r.buf r.st out else []

/-- Where the next character is put. -/
def putAt (pg : VbiPage) (r : Row VbiChar) (i : ℕ) : ℕ :=
  if vbi_style_cmp r.st (pg.text i) then 0 else r.buf.length

/-- The writes of `put_uc`. -/
def putWrites (pg : VbiPage) (r : Row VbiChar) (i : ℕ) : List Write :=
  (List.range' (putAt pg r i) ((nextRow pg r i).1.buf.length - putAt pg r i)).map .buf

/-- The writes of the loop of `vbi_page_row_to_json`, with `n` columns to go. -/
def vbiColumnWrites (pg : VbiPage) (row : ℕ) : ℕ → ℕ → Row VbiChar → Output → List Write
  | 0, _, _, _ => []
  | n + 1, col, r, out =>
    let i := row * pg.columns + col
    let (ok, out') := changeWriter pg r i out
    changeWrites pg r i out ++
      if ok then
        putWrites pg r i ++
          if (nextRow pg r i).2 then vbiColumnWrites pg row n (col + 1) (nextRow pg r i).1 out'
          else []
      else []

/-- The writes of `vbi_page_row_to_json`. -/
def rowWrites (pg : VbiPage) (row : ℕ) (st : VbiChar) (out : Output) : List Write :=
  match inSequence [o_symbol 123, o_prop_begin (ascii "content"), o_symbol 91] out with
  | (false, _) => []
  | (true, out) =>
    vbiColumnWrites pg row pg.columns 0 ⟨[], 0, false, st⟩ out ++
      match vbiColumns pg row pg.columns 0 ⟨[], 0, false, st⟩ out with
      | (false, _, _) => []
      | (true, r, out) => vbiTextWrites pg r.buf r.st out

/-! ## The texts of a row -/

/-- The text that ends in front of a character, with its style. -/
def changeRuns (pg : VbiPage) (r : Row VbiChar) (i : ℕ) : List (Text × VbiChar) :=
  if vbi_style_cmp r.st (pg.text i) then [(r.buf, r.st)] else []

/-- The texts that end in the loop, and the variables behind it. -/
def vbiColumnRuns (pg : VbiPage) (row : ℕ) :
    ℕ → ℕ → Row VbiChar → List (Text × VbiChar) × Row VbiChar
  | 0, _, r => ([], r)
  | n + 1, col, r =>
    let i := row * pg.columns + col
    if (nextRow pg r i).2 then
      let rest := vbiColumnRuns pg row n (col + 1) (nextRow pg r i).1
      (changeRuns pg r i ++ rest.1, rest.2)
    else (changeRuns pg r i, (nextRow pg r i).1)

/-- The texts of a row that begins with a style, as they are encoded. -/
def rowRuns (pg : VbiPage) (row : ℕ) (st : VbiChar) : List (Text × VbiChar) :=
  let columns := vbiColumnRuns pg row pg.columns 0 ⟨[], 0, false, st⟩
  columns.1 ++ [(columns.2.buf, columns.2.st)]

/-! ## The buffer of the row -/

section Buffers

variable {pg : VbiPage} {row : ℕ}

theorem length_put_uc_le (uc : ℕ) : (put_uc uc).length ≤ 3 := by
  unfold put_uc
  split_ifs <;> simp

theorem putAt_le (r : Row VbiChar) (i : ℕ) : putAt pg r i ≤ r.buf.length := by
  unfold putAt
  split_ifs
  · exact Nat.zero_le _
  · exact le_rfl

/-- A character takes three bytes at most. -/
theorem length_nextRow_le (r : Row VbiChar) (i : ℕ) :
    (nextRow pg r i).1.buf.length ≤ putAt pg r i + 3 := by
  have hput : ∀ (r : Row VbiChar) (uc : ℕ), (r.put uc).1.buf.length ≤ r.buf.length + 3 := by
    intro r uc
    have hlength := length_put_uc_le uc
    unfold Row.put
    split_ifs
    · exact Nat.le_add_right _ _
    · exact Nat.le_add_right _ _
    · simp only [List.length_append]
      omega
  unfold nextRow putAt
  split_ifs
  · exact hput _ _
  · exact hput _ _

theorem eq_length_of_mem_vbiTextWrites {buf : Text} {st : VbiChar} {out : Output} {i : ℕ}
    (h : Write.buf i ∈ vbiTextWrites pg buf st out) : i = buf.length := by
  unfold vbiTextWrites at h
  split_ifs at h with hempty hblank
  · exact absurd h List.not_mem_nil
  · simpa using h
  · simpa using h

theorem eq_length_of_mem_changeWrites {r : Row VbiChar} {i k : ℕ} {out : Output}
    (h : Write.buf k ∈ changeWrites pg r i out) : k = r.buf.length := by
  unfold changeWrites at h
  split_ifs at h
  · exact eq_length_of_mem_vbiTextWrites h
  · exact absurd h List.not_mem_nil

/-- Up to a column there are three bytes a column. -/
theorem buf_vbiColumnWrites {n col : ℕ} {r : Row VbiChar} {out : Output}
    (hr : r.buf.length ≤ 3 * col) :
    (∀ k, Write.buf k ∈ vbiColumnWrites pg row n col r out → k ≤ 3 * (col + n)) ∧
      (vbiColumns pg row n col r out).2.1.buf.length ≤ 3 * (col + n) := by
  induction n generalizing col r out with
  | zero => exact ⟨fun k hk => absurd hk List.not_mem_nil, hr⟩
  | succ n ih =>
    have hat := @putAt_le pg r (row * pg.columns + col)
    have hnext := @length_nextRow_le pg r (row * pg.columns + col)
    have hput : ∀ k, Write.buf k ∈ putWrites pg r (row * pg.columns + col) → k ≤ 3 * (col + 1) := by
      intro k hk
      simp only [putWrites, List.mem_map, Write.buf.injEq, List.mem_range'_1] at hk
      omega
    have hchange : ∀ k, Write.buf k ∈ changeWrites pg r (row * pg.columns + col) out →
        k ≤ 3 * col := fun k hk => (eq_length_of_mem_changeWrites hk).le.trans hr
    obtain ⟨hwrites, hlast⟩ := @ih (col + 1) (nextRow pg r (row * pg.columns + col)).1
      (changeWriter pg r (row * pg.columns + col) out).2 (by omega)
    rw [vbiColumns_succ]
    constructor
    · intro k hk
      rw [vbiColumnWrites] at hk
      dsimp only at hk
      rcases List.mem_append.mp hk with hk | hk
      · have hle := hchange k hk
        omega
      · split_ifs at hk with hok hgo
        · rcases List.mem_append.mp hk with hk | hk
          · have hle := hput k hk
            omega
          · have hle := hwrites k hk
            omega
        · rw [List.append_nil] at hk
          have hle := hput k hk
          omega
        · exact absurd hk List.not_mem_nil
    · split_ifs
      · exact hlast.trans (by omega)
      · exact hnext.trans (by omega)
      · exact hr.trans (by omega)

/-- **The buffer of a row** is never left. -/
theorem buf_rowWrites {st : VbiChar} {out : Output} {k : ℕ}
    (h : Write.buf k ∈ rowWrites pg row st out) : k < pg.columns * 3 + 1 := by
  unfold rowWrites at h
  split at h
  · exact absurd h List.not_mem_nil
  · rename_i out' hhead
    obtain ⟨hwrites, hlast⟩ := @buf_vbiColumnWrites pg row pg.columns 0 ⟨[], 0, false, st⟩ out'
      (Nat.zero_le _)
    rcases List.mem_append.mp h with h | h
    · have hle := hwrites k h
      omega
    · split at h
      · exact absurd h List.not_mem_nil
      · rename_i r out'' hloop
        rw [hloop] at hlast
        have hle := (eq_length_of_mem_vbiTextWrites h).le.trans hlast
        omega

end Buffers

/-! ## The buffer of the blanks -/

section Blanks

variable {pg : VbiPage} {row : ℕ}

/-- The blanks of a text fit, if it needs any. -/
def BlanksFit (run : Text × VbiChar) : Prop :=
  run.2.flash = true → run.1.length < sizeofBlankStr

theorem blank_vbiTextWrites {buf : Text} {st : VbiChar} {out : Output} {k : ℕ}
    (hfit : BlanksFit (buf, st)) (h : Write.blank_str k ∈ vbiTextWrites pg buf st out) :
    k < sizeofBlankStr := by
  have hlength : (cText buf).length ≤ buf.length := (List.takeWhile_sublist _).length_le
  unfold vbiTextWrites at h
  split_ifs at h with hempty hblank
  · exact absurd h List.not_mem_nil
  · simp only [Bool.and_eq_true] at hblank
    have hlt := hfit hblank.1.1
    have hle : k ≤ (cText buf).length := by
      simp only [List.mem_cons, List.mem_append, List.mem_map, List.mem_range, List.not_mem_nil,
        Write.blank_str.injEq, reduceCtorEq, or_false, false_or] at h
      rcases h with ⟨i, hi, rfl⟩ | rfl
      · exact hi.le
      · exact le_rfl
    exact hle.trans_lt (hlength.trans_lt hlt)
  · simp at h

theorem blank_changeWrites {r : Row VbiChar} {i k : ℕ} {out : Output}
    (hfit : ∀ run ∈ changeRuns pg r i, BlanksFit run)
    (h : Write.blank_str k ∈ changeWrites pg r i out) : k < sizeofBlankStr := by
  unfold changeWrites at h
  unfold changeRuns at hfit
  split_ifs at h hfit
  · exact blank_vbiTextWrites (hfit _ List.mem_cons_self) h
  · exact absurd h List.not_mem_nil

theorem vbiColumnRuns_succ (n col : ℕ) (r : Row VbiChar) :
    vbiColumnRuns pg row (n + 1) col r =
      if (nextRow pg r (row * pg.columns + col)).2 then
        (changeRuns pg r (row * pg.columns + col) ++
          (vbiColumnRuns pg row n (col + 1) (nextRow pg r (row * pg.columns + col)).1).1,
        (vbiColumnRuns pg row n (col + 1) (nextRow pg r (row * pg.columns + col)).1).2)
      else (changeRuns pg r (row * pg.columns + col),
        (nextRow pg r (row * pg.columns + col)).1) := rfl

/-- The loop writes blanks for the texts of the row only, and the last one is behind it. -/
theorem blank_vbiColumnWrites {n col : ℕ} {r : Row VbiChar} {out : Output}
    (hfit : ∀ run ∈ (vbiColumnRuns pg row n col r).1, BlanksFit run) :
    (∀ k, Write.blank_str k ∈ vbiColumnWrites pg row n col r out → k < sizeofBlankStr) ∧
      ((vbiColumns pg row n col r out).1 = true →
        (vbiColumns pg row n col r out).2.1 = (vbiColumnRuns pg row n col r).2) := by
  induction n generalizing col r out with
  | zero => exact ⟨fun k hk => absurd hk List.not_mem_nil, fun _ => rfl⟩
  | succ n ih =>
    rw [vbiColumnRuns_succ] at hfit ⊢
    rw [vbiColumns_succ]
    have hhere : ∀ run ∈ changeRuns pg r (row * pg.columns + col), BlanksFit run := by
      intro run hrun
      split_ifs at hfit
      · exact hfit run (List.mem_append_left _ hrun)
      · exact hfit run hrun
    have hput : ∀ k, Write.blank_str k ∉ putWrites pg r (row * pg.columns + col) := by
      intro k hk
      simp [putWrites] at hk
    constructor
    · intro k hk
      rw [vbiColumnWrites] at hk
      dsimp only at hk
      rcases List.mem_append.mp hk with hk | hk
      · exact blank_changeWrites hhere hk
      · split_ifs at hk hfit with hok hgo
        · rcases List.mem_append.mp hk with hk | hk
          · exact absurd hk (hput k)
          · exact (ih fun run hrun => hfit run (List.mem_append_right _ hrun)).1 k hk
        · rw [List.append_nil] at hk
          exact absurd hk (hput k)
        · exact absurd hk List.not_mem_nil
        · exact absurd hk List.not_mem_nil
    · split_ifs at hfit ⊢ with hok hgo
      · exact (ih fun run hrun => hfit run (List.mem_append_right _ hrun)).2
      · exact fun _ => rfl
      · exact fun hfalse => hfalse.elim
      · exact fun hfalse => hfalse.elim

/-- The blanks of a row are in their buffer when all texts of the row are short enough. -/
theorem blank_rowWrites {st : VbiChar} {out : Output} {k : ℕ}
    (hfit : ∀ run ∈ rowRuns pg row st, BlanksFit run)
    (h : Write.blank_str k ∈ rowWrites pg row st out) : k < sizeofBlankStr := by
  unfold rowWrites at h
  split at h
  · exact absurd h List.not_mem_nil
  · rename_i out' hhead
    obtain ⟨hwrites, hlast⟩ := @blank_vbiColumnWrites pg row pg.columns 0 ⟨[], 0, false, st⟩ out'
      fun run hrun => hfit run (List.mem_append_left _ hrun)
    rcases List.mem_append.mp h with h | h
    · exact hwrites k h
    · split at h
      · exact absurd h List.not_mem_nil
      · rename_i r out'' hloop
        rw [hloop] at hlast
        rw [show r = _ from hlast rfl] at h
        exact blank_vbiTextWrites (hfit _ (List.mem_append_right _ List.mem_cons_self)) h

end Blanks

/-! ## Every flashing text is blanked -/

section Blanked

variable {pg : VbiPage} {row : ℕ} {p : Bool}

theorem inSequence_head {f : Writer} {fs : List Writer} {out : Output}
    (h : (inSequence (f :: fs) out).1 = true) : (f out).1 = true := by
  rw [inSequence_cons] at h
  split_ifs at h with hf
  · exact hf

theorem inSequence_nested (fs gs hs : List Writer) :
    inSequence (fs ++ inSequence gs :: hs) = inSequence (fs ++ (gs ++ hs)) := by
  have hnested : inSequence (inSequence gs :: hs) = inSequence (gs ++ hs) := by
    rw [inSequence_append gs, show inSequence gs :: hs = [inSequence gs] ++ hs from rfl,
      inSequence_append [_] hs, inSequence_one]
  rw [inSequence_append fs, hnested, ← inSequence_append]

/-- Where a text is written, it is written up to its data. -/
theorem textHead_of_strictText {buf : Text} {st : VbiChar} {flash : Bool} {out : Output}
    (h : (strictText pg buf st flash out).1 = true) : (textHead pg st flash out).1 = true := by
  have hprops : o_props (textProps buf st flash) = inSequence [o_props (headProps st flash),
      o_props [("data", .str (if st.flash && flash then List.replicate (cText buf).length 0x20
        else buf))]] := by
    rw [o_props, o_props, o_props, ← inSequence_append, ← List.map_append]
    rfl
  have hsplit : strictText pg buf st flash = inSequence [textHead pg st flash,
      inSequence [o_props [("data", .str (if st.flash && flash then
        List.replicate (cText buf).length 0x20 else buf))], o_symbol 125]] := by
    rw [strictText, hprops, textHead, ← inSequence_append]
    exact inSequence_nested [_, _, _] [_, _] [_]
  rw [hsplit] at h
  exact inSequence_head h

theorem blanked_text {buf : Text} {st : VbiChar} {out : Output} (hempty : buf.length ≠ 0)
    (hst : st.flash = true) (hp : out.has_prop = p) (hflash : out.flash = true)
    (hroom : ((items p (vbiTexts pg true buf st)).length : ℤ) < out.left) :
    Write.blank_str (cText buf).length ∈ vbiTextWrites pg buf st out := by
  have hemits : Emits true (strictText pg buf st true) p _ true := emits_strictText st hempty p
  have hstrict : (strictText pg buf st true out).1 = true := by
    rw [hemits.fits out hp hflash hroom]
  have hblank : (st.flash && out.flash && (textHead pg st out.flash out).1) = true := by
    rw [hst, hflash, textHead_of_strictText hstrict]
    rfl
  rw [vbiTextWrites, if_neg hempty, if_pos hblank]
  exact List.mem_cons_of_mem _ (List.mem_append_right _ List.mem_cons_self)

theorem blanked_change {r : Row VbiChar} {i : ℕ} {out : Output} {run : Text × VbiChar}
    (hrun : run ∈ changeRuns pg r i) (hempty : run.1.length ≠ 0) (hst : run.2.flash = true)
    (hp : out.has_prop = p) (hflash : out.flash = true)
    (hroom : ((items p (changeTexts pg true r i)).length : ℤ) < out.left) :
    Write.blank_str (cText run.1).length ∈ changeWrites pg r i out := by
  unfold changeRuns at hrun
  unfold changeTexts at hroom
  unfold changeWrites
  split_ifs at hrun hroom ⊢
  · obtain rfl := List.mem_singleton.mp hrun
    exact blanked_text hempty hst hp hflash hroom
  · exact absurd hrun List.not_mem_nil

/-- Where there is room for the texts of a row, every flashing one is blanked. -/
theorem blanked_columns {n col : ℕ} {r : Row VbiChar} {out : Output} {run : Text × VbiChar}
    (hrun : run ∈ (vbiColumnRuns pg row n col r).1) (hempty : run.1.length ≠ 0)
    (hst : run.2.flash = true) (hp : out.has_prop = p) (hflash : out.flash = true)
    (hroom : ((items p (vbiColumnTexts pg true row n col r).1).length : ℤ) < out.left) :
    Write.blank_str (cText run.1).length ∈ vbiColumnWrites pg row n col r out := by
  induction n generalizing p col r out with
  | zero => exact absurd hrun List.not_mem_nil
  | succ n ih =>
    have hchange := fits_changeWriter pg r (row * pg.columns + col) out hp hflash
    have hblank := @blanked_change pg p r (row * pg.columns + col) out run
    rw [vbiColumnRuns_succ] at hrun
    rw [vbiColumnTexts_succ] at hroom
    rw [vbiColumnWrites]
    dsimp only
    generalize changeTexts pg true r (row * pg.columns + col) = here at hroom hchange hblank
    by_cases hgo : (nextRow pg r (row * pg.columns + col)).2 = true
    · rw [if_pos hgo] at hrun hroom
      rw [length_items_append] at hroom
      rcases List.mem_append.mp hrun with hrun | hrun
      · exact List.mem_append_left _ (hblank hrun hempty hst hp hflash (by omega))
      · rw [hchange (by omega), if_pos rfl, if_pos hgo]
        refine List.mem_append_right _ (List.mem_append_right _
          (ih (p := p || !here.isEmpty) hrun rfl hflash ?_))
        show _ < out.left - ((items p here).length : ℤ)
        omega
    · rw [if_neg hgo] at hrun hroom
      exact List.mem_append_left _ (hblank hrun hempty hst hp hflash hroom)

/-- The variables behind the loop do not depend on what it writes. -/
theorem vbiColumnRuns_snd (flash : Bool) (n col : ℕ) (r : Row VbiChar) :
    (vbiColumnTexts pg flash row n col r).2 = (vbiColumnRuns pg row n col r).2 := by
  induction n generalizing col r with
  | zero => rfl
  | succ n ih =>
    rw [vbiColumnTexts_succ, vbiColumnRuns_succ]
    split_ifs
    · exact ih _ _
    · rfl

theorem blanked_row {st : VbiChar} {run : Text × VbiChar} (hrun : run ∈ rowRuns pg row st)
    (hempty : run.1.length ≠ 0) (hst : run.2.flash = true) :
    ∃ out, Write.blank_str (cText run.1).length ∈ rowWrites pg row st out := by
  have hsnd := @vbiColumnRuns_snd pg row true pg.columns 0 ⟨[], 0, false, st⟩
  have hblank := @blanked_columns pg row false pg.columns 0 ⟨[], 0, false, st⟩
  have hloop := fun out => @vbiColumns_fits pg true false row pg.columns 0 ⟨[], 0, false, st⟩ out
  rw [rowRuns] at hrun
  generalize vbiColumnTexts pg true row pg.columns 0 ⟨[], 0, false, st⟩ = columns
    at hsnd hblank hloop
  obtain ⟨left, hleft⟩ : ∃ left : ℤ, (rowBegin false).length + (items false columns.1).length +
      (items (false || !columns.1.isEmpty) (vbiTexts pg true run.1 run.2)).length < left :=
    ⟨_, Int.lt_succ _⟩
  have hhead := (emits_rowBegin (p := false)).fits ⟨[], left, false, true⟩ rfl rfl (by
    show _ < left
    omega)
  have hroom : ((items false columns.1).length : ℤ) < left - ((rowBegin false).length : ℤ) := by
    omega
  refine ⟨⟨[], left, false, true⟩, ?_⟩
  rw [rowWrites, hhead]
  dsimp only
  rcases List.mem_append.mp hrun with hrun | hrun
  · exact List.mem_append_left _ (hblank hrun hempty hst rfl rfl hroom)
  · rw [hloop _ rfl rfl hroom, hsnd]
    obtain rfl := List.mem_singleton.mp hrun
    dsimp only at hleft
    refine List.mem_append_right _
      (blanked_text (p := false || !columns.1.isEmpty) hempty hst rfl rfl ?_)
    show _ < left - ((rowBegin false).length : ℤ) - ((items false columns.1).length : ℤ)
    omega

end Blanked

/-! ## The texts of a row have no zeros -/

section Zeros

variable {pg : VbiPage} {row : ℕ}

theorem cText_of_printable {buf : Text} (hbuf : Printable buf) : cText buf = buf := by
  refine List.takeWhile_eq_self_iff.mpr fun c hc => ?_
  have hne : c ≠ 0 := by
    rintro rfl
    exact absurd (hbuf 0 hc) (by decide)
  exact decide_eq_true hne

theorem printable_columnRuns {n col : ℕ} {r : Row VbiChar} (hr : Printable r.buf) :
    (∀ run ∈ (vbiColumnRuns pg row n col r).1, Printable run.1) ∧
      Printable (vbiColumnRuns pg row n col r).2.buf := by
  induction n generalizing col r with
  | zero => exact ⟨fun run hrun => absurd hrun List.not_mem_nil, hr⟩
  | succ n ih =>
    have hhere : ∀ run ∈ changeRuns pg r (row * pg.columns + col), Printable run.1 := by
      intro run hrun
      unfold changeRuns at hrun
      split_ifs at hrun
      · rw [List.mem_singleton.mp hrun]
        exact hr
      · exact absurd hrun List.not_mem_nil
    have hnext := printable_nextRow pg hr (row * pg.columns + col)
    rw [vbiColumnRuns_succ]
    split_ifs
    · obtain ⟨hrest, hlast⟩ := @ih (col + 1) _ hnext
      exact ⟨fun run hrun => (List.mem_append.mp hrun).elim (hhere run) (hrest run), hlast⟩
    · exact ⟨hhere, hnext⟩

theorem printable_rowRuns {st : VbiChar} {run : Text × VbiChar} (hrun : run ∈ rowRuns pg row st) :
    Printable run.1 := by
  obtain ⟨hcolumns, hlast⟩ := @printable_columnRuns pg row pg.columns 0 ⟨[], 0, false, st⟩
    fun c hc => absurd hc List.not_mem_nil
  rcases List.mem_append.mp hrun with hrun | hrun
  · exact hcolumns run hrun
  · rw [List.mem_singleton.mp hrun]
    exact hlast

end Zeros

/-! ## The buffers of a row -/

/-- **The two buffers of a row.** -/
theorem rowWrites_inside_iff (pg : VbiPage) (row : ℕ) (st : VbiChar) :
    (∀ out, ∀ w ∈ rowWrites pg row st out, w.Inside pg.columns) ↔
      ∀ run ∈ rowRuns pg row st, run.2.flash = true → run.1.length < sizeofBlankStr := by
  constructor
  · intro hinside run hrun hst
    by_contra hlong
    have hempty : run.1.length ≠ 0 := by
      intro hzero
      rw [hzero] at hlong
      exact hlong (by decide)
    obtain ⟨out, hwrite⟩ := blanked_row hrun hempty hst
    rw [cText_of_printable (printable_rowRuns hrun)] at hwrite
    exact hlong (hinside out _ hwrite)
  · intro hfit out w hw
    cases w with
    | buf k => exact buf_rowWrites hw
    | blank_str k => exact blank_rowWrites hfit hw

/-- A page with a row of 22 flashing blocks. -/
def flashingBlocks : VbiPage where
  pgno := 1
  rows := 15
  columns := 34
  text i := if i < 22 then ⟨false, false, true, VBI_OPAQUE, 7, 0, 0x2588⟩ else VbiChar.zero
  color_map i := if i = 7 then 0xffffff else 0
  decoded i := by
    split_ifs
    · exact Or.inr (by decide)
    · exact Or.inl rfl

theorem not_rowWrites_inside : ¬∀ out, ∀ w ∈ rowWrites flashingBlocks 0 VbiChar.zero out,
    w.Inside flashingBlocks.columns := by
  intro hinside
  exact absurd (hinside ⟨[], 1000, false, true⟩) (by decide +kernel)

end ClosedCaptionJson
end AmlSubtitle
