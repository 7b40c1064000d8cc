import AmlSubtitle.Lib.JsonReading
import AmlSubtitle.Utils.VbiPageBuffers

/-!
# The texts of a row of a CEA 608 page

`vbi_page_row_to_json` cuts the characters of a row, from the first one that is not zero up to
the next zero, where their style changes.  A blank on a transparent or black ground goes with the
text in front of it, whatever its style.

* `rowCells`: the characters of a row that are written.
* `Matches`: a text is that of some characters, and its style is that of the non-blank ones.
* `exists_groups_rowRuns`: the texts of a row are those of a partition of its characters.
* `ShowsRow`: what a JSON reader finds in the row.
* `vbi_page_row_to_json_shows`: **it finds that partition, with the colours, the opacities and the
  styles of its characters.**
-/

namespace AmlSubtitle
namespace ClosedCaptionJson

open Json Utf16

/-! ## The characters of a row -/

/-- The characters of `n` columns of a row. -/
def cellsFrom (pg : VbiPage) (row col n : ℕ) : List VbiChar :=
  (List.range' col n).map fun col => pg.text (row * pg.columns + col)

/-- The characters up to the next zero, and from the first non-zero one if none has been met. -/
def shown (continuance_flag : Bool) (cells : List VbiChar) : List VbiChar :=
  (if continuance_flag then cells else cells.dropWhile (·.unicode = 0)).takeWhile (·.unicode ≠ 0)

/-- The characters of a row, from the first one that is not zero up to the next zero. -/
def rowCells (pg : VbiPage) (row : ℕ) : List VbiChar :=
  shown false (cellsFrom pg row 0 pg.columns)

/-- The same colours, opacity and style. -/
def SameStyle (s c : VbiChar) : Prop :=
  s.foreground = c.foreground ∧ s.background = c.background ∧ s.opacity = c.opacity ∧
    s.underline = c.underline ∧ s.italic = c.italic ∧ s.flash = c.flash

/-- A text is that of some characters, and its style is that of the non-blank ones. -/
def Matches (run : Text × VbiChar) (cells : List VbiChar) : Prop :=
  run.1 = cells.flatMap (fun c => put_uc c.unicode) ∧
    ∀ c ∈ cells, c.unicode ≠ 0x20 → SameStyle run.2 c

theorem sameStyle_of_cmp {s c : VbiChar} (h : vbi_style_cmp s c = false) (hc : c.unicode ≠ 0x20) :
    SameStyle s c := by
  rw [vbi_style_cmp, if_neg fun hblank => hc hblank.1] at h
  simpa [SameStyle, and_assoc] using h

theorem cellsFrom_succ (pg : VbiPage) (row col n : ℕ) :
    cellsFrom pg row col (n + 1) =
      pg.text (row * pg.columns + col) :: cellsFrom pg row (col + 1) n := rfl

theorem shown_zero_started {c : VbiChar} (hc : c.unicode = 0) (cells : List VbiChar) :
    shown true (c :: cells) = [] := by
  rw [shown, if_pos rfl, List.takeWhile_cons_of_neg (by simpa using hc)]

theorem shown_zero {c : VbiChar} (hc : c.unicode = 0) (cells : List VbiChar) :
    shown false (c :: cells) = shown false cells := by
  rw [shown, shown, if_neg Bool.false_ne_true, if_neg Bool.false_ne_true,
    List.dropWhile_cons_of_pos (by simpa using hc)]

theorem shown_cons {c : VbiChar} (hc : c.unicode ≠ 0) (flag : Bool) (cells : List VbiChar) :
    shown flag (c :: cells) = c :: shown true cells := by
  have hstart : (if flag then c :: cells else (c :: cells).dropWhile (·.unicode = 0)) =
      c :: cells := by
    split_ifs
    · rfl
    · exact List.dropWhile_cons_of_neg (by simpa using hc)
  rw [shown, hstart, List.takeWhile_cons_of_pos (by simpa using hc), shown, if_pos rfl]

theorem mem_rowCells {pg : VbiPage} {row : ℕ} {c : VbiChar} (h : c ∈ rowCells pg row) :
    0x20 ≤ c.unicode := by
  have hne : c.unicode ≠ 0 := by simpa using List.mem_takeWhile_imp h
  have hcells : c ∈ cellsFrom pg row 0 pg.columns :=
    (List.dropWhile_sublist _).subset ((List.takeWhile_sublist _).subset h)
  obtain ⟨col, -, rfl⟩ := List.mem_map.mp hcells
  exact (pg.decoded _).resolve_left hne

/-! ## The texts are those of a partition -/

section Groups

variable {pg : VbiPage} {row : ℕ}

/-- Where the style changes in front of a character, and what the character is then put to. -/
theorem exists_change (r : Row VbiChar) (i : ℕ) {cells : List VbiChar}
    (hr : Matches (r.buf, r.st) cells) (hstart : r.continuance_flag = false → cells = []) :
    ∃ (r' : Row VbiChar) (before : List (List VbiChar)) (cells' : List VbiChar),
      nextRow pg r i = r'.put (pg.text i).unicode ∧
      List.Forall₂ Matches (changeRuns pg r i) before ∧ before.flatten ++ cells' = cells ∧
      Matches (r'.buf, r'.st) cells' ∧ r'.continuance_flag = r.continuance_flag ∧
      (r.continuance_flag = false → cells' = []) ∧
      ((pg.text i).unicode ≠ 0x20 → SameStyle r'.st (pg.text i)) := by
  unfold nextRow changeRuns
  cases hcmp : vbi_style_cmp r.st (pg.text i) with
  | false =>
    exact ⟨r, [], cells, rfl, .nil, rfl, hr, rfl, hstart, sameStyle_of_cmp hcmp⟩
  | true =>
    exact ⟨{ r with buf := [], st := pg.text i }, [cells], [], rfl, .cons hr .nil, by simp,
      ⟨rfl, fun c hc => absurd hc List.not_mem_nil⟩, rfl, fun _ => rfl,
      fun _ => ⟨rfl, rfl, rfl, rfl, rfl, rfl⟩⟩

/-- The texts of the columns that are left, and the one that is under way. -/
theorem exists_groups (n col : ℕ) (r : Row VbiChar) {cells : List VbiChar}
    (hr : Matches (r.buf, r.st) cells) (hstart : r.continuance_flag = false → cells = []) :
    ∃ groups, List.Forall₂ Matches ((vbiColumnRuns pg row n col r).1 ++
        [((vbiColumnRuns pg row n col r).2.buf, (vbiColumnRuns pg row n col r).2.st)]) groups ∧
      groups.flatten = cells ++ shown r.continuance_flag (cellsFrom pg row col n) := by
  induction n generalizing col r cells with
  | zero =>
    refine ⟨[cells], .cons hr .nil, ?_⟩
    have hnil : shown r.continuance_flag (cellsFrom pg row col 0) = [] := by
      cases r.continuance_flag <;> rfl
    rw [hnil]
    simp
  | succ n ih =>
    obtain ⟨r', before, cells', hnext, hbefore, rfl, hr', hflag, hstart', hstyle⟩ :=
      exists_change r (row * pg.columns + col) hr hstart
    rw [vbiColumnRuns_succ, hnext, cellsFrom_succ]
    rw [← hflag] at hstart' ⊢
    generalize pg.text (row * pg.columns + col) = c at hstyle ⊢
    by_cases hzero : c.unicode = 0
    · cases hstarted : r'.continuance_flag with
      | false =>
        have hput : r'.put c.unicode = ({ r' with start := r'.start + 1 }, true) :=
          if_pos ⟨hzero, hstarted⟩
        obtain ⟨groups, hgroups, hflatten⟩ := ih (col + 1) { r' with start := r'.start + 1 } hr'
          hstart'
        rw [hput, if_pos rfl]
        refine ⟨before ++ groups, ?_, ?_⟩
        · rw [List.append_assoc]
          exact List.rel_append hbefore hgroups
        · dsimp only at hflatten
          rw [List.flatten_append, hflatten, shown_zero hzero, hstarted, List.append_assoc]
      | true =>
        have hput : r'.put c.unicode = ({ r' with continuance_flag := true }, false) := by
          rw [Row.put, if_neg (by simp [hstarted]), if_pos hzero]
        rw [hput, if_neg Bool.false_ne_true]
        refine ⟨before ++ [cells'], List.rel_append hbefore (.cons hr' .nil), ?_⟩
        rw [shown_zero_started hzero]
        simp
    · have hput : r'.put c.unicode =
          ({ r' with continuance_flag := true, buf := r'.buf ++ put_uc c.unicode }, true) := by
        rw [Row.put, if_neg fun h => hzero h.1, if_neg hzero]
      have hmatches : Matches (r'.buf ++ put_uc c.unicode, r'.st) (cells' ++ [c]) := by
        refine ⟨?_, fun d hd hblank => ?_⟩
        · rw [List.flatMap_append, ← hr'.1, List.flatMap_singleton]
        · rcases List.mem_append.mp hd with hd | hd
          · exact hr'.2 d hd hblank
          · rw [List.eq_of_mem_singleton hd] at hblank ⊢
            exact hstyle hblank
      obtain ⟨groups, hgroups, hflatten⟩ := ih (col + 1)
        { r' with continuance_flag := true, buf := r'.buf ++ put_uc c.unicode } hmatches
        fun h => absurd h.symm Bool.false_ne_true
      rw [hput, if_pos rfl]
      refine ⟨before ++ groups, ?_, ?_⟩
      · rw [List.append_assoc]
        exact List.rel_append hbefore hgroups
      · dsimp only at hflatten
        rw [List.flatten_append, hflatten, shown_cons hzero]
        simp

/-- **The texts of a row are those of a partition of its characters.** -/
theorem exists_groups_rowRuns (pg : VbiPage) (row : ℕ) (st : VbiChar) :
    ∃ groups, List.Forall₂ Matches (rowRuns pg row st) groups ∧
      groups.flatten = rowCells pg row :=
  exists_groups pg.columns 0 ⟨[], 0, false, st⟩
    ⟨rfl, fun _ hc => absurd hc List.not_mem_nil⟩ fun _ => rfl

end Groups

/-! ## The characters are encoded in UTF-8 -/

theorem put_uc_eq_utf8 {uc : ℕ} (h : uc < 0x10000) : put_uc uc = utf8 uc := by
  have hlow : ∀ n : ℕ, (n &&& 0x3f ||| 0x80).toUInt8 = marked 0x80 n 0x3F := fun n => by
    rw [marked, Nat.lor_comm]
  have hmark : ∀ {k n : ℕ} (m : ℕ), n < 2 ^ k →
      (n ||| m).toUInt8 = marked m n (2 ^ k - 1) := fun m hn => by
    rw [marked, Nat.and_two_pow_sub_one_of_lt_two_pow hn, Nat.lor_comm]
  unfold put_uc utf8
  by_cases h₁ : uc ≤ 0x7f
  · rw [if_pos h₁, if_pos (Nat.lt_succ_of_le h₁)]
  · have h₁' : ¬ uc < 0x80 := mt Nat.le_of_lt_succ h₁
    rw [if_neg h₁, if_neg h₁']
    by_cases h₂ : uc ≤ 0x7ff
    · have hhigh : uc >>> 6 < 2 ^ 5 := by
        rw [Nat.shiftRight_eq_div_pow]
        omega
      rw [if_pos h₂, if_pos (Nat.lt_succ_of_le h₂), hlow, hmark 0xc0 hhigh]
      rfl
    · have h₂' : ¬ uc < 0x800 := mt Nat.le_of_lt_succ h₂
      have hhigh : uc >>> 12 < 2 ^ 4 := by
        rw [Nat.shiftRight_eq_div_pow]
        omega
      rw [if_neg h₂, if_neg h₂', if_pos h, hlow, hlow, hmark 0xe0 hhigh]
      rfl

theorem put_uc_ne_nil (uc : ℕ) : put_uc uc ≠ [] := by
  unfold put_uc
  split_ifs <;> exact List.cons_ne_nil _ _

/-! ## The strings are escaped -/

theorem decodes_escape {c : UInt8} {s t : Text} (hc : 32 ≤ c) (h : Decodes s t) :
    Decodes (escape c ++ s) (c :: t) := by
  unfold escape
  split_ifs with h₁ h₂ h₃ h₄
  · rw [h₁]
    exact Decodes.escaped (by decide) h
  · rw [h₂]
    exact Decodes.escaped (by decide) h
  · rw [h₃]
    exact Decodes.escaped (by decide) h
  · rw [h₄]
    exact Decodes.escaped (by decide) h
  · exact Decodes.unescaped hc h₄ h₁ h

/-- **A string without control characters is read back.** -/
theorem decodes_escaped {val : Text} (h : Printable val) : Decodes (escaped val) val := by
  rw [escaped, cText_of_printable h]
  induction val with
  | nil => exact Decodes.nil
  | cons c val ih =>
    rw [List.flatMap_cons]
    exact decodes_escape (h c List.mem_cons_self)
      (ih fun d hd => h d (List.mem_cons_of_mem _ hd))

/-! ## What a reader finds in a row -/

/-- The attributes of a character that does not flash, as members of an object. -/
def attributes (pg : VbiPage) (c : VbiChar) : List (Text × Text) :=
  [(ascii "fg_color", decimal (vbi_color_value (pg.color_map c.foreground))),
    (ascii "bg_color", decimal (vbi_color_value (pg.color_map c.background))),
    (ascii "fg_opacity", quoted (ascii (vbi_transparent_to_str VBI_OPAQUE))),
    (ascii "bg_opacity", quoted (ascii (vbi_transparent_to_str c.opacity))),
    (ascii "underline", boolean c.underline),
    (ascii "italics", boolean c.italic)]

/-- A text is an object whose data is the text of some characters, and whose attributes are those
of each of them that is no blank. -/
def ShowsRun (pg : VbiPage) (cells : List VbiChar) (s : Text) : Prop :=
  ∃ members raw, ObjectOf s members ∧ valueOf (ascii "data") members = some (quoted raw) ∧
    Decodes raw (cells.flatMap fun c => utf8 c.unicode) ∧
    ∀ c ∈ cells, c.unicode ≠ 0x20 →
      ∀ k ∈ attributes pg c, valueOf k.1 members = some k.2

/-- A text is a row whose content is these groups of characters. -/
def ShowsRow (pg : VbiPage) (groups : List (List VbiChar)) (s : Text) : Prop :=
  ∃ members content elements, ObjectOf s members ∧
    valueOf (ascii "content") members = some content ∧ ArrayOf content elements ∧
      List.Forall₂ (fun cells e => ShowsRun pg cells e.body) groups elements

section Reading

variable {pg : VbiPage} {flash : Bool}

/-- The members of a text. -/
def runMembers (pg : VbiPage) (flash : Bool) (buf : Text) (st : VbiChar) : List (Text × Text) :=
  (colorProps pg st ++ textProps buf st flash).map fun prop => (ascii prop.1, prop.2.text)

theorem runMembers_text (buf : Text) (st : VbiChar) :
    propTexts (colorProps pg st ++ textProps buf st flash) =
      (runMembers pg flash buf st).map fun k => member k.1 k.2 := by
  rw [propTexts, runMembers, List.map_map]
  rfl

theorem nodup_runMembers (buf : Text) (st : VbiChar) :
    ((runMembers pg flash buf st).map Prod.fst).Nodup := by
  have hkeys : (runMembers pg flash buf st).map Prod.fst =
      [ascii "fg_color", ascii "bg_color", ascii "fg_opacity", ascii "bg_opacity",
        ascii "underline", ascii "italics", ascii "data"] := by
    simp only [runMembers, colorProps, textProps, List.map_cons, List.map_nil, List.cons_append,
      List.nil_append]
  rw [hkeys]
  decide

theorem escaped_transparent (v : ℕ) :
    escaped (ascii (vbi_transparent_to_str v)) = ascii (vbi_transparent_to_str v) := by
  unfold vbi_transparent_to_str
  split_ifs <;> decide

theorem runMembers_eq (buf : Text) {st : VbiChar} (hst : st.flash = false) :
    runMembers pg flash buf st = attributes pg st ++ [(ascii "data", quoted (escaped buf))] := by
  simp only [runMembers, attributes, colorProps, textProps, PropValue.text, hst, Bool.false_and,
    Bool.false_eq_true, if_false, escaped_transparent, List.map_cons, List.map_nil,
    List.cons_append, List.nil_append]

/-- The data of a text is the text, also where it is written as blanks. -/
theorem data_mem {buf : Text} {st : VbiChar} (hprint : Printable buf)
    (hblank : st.flash = true → buf = List.replicate buf.length 0x20) :
    (ascii "data", quoted (escaped buf)) ∈ runMembers pg flash buf st := by
  have hdata : (if st.flash && flash then List.replicate (cText buf).length 0x20 else buf) =
      buf := by
    rw [cText_of_printable hprint]
    split_ifs with h
    · exact (hblank (Bool.and_eq_true_iff.mp h).1).symm
    · rfl
  have hlast : (ascii "data", quoted (escaped (if st.flash && flash then
      List.replicate (cText buf).length 0x20 else buf))) ∈ runMembers pg flash buf st := by
    simp [runMembers, colorProps, textProps, PropValue.text]
  rwa [hdata] at hlast

/-- The characters can be written, and none of them flashes. -/
structure Writable (c : VbiChar) : Prop where
  printable : 0x20 ≤ c.unicode
  bmp : c.unicode < 0x10000
  steady : c.flash = false

theorem Matches.printable {run : Text × VbiChar} {cells : List VbiChar} (h : Matches run cells)
    (hcells : ∀ c ∈ cells, Writable c) : Printable run.1 := by
  intro b hb
  rw [h.1] at hb
  obtain ⟨c, hc, hb⟩ := List.mem_flatMap.mp hb
  exact printable_put_uc (hcells c hc).printable b hb

/-- A text with a flashing style is blank. -/
theorem Matches.blank {run : Text × VbiChar} {cells : List VbiChar} (h : Matches run cells)
    (hcells : ∀ c ∈ cells, Writable c) (hst : run.2.flash = true) :
    run.1 = List.replicate run.1.length 0x20 := by
  refine List.eq_replicate_of_mem fun b hb => ?_
  rw [h.1] at hb
  obtain ⟨c, hc, hb⟩ := List.mem_flatMap.mp hb
  have hspace : c.unicode = 0x20 := by
    by_contra hne
    have hflash := (h.2 c hc hne).2.2.2.2.2
    rw [hst, (hcells c hc).steady] at hflash
    exact absurd hflash.symm Bool.false_ne_true
  rw [hspace] at hb
  exact List.eq_of_mem_singleton hb

/-- **A text is read as its characters**, each of which has its attributes or is a blank. -/
theorem Matches.showsRun {run : Text × VbiChar} {cells : List VbiChar} (h : Matches run cells)
    (hcells : ∀ c ∈ cells, Writable c) :
    ShowsRun pg cells (object (propTexts (colorProps pg run.2 ++
      textProps run.1 run.2 flash))) := by
  have hprint := h.printable hcells
  have hutf8 : run.1 = cells.flatMap fun c => utf8 c.unicode := by
    rw [h.1]
    exact List.flatMap_congr fun c hc => put_uc_eq_utf8 (hcells c hc).bmp
  have hmembers : ∀ k ∈ runMembers pg flash run.1 run.2, Chars k.1 ∧ Value k.2 := by
    intro k hk
    obtain ⟨prop, hprop, rfl⟩ := List.mem_map.mp hk
    obtain ⟨hkey, hvalue⟩ := isPrintable_text pg run.2 hprint prop hprop
    exact ⟨hkey.chars, hvalue.value⟩
  have hnodup := @nodup_runMembers pg flash run.1 run.2
  refine ⟨(runMembers pg flash run.1 run.2).map plainMember, escaped run.1, ?_,
    valueOf_of_mem hnodup (data_mem hprint (h.blank hcells)), ?_, fun c hc hblank k hk => ?_⟩
  · rw [runMembers_text]
    exact objectOf_plain hmembers
  · rw [← hutf8]
    exact decodes_escaped hprint
  · obtain ⟨hfg, hbg, hopacity, hunderline, hitalic, hsteady⟩ := h.2 c hc hblank
    have hattributes : attributes pg c = attributes pg run.2 := by
      simp only [attributes, hfg, hbg, hopacity, hunderline, hitalic]
    rw [hattributes] at hk
    refine valueOf_of_mem hnodup ?_
    rw [runMembers_eq _ (hsteady.trans (hcells c hc).steady)]
    exact List.mem_append_left _ hk

/-- The texts that are written are those with characters in them. -/
theorem forall₂_showsRun {runs : List (Text × VbiChar)} {groups : List (List VbiChar)}
    (h : List.Forall₂ Matches runs groups) (hcells : ∀ c ∈ groups.flatten, Writable c) :
    List.Forall₂ (ShowsRun pg) (groups.filter fun cells => cells ≠ [])
      (runs.flatMap fun run => vbiTexts pg flash run.1 run.2) := by
  induction h with
  | nil => exact .nil
  | @cons run cells runs groups hrun _ ih =>
    rw [List.flatten_cons] at hcells
    have hrest := ih fun c hc => hcells c (List.mem_append_right _ hc)
    rw [List.flatMap_cons]
    cases cells with
    | nil =>
      have hempty : run.1.length = 0 := congrArg List.length hrun.1
      rw [vbiTexts, if_pos hempty, List.filter_cons_of_neg (by simp)]
      exact hrest
    | cons c cells =>
      have hne : run.1.length ≠ 0 := by
        rw [hrun.1, List.flatMap_cons, List.length_append]
        have := List.length_pos_iff.mpr (put_uc_ne_nil c.unicode)
        omega
      rw [vbiTexts, if_neg hne, List.filter_cons_of_pos (by simp)]
      exact .cons (hrun.showsRun fun c hc => hcells c (List.mem_append_left _ hc)) hrest

theorem vbiColumnTexts_fst (row n col : ℕ) (r : Row VbiChar) :
    (vbiColumnTexts pg flash row n col r).1 =
      (vbiColumnRuns pg row n col r).1.flatMap fun run => vbiTexts pg flash run.1 run.2 := by
  have hchange : ∀ r i, changeTexts pg flash r i =
      (changeRuns pg r i).flatMap fun run => vbiTexts pg flash run.1 run.2 := by
    intro r i
    unfold changeTexts changeRuns
    split_ifs
    · rw [List.flatMap_singleton]
    · rfl
  induction n generalizing col r with
  | zero => rfl
  | succ n ih =>
    rw [vbiColumnTexts_succ, vbiColumnRuns_succ]
    split_ifs
    · rw [List.flatMap_append, ← hchange, ih]
    · exact hchange _ _

/-- A row, as it is written. -/
def rowText (pg : VbiPage) (flash : Bool) (row : ℕ) (st : VbiChar) : Text :=
  vbiRowText pg flash (vbiColumnTexts pg flash row pg.columns 0 ⟨[], 0, false, st⟩)

theorem rowText_eq (row : ℕ) (st : VbiChar) : rowText pg flash row st =
    rowObject ((rowRuns pg row st).flatMap fun run => vbiTexts pg flash run.1 run.2)
      (vbiColumnRuns pg row pg.columns 0 ⟨[], 0, false, st⟩).2.start := by
  rw [rowText, vbiRowText, vbiColumnTexts_fst, vbiColumnRuns_snd, rowRuns, List.flatMap_append,
    List.flatMap_singleton]

theorem showsRow_rowObject {groups : List (List VbiChar)} {content : List Text} (start : ℕ)
    (h : List.Forall₂ (ShowsRun pg) groups content) :
    ShowsRow pg groups (rowObject content start) := by
  have hvalues : ∀ v ∈ content, Value v := by
    induction h with
    | nil => exact fun v hv => absurd hv List.not_mem_nil
    | cons hshows _ ih =>
      obtain ⟨members, raw, hobject, -⟩ := hshows
      exact List.forall_mem_cons.mpr ⟨hobject.value, ih⟩
  have hmembers : ∀ k ∈ [(ascii "content", array content), (ascii "row_start", decimal start)],
      Chars k.1 ∧ Value k.2 :=
    List.forall_mem_cons.mpr ⟨⟨IsKey.chars (by decide), value_array hvalues⟩,
      List.forall_mem_singleton.mpr ⟨IsKey.chars (by decide), value_decimal _⟩⟩
  have hnodup : [ascii "content", ascii "row_start"].Nodup := by decide
  have hcontent := @valueOf_of_mem [(ascii "content", array content),
    (ascii "row_start", decimal start)] _ hnodup List.mem_cons_self
  exact ⟨_, _, _, objectOf_plain hmembers, hcontent, arrayOf_plain hvalues,
    List.forall₂_map_right_iff.mpr h⟩

end Reading

/-- **The content of a row.**  Where there is room for the row, the texts in it are, one after the
other, the characters of the row from the first one that is not zero up to the next zero; no text
is empty, and a text has the colours, the opacities and the style of each of its characters that
is no blank. -/
theorem vbi_page_row_to_json_shows (pg : VbiPage) (row : ℕ) (st : VbiChar) (out : Output)
    (hbmp : ∀ c ∈ rowCells pg row, c.unicode < 0x10000)
    (hflash : ∀ c ∈ rowCells pg row, c.flash = false)
    (hroom : ((items out.has_prop [rowText pg out.flash row st]).length : ℤ) < out.left) :
    (∃ st', vbi_page_row_to_json pg row st out =
      (true, st', out.wrote (items out.has_prop [rowText pg out.flash row st]) true)) ∧
    ∃ groups, groups.flatten = rowCells pg row ∧ (∀ cells ∈ groups, cells ≠ []) ∧
      ShowsRow pg groups (rowText pg out.flash row st) := by
  refine ⟨⟨_, vbi_page_row_to_json_fits row st out rfl rfl _ rfl hroom⟩, ?_⟩
  obtain ⟨groups, hgroups, hflatten⟩ := exists_groups_rowRuns pg row st
  have hwritable : ∀ c ∈ groups.flatten, Writable c := by
    intro c hc
    rw [hflatten] at hc
    exact ⟨mem_rowCells hc, hbmp c hc, hflash c hc⟩
  refine ⟨groups.filter fun cells => cells ≠ [], ?_, fun cells hcells => ?_, ?_⟩
  · rw [List.flatten_filter_ne_nil, hflatten]
  · exact of_decide_eq_true (List.mem_filter.mp hcells).2
  · rw [rowText_eq]
    exact showsRow_rowObject _ (forall₂_showsRun hgroups hwritable)

/-- A page of one row: behind a zero a red letter, a blank, a green quotation mark, and a zero. -/
def twoColours : VbiPage where
  pgno := 1
  rows := 1
  columns := 6
  text i :=
    if i = 1 then ⟨false, false, false, VBI_OPAQUE, 1, 0, 65⟩
    else if i = 2 then ⟨false, false, false, VBI_OPAQUE, 2, 0, 32⟩
    else if i = 3 then ⟨false, true, false, VBI_OPAQUE, 2, 0, 34⟩
    else VbiChar.zero
  color_map i := if i = 1 then 0xff else if i = 2 then 0xff00 else 0
  decoded i := by
    split_ifs
    · exact Or.inr (by decide)
    · exact Or.inr (by decide)
    · exact Or.inr (by decide)
    · exact Or.inl rfl

theorem row_twoColours :
    (∃ st', vbi_page_row_to_json twoColours 0 VbiChar.zero (o_init 500 false) = (true, st',
      (o_init 500 false).wrote (items false [rowText twoColours false 0 VbiChar.zero]) true)) ∧
    ∃ groups, groups.flatten = rowCells twoColours 0 ∧ (∀ cells ∈ groups, cells ≠ []) ∧
      ShowsRow twoColours groups (rowText twoColours false 0 VbiChar.zero) :=
  vbi_page_row_to_json_shows twoColours 0 VbiChar.zero (o_init 500 false) (by decide) (by decide)
    (by decide +kernel)

end ClosedCaptionJson
end AmlSubtitle
