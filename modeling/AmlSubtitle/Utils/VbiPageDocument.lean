import AmlSubtitle.Utils.VbiPageJson

/-!
# What is written of a CEA 608 page

* `vbiPageText`: the whole document of a page; `vbiPageHeadText` and `vbiPageRowsText` are its
  beginnings up to the rows and behind them.
* `vbi_page_to_json_of_rows_fit`, `vbi_page_to_json_stops`: **a page whose rows fit is written
  as a whole or the call fails, and so is one that does not fit up to its rows.**
* `value_vbiPageText`: the document is a JSON value.
-/

namespace AmlSubtitle
namespace ClosedCaptionJson

open Json

/-! ## The document -/

/-- The colours of a text. -/
def colorProps (pg : VbiPage) (st : VbiChar) : List (String × PropValue) :=
  [("fg_color", .int (vbi_color_value (pg.color_map st.foreground))),
    ("bg_color", .int (vbi_color_value (pg.color_map st.background)))]

/-- The text written with one style, if there is any. -/
def vbiTexts (pg : VbiPage) (flash : Bool) (buf : Text) (st : VbiChar) : List Text :=
  if buf.length = 0 then []
  else [object (propTexts (colorProps pg st ++ textProps buf st flash))]

/-- The texts written in the loop over the columns, and the variables behind it. -/
def vbiColumnTexts (pg : VbiPage) (flash : Bool) (row : ℕ) :
    ℕ → ℕ → Row VbiChar → List Text × Row VbiChar
  | 0, _, r => ([], r)
  | n + 1, col, r =>
    let pc := pg.text (row * pg.columns + col)
    let written := if vbi_style_cmp r.st pc then vbiTexts pg flash r.buf r.st else []
    let r := if vbi_style_cmp r.st pc then { r with buf := [], st := pc } else r
    match r.put pc.unicode with
    | (r, true) =>
      let rest := vbiColumnTexts pg flash row n (col + 1) r
      (written ++ rest.1, rest.2)
    | (r, false) => (written, r)

/-- A row, from the texts of its columns and the variables behind them. -/
def vbiRowText (pg : VbiPage) (flash : Bool) (columns : List Text × Row VbiChar) : Text :=
  rowObject (columns.1 ++ vbiTexts pg flash columns.2.buf columns.2.st) columns.2.start

/-- The rows, with `n` to go. -/
def vbiRowTexts (pg : VbiPage) (flash : Bool) : ℕ → ℕ → VbiChar → List Text
  | 0, _, _ => []
  | n + 1, i, st =>
    let columns := vbiColumnTexts pg flash i pg.columns 0 ⟨[], 0, false, st⟩
    vbiRowText pg flash columns :: vbiRowTexts pg flash n (i + 1) columns.2.st

/-- The document of a page. -/
def vbiPageText (pg : VbiPage) (flash : Bool) : Text :=
  object (propTexts [("type", .str (ascii "cea608"))] ++
    [member (ascii "windows") (array [object (propTexts (pageProps pg) ++
      [member (ascii "rows") (array (vbiRowTexts pg flash pg.rows 0 VbiChar.zero))])])])

/-- The document up to the first row. -/
def vbiPageHeadText (pg : VbiPage) : Text :=
  [123] ++ (items false (propTexts [("type", .str (ascii "cea608"))]) ++
    (([44] ++ (quoted (ascii "windows") ++ [58])) ++ ([91] ++ ([123] ++
      (items false (propTexts (pageProps pg)) ++
        (([44] ++ (quoted (ascii "rows") ++ [58])) ++ [91]))))))

/-- The document up to the last row. -/
def vbiPageRowsText (pg : VbiPage) (flash : Bool) : Text :=
  vbiPageHeadText pg ++ items false (vbiRowTexts pg flash pg.rows 0 VbiChar.zero)

/-! ## What is written -/

section Written

variable {pg : VbiPage} {flash p : Bool}

/-- `f` writes what `g` writes, and differs only in that it may hide a failure. -/
def Hides (f g : Writer) : Prop :=
  ∀ out, (f out).2 = (g out).2 ∧ ((g out).1 = true → (f out).1 = true)

theorem Hides.cons {fs gs : List Writer} (h : Hides (inSequence fs) (inSequence gs))
    (f : Writer) : Hides (inSequence (f :: fs)) (inSequence (f :: gs)) := by
  intro out
  rw [inSequence_cons, inSequence_cons]
  split_ifs
  · exact h _
  · exact ⟨rfl, id⟩

theorem Hides.orDone {g : Writer} {gs : List Writer} (h : Hides g (inSequence gs)) (f : Writer) :
    Hides (orDone f g) (inSequence (f :: gs)) := by
  intro out
  rw [ClosedCaptionJson.orDone, inSequence]
  rcases f out with ⟨_ | _, out'⟩
  · exact ⟨rfl, fun _ => rfl⟩
  · exact h out'

theorem inSequence_one (f : Writer) : inSequence [f] = f := by
  funext out
  rw [inSequence]
  rcases f out with ⟨_ | _, out'⟩ <;> rfl

/-- `vbi_text_to_json` as it were if the colours were like the other properties. -/
def strictText (pg : VbiPage) (buf : Text) (st : VbiChar) (flash : Bool) : Writer :=
  inSequence [o_symbol 123,
    o_prop (ascii "fg_color") (.int (vbi_color_value (pg.color_map st.foreground))),
    o_prop (ascii "bg_color") (.int (vbi_color_value (pg.color_map st.background))),
    o_props (textProps buf st flash), o_symbol 125]

theorem emits_strictText {buf : Text} (st : VbiChar) (hbuf : buf.length ≠ 0) (p : Bool) :
    Emits flash (strictText pg buf st flash) p (items p (vbiTexts pg flash buf st)) true := by
  refine ((emits_open (Or.inr rfl)).cons ((emitsItems_prop _ _ false).cons
    ((emitsItems_prop _ _ true).cons ((emitsItems_props _ true).cons
      (emits_close (Or.inr rfl)).one)))).congr ?_
  rw [vbiTexts, if_neg hbuf]
  simp only [items, object, propTexts, colorProps, List.map_cons, List.cons_append,
    List.nil_append, List.append_nil, List.append_assoc, if_true, if_false, Bool.false_eq_true]

theorem hides_text (pg : VbiPage) {buf : Text} (st : VbiChar) (hbuf : buf.length ≠ 0)
    (out : Output) :
    (vbi_text_to_json pg buf st out).2 = (strictText pg buf st out.flash out).2 ∧
      ((strictText pg buf st out.flash out).1 = true →
        (vbi_text_to_json pg buf st out).1 = true) := by
  have hcolors : Hides _ (inSequence [
      o_prop (ascii "fg_color") (.int (vbi_color_value (pg.color_map st.foreground))),
      o_prop (ascii "bg_color") (.int (vbi_color_value (pg.color_map st.background))),
      o_props (textProps buf st out.flash), o_symbol 125]) :=
    Hides.orDone (Hides.orDone (fun _ => ⟨rfl, id⟩) _) _
  rw [vbi_text_to_json, if_neg hbuf]
  rw [← inSequence_one (orDone _ _)] at hcolors
  exact hcolors.cons _ out

theorem fits_text (buf : Text) (st : VbiChar) :
    Fits flash (vbi_text_to_json pg buf st) p (items p (vbiTexts pg flash buf st))
      (p || !(vbiTexts pg flash buf st).isEmpty) := by
  by_cases hempty : buf.length = 0
  · rw [vbiTexts, if_pos hempty]
    rintro ⟨text, left, has_prop, fl⟩ rfl rfl -
    simp [vbi_text_to_json, hempty, items, Output.wrote]
  · have hemits : Emits flash (strictText pg buf st flash) p _ true := emits_strictText st hempty p
    intro out hp hflash hroom
    obtain ⟨hres, htrue⟩ := hides_text pg st hempty out
    rw [hflash, hemits.fits out hp hflash hroom] at hres htrue
    have hsome : (p || !(vbiTexts pg flash buf st).isEmpty) = true := by
      rw [vbiTexts, if_neg hempty]
      exact Bool.or_true p
    rw [hsome]
    exact Prod.ext (htrue rfl) hres

/-- The output behind items is the output behind the first of them and then the others. -/
theorem wrote_items (out : Output) (l l' : List Text) (q : Bool) :
    (out.wrote (items p l) (p || !l.isEmpty)).wrote (items (p || !l.isEmpty) l') q =
      out.wrote (items p (l ++ l')) q := by
  rw [wrote_wrote, items_append]

theorem items_cons (d : Text) (l : List Text) :
    items p (d :: l) = items p [d] ++ items true l := by
  rw [items, items, items, List.append_nil, List.append_assoc]

theorem length_items_append (l l' : List Text) : ((items p (l ++ l')).length : ℤ) =
    (items p l).length + (items (p || !l.isEmpty) l').length := by
  rw [items_append, List.length_append, Nat.cast_add]

/-- What is written in front of a character when the style changes. -/
def changeWriter (pg : VbiPage) (r : Row VbiChar) (i : ℕ) : Writer := fun out =>
  if vbi_style_cmp r.st (pg.text i) then vbi_text_to_json pg r.buf r.st out else (true, out)

/-- The text of it. -/
def changeTexts (pg : VbiPage) (flash : Bool) (r : Row VbiChar) (i : ℕ) : List Text :=
  if vbi_style_cmp r.st (pg.text i) then vbiTexts pg flash r.buf r.st else []

/-- The variables behind a character, and whether the loop goes on. -/
def nextRow (pg : VbiPage) (r : Row VbiChar) (i : ℕ) : Row VbiChar × Bool :=
  (if vbi_style_cmp r.st (pg.text i) then { r with buf := [], st := pg.text i } else r).put
    (pg.text i).unicode

theorem put_eq_nextRow (pg : VbiPage) (r : Row VbiChar) (i : ℕ) :
    Row.put (if vbi_style_cmp r.st (pg.text i) then { r with buf := [], st := pg.text i } else r)
      (pg.text i).unicode = nextRow pg r i := rfl

theorem vbiColumns_succ (row n col : ℕ) (r : Row VbiChar) (out : Output) :
    vbiColumns pg row (n + 1) col r out =
      if (changeWriter pg r (row * pg.columns + col) out).1 then
        if (nextRow pg r (row * pg.columns + col)).2 then
          vbiColumns pg row n (col + 1) (nextRow pg r (row * pg.columns + col)).1
            (changeWriter pg r (row * pg.columns + col) out).2
        else (true, (nextRow pg r (row * pg.columns + col)).1,
          (changeWriter pg r (row * pg.columns + col) out).2)
      else (false, r, (changeWriter pg r (row * pg.columns + col) out).2) := by
  have hwritten : (if vbi_style_cmp r.st (pg.text (row * pg.columns + col)) then
      vbi_text_to_json pg r.buf r.st out else (true, out)) =
        changeWriter pg r (row * pg.columns + col) out := rfl
  rw [vbiColumns]
  dsimp only
  rw [hwritten]
  rcases changeWriter pg r (row * pg.columns + col) out with ⟨_ | _, out'⟩
  · rfl
  · dsimp only
    rw [put_eq_nextRow]
    rcases nextRow pg r (row * pg.columns + col) with ⟨r', _ | _⟩ <;> rfl

theorem vbiColumnTexts_succ (row n col : ℕ) (r : Row VbiChar) :
    vbiColumnTexts pg flash row (n + 1) col r =
      if (nextRow pg r (row * pg.columns + col)).2 then
        (changeTexts pg flash r (row * pg.columns + col) ++
          (vbiColumnTexts pg flash row n (col + 1) (nextRow pg r (row * pg.columns + col)).1).1,
        (vbiColumnTexts pg flash row n (col + 1) (nextRow pg r (row * pg.columns + col)).1).2)
      else (changeTexts pg flash r (row * pg.columns + col),
        (nextRow pg r (row * pg.columns + col)).1) := by
  rw [vbiColumnTexts]
  dsimp only
  rw [put_eq_nextRow]
  rcases nextRow pg r (row * pg.columns + col) with ⟨r', _ | _⟩ <;> rfl

theorem fits_changeWriter (pg : VbiPage) (r : Row VbiChar) (i : ℕ) :
    Fits flash (changeWriter pg r i) p (items p (changeTexts pg flash r i))
      (p || !(changeTexts pg flash r i).isEmpty) := by
  unfold changeWriter changeTexts
  cases vbi_style_cmp r.st (pg.text i)
  · rintro ⟨text, left, has_prop, fl⟩ rfl rfl -
    simp [items, Output.wrote]
  · exact fits_text r.buf r.st

theorem vbiColumns_fits (row n col : ℕ) (r : Row VbiChar) (out : Output)
    (hp : out.has_prop = p) (hflash : out.flash = flash)
    (hroom : ((items p (vbiColumnTexts pg flash row n col r).1).length : ℤ) < out.left) :
    vbiColumns pg row n col r out = (true, (vbiColumnTexts pg flash row n col r).2,
      out.wrote (items p (vbiColumnTexts pg flash row n col r).1)
        (p || !(vbiColumnTexts pg flash row n col r).1.isEmpty)) := by
  induction n generalizing p col r out with
  | zero =>
    obtain ⟨text, left, has_prop, fl⟩ := out
    obtain rfl := hp
    simp [vbiColumns, vbiColumnTexts, items, Output.wrote]
  | succ n ih =>
    have hchange := fits_changeWriter pg r (row * pg.columns + col) out hp hflash
    rw [vbiColumnTexts_succ] at hroom ⊢
    rw [vbiColumns_succ]
    generalize changeTexts pg flash r (row * pg.columns + col) = here at hroom hchange ⊢
    by_cases hgo : (nextRow pg r (row * pg.columns + col)).2 = true
    · rw [if_pos hgo] at hroom ⊢
      rw [if_pos hgo]
      rw [length_items_append] at hroom
      rw [hchange (by omega), if_pos rfl]
      have hrest := ih (p := p || !here.isEmpty) (col + 1)
        (nextRow pg r (row * pg.columns + col)).1
        (out.wrote (items p here) (p || !here.isEmpty)) rfl hflash (by
          show _ < out.left - ((items p here).length : ℤ)
          omega)
      rw [hrest, wrote_items, or_isEmpty_append]
    · rw [if_neg hgo] at hroom ⊢
      rw [if_neg hgo, hchange hroom, if_pos rfl]

theorem vbi_page_row_to_json_fits (row : ℕ) (st : VbiChar) (out : Output)
    (hp : out.has_prop = p) (hflash : out.flash = flash) (columns : List Text × Row VbiChar)
    (hcolumns : columns = vbiColumnTexts pg flash row pg.columns 0 ⟨[], 0, false, st⟩)
    (hroom : ((items p [vbiRowText pg flash columns]).length : ℤ) < out.left) :
    vbi_page_row_to_json pg row st out =
      (true, columns.2.st, out.wrote (items p [vbiRowText pg flash columns]) true) := by
  have hend : Fits flash (inSequence [vbi_text_to_json pg columns.2.buf columns.2.st, o_symbol 93,
      o_prop_end, o_props [("row_start", .int columns.2.start)], o_symbol 125])
      (false || !columns.1.isEmpty)
      (items (false || !columns.1.isEmpty) (vbiTexts pg flash columns.2.buf columns.2.st) ++
        rowEnd columns.2.start) true :=
    (fits_text _ _).cons (emits_rowEnd _).fits
  rw [vbiRowText, items_rowObject] at hroom ⊢
  generalize items (false || !columns.1.isEmpty) (vbiTexts pg flash columns.2.buf columns.2.st) ++
    rowEnd columns.2.start = last at hend hroom ⊢
  simp only [List.length_append, Nat.cast_add] at hroom
  have hloop := vbiColumns_fits (p := false) row pg.columns 0 ⟨[], 0, false, st⟩
    (out.wrote (rowBegin p) false) rfl hflash (by
      rw [← hcolumns]
      show _ < out.left - ((rowBegin p).length : ℤ)
      omega)
  rw [← hcolumns] at hloop
  rw [vbi_page_row_to_json, emits_rowBegin.fits out hp hflash (by omega)]
  dsimp only
  rw [hloop]
  dsimp only
  rw [hend ((out.wrote (rowBegin p) false).wrote (items false columns.1)
    (false || !columns.1.isEmpty)) rfl hflash (by
      show _ < out.left - ((rowBegin p).length : ℤ) - ((items false columns.1).length : ℤ)
      omega), wrote_wrote, wrote_wrote]

theorem vbiRows_fits (n i : ℕ) (st : VbiChar) :
    Fits flash (fun out => (true, vbiRows pg n i st out)) p
      (items p (vbiRowTexts pg flash n i st)) (p || !(vbiRowTexts pg flash n i st).isEmpty) := by
  induction n generalizing p i st with
  | zero =>
    rintro ⟨text, left, has_prop, fl⟩ rfl rfl -
    simp [vbiRows, vbiRowTexts, items, Output.wrote]
  | succ n ih =>
    intro out hp hflash hroom
    rw [vbiRowTexts] at hroom ⊢
    generalize hcolumns : vbiColumnTexts pg flash i pg.columns 0 ⟨[], 0, false, st⟩ = columns
      at hroom ⊢
    dsimp only at hroom ⊢
    rw [items_cons] at hroom ⊢
    rw [List.length_append, Nat.cast_add] at hroom
    have hrow := vbi_page_row_to_json_fits i st out hp hflash columns hcolumns.symm (by omega)
    have hrest := ih (p := true) (i + 1) columns.2.st
      (out.wrote (items p [vbiRowText pg flash columns]) true) rfl hflash (by
        show _ < out.left - ((items p [vbiRowText pg flash columns]).length : ℤ)
        omega)
    rw [wrote_wrote] at hrest
    rw [vbiRows, hrow, List.isEmpty_cons, Bool.not_false, Bool.or_true]
    exact hrest

theorem emits_vbiPageHead : Emits flash (vbiPageHead pg) false (vbiPageHeadText pg) false :=
  (emits_open (p := false) (Or.inr rfl)).cons ((emitsItems_props _ false).cons
    ((emits_prop_begin (p := true) _).cons ((emits_open (p := false) (Or.inl rfl)).cons
      ((emits_open (p := false) (Or.inr rfl)).cons ((emitsItems_props _ false).cons
        ((emits_prop_begin (p := true) _).cons (emits_open (p := false) (Or.inl rfl)).one))))))

theorem emits_vbiPageTail (p : Bool) : Emits flash (inSequence [o_symbol 93, o_symbol 125,
    o_symbol 93, o_symbol 125]) p [93, 125, 93, 125] true :=
  (emits_close (Or.inl rfl)).cons ((emits_close (Or.inr rfl)).cons
    ((emits_close (Or.inl rfl)).cons (emits_close (Or.inr rfl)).one))

theorem vbiPageText_eq : vbiPageText pg flash = vbiPageRowsText pg flash ++ [93, 125, 93, 125] := by
  have hprops : (false || !(propTexts (pageProps pg)).isEmpty) = true := rfl
  rw [vbiPageText, vbiPageRowsText, vbiPageHeadText]
  generalize propTexts (pageProps pg) = props at hprops ⊢
  simp only [items, object, array, member, items_append, hprops, propTexts, List.map_cons,
    List.map_nil, List.append_assoc, List.cons_append, List.nil_append, List.append_nil, if_true,
    if_false, Bool.false_eq_true]

/-- A page whose rows fit is written as a whole, or the call fails. -/
theorem vbi_page_to_json_of_rows_fit {out : Output} (hp : out.has_prop = false)
    (hflash : out.flash = flash) (hroom : ((vbiPageRowsText pg flash).length : ℤ) < out.left)
    (hok : (vbi_page_to_json pg out).1 = true) :
    ((vbiPageText pg flash).length : ℤ) < out.left ∧
      vbi_page_to_json pg out = (true, out.wrote (vbiPageText pg flash) true) := by
  have hrows : Fits flash (inSequence [vbiPageHead pg,
      fun out => (true, vbiRows pg pg.rows 0 VbiChar.zero out)]) false
      (vbiPageRowsText pg flash ++ []) _ :=
    (emits_vbiPageHead.fits.cons ((vbiRows_fits _ _ _).cons fits_nil)).congr (by
      rw [vbiPageRowsText, List.append_nil, List.append_nil])
  have hwriter : vbi_page_to_json pg = inSequence [inSequence [vbiPageHead pg,
      fun out => (true, vbiRows pg pg.rows 0 VbiChar.zero out)],
      inSequence [o_symbol 93, o_symbol 125, o_symbol 93, o_symbol 125]] :=
    inSequence_append [_, _] _
  rw [List.append_nil] at hrows
  generalize (false || !(vbiRowTexts pg flash pg.rows 0 VbiChar.zero).isEmpty) = q at hrows
  rw [hwriter] at hok ⊢
  by_cases htail : ((vbiPageText pg flash).length : ℤ) < out.left
  · rw [vbiPageText_eq] at htail ⊢
    exact ⟨htail, hrows.cons (emits_vbiPageTail _).one.fits out hp hflash htail⟩
  · rw [vbiPageText_eq, List.length_append, Nat.cast_add] at htail
    rw [inSequence, hrows out hp hflash hroom] at hok
    have hstop := (emits_vbiPageTail q).one.stops (out.wrote (vbiPageRowsText pg flash) q)
      rfl hflash (by
        show 0 < out.left - ((vbiPageRowsText pg flash).length : ℤ)
        omega) (by
        show out.left - ((vbiPageRowsText pg flash).length : ℤ) ≤ _
        omega)
    exact absurd hok (ne_true_of_eq_false hstop)

/-- A page that does not fit up to its rows. -/
theorem vbi_page_to_json_stops {out : Output} (hp : out.has_prop = false)
    (hroom : out.left ≤ (vbiPageHeadText pg).length) : (vbi_page_to_json pg out).1 = false := by
  have hhead : (vbiPageHead pg out).1 = false := by
    by_cases hleft : 0 < out.left
    · exact emits_vbiPageHead.stops out hp rfl hleft hroom
    · exact symbol_of_no_room _ _ (not_lt.mp hleft)
  rw [vbi_page_to_json, inSequence]
  rcases hres : vbiPageHead pg out with ⟨ok, out'⟩
  rw [hres] at hhead
  rw [show ok = false from hhead]

end Written

/-! ## The document is well formed -/

section Value

variable {pg : VbiPage} {flash : Bool}

/-- What the buffer of a row holds is no control character. -/
theorem Row.put_printable {r : Row VbiChar} {uc : ℕ} (hr : Printable r.buf)
    (huc : uc = 0 ∨ 0x20 ≤ uc) : Printable (r.put uc).1.buf := by
  unfold Row.put
  split_ifs with hstart hend
  · exact hr
  · exact hr
  · exact hr.append (printable_put_uc (huc.resolve_left hend))

theorem isPrintable_text (pg : VbiPage) {buf : Text} (st : VbiChar) (hbuf : Printable buf) :
    ∀ prop ∈ colorProps pg st ++ textProps buf st flash, IsKey prop.1 ∧ prop.2.IsPrintable := by
  have hopacity : ∀ v, Printable (ascii (vbi_transparent_to_str v)) := by
    intro v
    unfold vbi_transparent_to_str
    split_ifs <;> decide
  have hdata : Printable (if st.flash && flash then List.replicate (cText buf).length 0x20
      else buf) := by
    split_ifs
    · intro c hc
      rw [List.eq_of_mem_replicate hc]
      decide
    · exact hbuf
  simp only [colorProps, textProps, List.cons_append, List.nil_append, List.forall_mem_cons]
  exact ⟨⟨by decide, trivial⟩, ⟨by decide, trivial⟩, ⟨by decide, hopacity _⟩,
    ⟨by decide, hopacity _⟩, ⟨by decide, trivial⟩, ⟨by decide, trivial⟩, ⟨by decide, hdata⟩,
    fun _ hprop => absurd hprop List.not_mem_nil⟩

theorem value_vbiTexts {buf : Text} {st : VbiChar} (hbuf : Printable buf) :
    ∀ v ∈ vbiTexts pg flash buf st, Value v := by
  unfold vbiTexts
  split_ifs with hempty
  · exact fun v hv => absurd hv List.not_mem_nil
  · rintro v hv
    rw [List.mem_singleton.mp hv]
    exact value_object (isMember_props (isPrintable_text pg st hbuf))

theorem value_changeTexts (pg : VbiPage) (flash : Bool) {r : Row VbiChar} (hr : Printable r.buf)
    (i : ℕ) :
    ∀ v ∈ changeTexts pg flash r i, Value v := by
  unfold changeTexts
  split_ifs
  · exact value_vbiTexts hr
  · exact fun v hv => absurd hv List.not_mem_nil

theorem printable_nextRow (pg : VbiPage) {r : Row VbiChar} (hr : Printable r.buf) (i : ℕ) :
    Printable (nextRow pg r i).1.buf := by
  refine Row.put_printable ?_ (pg.decoded i)
  split_ifs
  · exact fun c hc => absurd hc List.not_mem_nil
  · exact hr

theorem value_vbiColumnTexts (pg : VbiPage) (flash : Bool) (row n col : ℕ) {r : Row VbiChar}
    (hr : Printable r.buf) : (∀ v ∈ (vbiColumnTexts pg flash row n col r).1, Value v) ∧
      Printable (vbiColumnTexts pg flash row n col r).2.buf := by
  induction n generalizing col r with
  | zero => exact ⟨fun v hv => absurd hv List.not_mem_nil, hr⟩
  | succ n ih =>
    have hhere := value_changeTexts pg flash hr (row * pg.columns + col)
    have hnext := printable_nextRow pg hr (row * pg.columns + col)
    rw [vbiColumnTexts_succ]
    split_ifs
    · obtain ⟨hrest, hbuf⟩ := ih (col + 1) hnext
      exact ⟨fun v hv => (List.mem_append.mp hv).elim (hhere v) (hrest v), hbuf⟩
    · exact ⟨hhere, hnext⟩

theorem value_vbiRowText {columns : List Text × Row VbiChar} (hcolumns : ∀ v ∈ columns.1, Value v)
    (hbuf : Printable columns.2.buf) : Value (vbiRowText pg flash columns) :=
  value_rowObject (fun v hv => (List.mem_append.mp hv).elim (hcolumns v) (value_vbiTexts hbuf v)) _

theorem value_vbiRowTexts (n i : ℕ) (st : VbiChar) :
    ∀ v ∈ vbiRowTexts pg flash n i st, Value v := by
  induction n generalizing i st with
  | zero => exact fun v hv => absurd hv List.not_mem_nil
  | succ n ih =>
    intro v hv
    rw [vbiRowTexts] at hv
    rcases List.mem_cons.mp hv with rfl | hv
    · have hcolumns := value_vbiColumnTexts pg flash i pg.columns 0
        (show Printable (⟨[], 0, false, st⟩ : Row VbiChar).buf from
          fun c hc => absurd hc List.not_mem_nil)
      exact value_vbiRowText hcolumns.1 hcolumns.2
    · exact ih (i + 1) _ v hv

theorem isPrintable_pageProps (pg : VbiPage) :
    ∀ prop ∈ pageProps pg, IsKey prop.1 ∧ prop.2.IsPrintable := by
  by_cases hpgno : 5 ≤ pg.pgno ∧ pg.pgno ≤ 8
  · rw [pageProps, if_pos hpgno]
    decide
  · rw [pageProps, if_neg hpgno]
    decide

/-- The document of a page is a JSON value. -/
theorem value_vbiPageText (pg : VbiPage) (flash : Bool) : Value (vbiPageText pg flash) := by
  have hprops := isMember_props (isPrintable_pageProps pg)
  have hwindow : Value (object (propTexts (pageProps pg) ++
      [member (ascii "rows") (array (vbiRowTexts pg flash pg.rows 0 VbiChar.zero))])) := by
    refine value_object fun s hs => (List.mem_append.mp hs).elim (hprops s) fun hs => ?_
    rw [List.mem_singleton.mp hs]
    exact isMember (by decide) (value_array (value_vbiRowTexts _ _ _))
  refine value_object fun s hs => (List.mem_append.mp hs).elim ?_ fun hs => ?_
  · exact isMember_props (by decide) s
  · rw [List.mem_singleton.mp hs]
    refine isMember (by decide) (value_array fun v hv => ?_)
    rw [List.mem_singleton.mp hv]
    exact hwindow

end Value

end ClosedCaptionJson
end AmlSubtitle
