import AmlSubtitle.Utils.ClosedCaptionOutput

/-!
# `utils/ClosedCaptionJson.c`: a CEA 608 page

`vbi_page_to_json` and the functions under it.

* The characters of a page are a function of their place; the buffer of a row is as long
  as its text.
* The results of the rows are ignored, and a text whose colours do not fit counts as done.
-/

namespace AmlSubtitle
namespace ClosedCaptionJson

open Json

/-! ## CEA 608 pages -/

/-- `vbi_char`. -/
structure VbiChar where
  underline : Bool
  italic : Bool
  flash : Bool
  opacity : ℕ
  foreground : ℕ
  background : ℕ
  unicode : ℕ
  deriving DecidableEq, Repr

/-- After `memset`. -/
def VbiChar.zero : VbiChar := ⟨false, false, false, 0, 0, 0, 0⟩

/-- `vbi_page`.  The decoder stores no control characters: `vbi_caption_unicode` is zero
or a character from the space on. -/
structure VbiPage where
  pgno : ℤ
  rows : ℕ
  columns : ℕ
  text : ℕ → VbiChar
  color_map : ℕ → ℕ
  decoded : ∀ i, (text i).unicode = 0 ∨ 0x20 ≤ (text i).unicode

/-- `VBI_TRANSPARENT_SPACE`. -/
def VBI_TRANSPARENT_SPACE : ℕ := 0

/-- `VBI_SEMI_TRANSPARENT`. -/
def VBI_SEMI_TRANSPARENT : ℕ := 2

/-- `VBI_OPAQUE`. -/
def VBI_OPAQUE : ℕ := 3

/-- `vbi_style_cmp`: the styles differ. -/
def vbi_style_cmp (s1 s2 : VbiChar) : Bool :=
  if s2.unicode = 0x20 ∧ (s2.opacity = 0 ∨ s2.background = 0) then false
  else s1.foreground ≠ s2.foreground || s1.background ≠ s2.background ||
    s1.opacity ≠ s2.opacity || s1.underline ≠ s2.underline || s1.italic ≠ s2.italic ||
    s1.flash ≠ s2.flash

/-- `vbi_transparent_to_str`. -/
def vbi_transparent_to_str (v : ℕ) : String :=
  if v = VBI_TRANSPARENT_SPACE then "transparent"
  else if v = VBI_SEMI_TRANSPARENT then "translucent"
  else "solid"

/-- `vbi_color_value`. -/
def vbi_color_value (col : ℕ) : ℕ :=
  let r := col &&& 0xff
  let g := (col >>> 8) &&& 0xff
  let b := (col >>> 16) &&& 0xff
  (r >>> 6) <<< 4 ||| (g >>> 6) <<< 2 ||| b >>> 6

/-- The properties `vbi_text_to_json` writes behind the colours. -/
def textProps (buf : Text) (st : VbiChar) (flash : Bool) : List (String × PropValue) :=
  [("fg_opacity", .str (ascii (vbi_transparent_to_str
      (if st.flash && flash then VBI_TRANSPARENT_SPACE else VBI_OPAQUE)))),
    ("bg_opacity", .str (ascii (vbi_transparent_to_str st.opacity))),
    ("underline", .bool st.underline),
    ("italics", .bool st.italic),
    ("data", .str (if st.flash && flash then List.replicate (cText buf).length 0x20 else buf))]

/-- A call behind whose failure the function returns 0. -/
def orDone (f g : Writer) : Writer := fun out =>
  match f out with
  | (true, out) => g out
  | (false, out) => (true, out)

/-- `vbi_text_to_json`. -/
def vbi_text_to_json (pg : VbiPage) (buf : Text) (st : VbiChar) : Writer := fun out =>
  if buf.length = 0 then
    (true, out)
  else
    inSequence [o_symbol 123,
      orDone (o_int_prop (ascii "fg_color") (vbi_color_value (pg.color_map st.foreground)))
        (orDone (o_int_prop (ascii "bg_color") (vbi_color_value (pg.color_map st.background)))
          (inSequence [o_props (textProps buf st out.flash), o_symbol 125]))] out

/-- What the loop does with a character: the variables behind it, and whether the loop goes
on. -/
def Row.put (r : Row VbiChar) (uc : ℕ) : Row VbiChar × Bool :=
  if uc = 0 ∧ r.continuance_flag = false then ({ r with start := r.start + 1 }, true)
  else if uc = 0 then ({ r with continuance_flag := true }, false)
  else ({ r with continuance_flag := true, buf := r.buf ++ put_uc uc }, true)

/-- The loop of `vbi_page_row_to_json`, with `n` columns to go. -/
def vbiColumns (pg : VbiPage) (row : ℕ) :
    ℕ → ℕ → Row VbiChar → Output → Bool × Row VbiChar × Output
  | 0, _, r, out => (true, r, out)
  | n + 1, col, r, out =>
    let pc := pg.text (row * pg.columns + col)
    let written :=
      if vbi_style_cmp r.st pc then vbi_text_to_json pg r.buf r.st out else (true, out)
    match written with
    | (false, out) => (false, r, out)
    | (true, out) =>
      let r := if vbi_style_cmp r.st pc then { r with buf := [], st := pc } else r
      match r.put pc.unicode with
      | (r, true) => vbiColumns pg row n (col + 1) r out
      | (r, false) => (true, r, out)

/-- `vbi_page_row_to_json`; it also changes `st`. -/
def vbi_page_row_to_json (pg : VbiPage) (row : ℕ) (st : VbiChar) (out : Output) :
    Bool × VbiChar × Output :=
  match inSequence [o_symbol 123, o_prop_begin (ascii "content"), o_symbol 91] out with
  | (false, out) => (false, st, out)
  | (true, out) =>
    match vbiColumns pg row pg.columns 0 ⟨[], 0, false, st⟩ out with
    | (false, r, out) => (false, r.st, out)
    | (true, r, out) =>
      let done := inSequence [vbi_text_to_json pg r.buf r.st, o_symbol 93, o_prop_end,
        o_props [("row_start", .int r.start)], o_symbol 125] out
      (done.1, r.st, done.2)

/-- The loop over the rows of a page, with `n` rows to go.  The results are ignored. -/
def vbiRows (pg : VbiPage) : ℕ → ℕ → VbiChar → Output → Output
  | 0, _, _, out => out
  | n + 1, i, st, out =>
    let (_, st, out) := vbi_page_row_to_json pg i st out
    vbiRows pg n (i + 1) st out

/-- The properties of the window of a page. -/
def pageProps (pg : VbiPage) : List (String × PropValue) :=
  [("anchor_point", .int 0), ("anchor_horizontal", .int 0), ("anchor_vertical", .int 0),
    ("anchor_relative", .bool false), ("row_count", .int 15), ("column_count", .int 42),
    ("row_lock", .bool true), ("column_lock", .bool true), ("justify", .str (ascii "left")),
    ("print_direction", .str (ascii "left_right")),
    ("scroll_direction", .str (ascii "bottom_top")), ("wordwrap", .bool true),
    ("display_effect", .str (ascii "snap")), ("effect_direction", .str (ascii "left_right")),
    ("effect_speed", .int 0),
    ("fill_opacity", .str (ascii (if 5 ≤ pg.pgno ∧ pg.pgno ≤ 8 then "solid" else "transparent"))),
    ("fill_color", .int 0), ("border_type", .str (ascii "none")), ("border_color", .int 0)]

/-- `vbi_page_to_json` up to the loop over the rows. -/
def vbiPageHead (pg : VbiPage) : Writer :=
  inSequence [o_symbol 123, o_props [("type", .str (ascii "cea608"))],
    o_prop_begin (ascii "windows"), o_symbol 91, o_symbol 123, o_props (pageProps pg),
    o_prop_begin (ascii "rows"), o_symbol 91]

/-- `vbi_page_to_json`. -/
def vbi_page_to_json (pg : VbiPage) : Writer :=
  inSequence [vbiPageHead pg, fun out => (true, vbiRows pg pg.rows 0 VbiChar.zero out),
    o_symbol 93, o_symbol 125, o_symbol 93, o_symbol 125]

end ClosedCaptionJson
end AmlSubtitle
