import AmlSubtitle.Utils.ClosedCaptionOutput

/-!
# `utils/ClosedCaptionJson.c`: a CEA 708 service

`dtvcc_service_to_json` and the functions under it, with `dtvcc_unicode` of the decoder.

* A `Step` is a call that also changes variables; when it fails the caller fails too, and
  the variables do not matter.
* Two results are ignored, those for `rollup` and `curr_row`.
-/

namespace AmlSubtitle
namespace ClosedCaptionJson

open Json Words

/-! ## Services -/

/-- `enum justify`. -/
inductive Justify where
  | left | right | center | full
  deriving DecidableEq, Repr

/-- `enum direction`. -/
inductive Direction where
  | left_right | right_left | top_bottom | bottom_top
  deriving DecidableEq, Repr

/-- `enum display_effect`. -/
inductive DisplayEffect where
  | snap | fade | wipe
  deriving DecidableEq, Repr

/-- `enum cc_effect_status`. -/
inductive CcEffectStatus where
  | none | display | hide
  deriving DecidableEq, Repr

/-- `enum opacity`. -/
inductive Opacity where
  | solid | flash | translucent | transparent
  deriving DecidableEq, Repr

/-- `enum edge`. -/
inductive Edge where
  | none | raised | depressed | uniform | shadow_left | shadow_right
  deriving DecidableEq, Repr

/-- `enum pen_size`; the decoder also stores the value behind the last. -/
inductive PenSize where
  | small | standard | large | reserved
  deriving DecidableEq, Repr

/-- `enum font_style`. -/
inductive FontStyle where
  | default | mono_serif | prop_serif | mono_sans | prop_sans | casual | cursive | small_caps
  deriving DecidableEq, Repr

/-- `enum offset`; the decoder also stores the value behind the last. -/
inductive PenOffset where
  | subscript | normal | superscript | reserved
  deriving DecidableEq, Repr

/-- `dtvcc_pen_style`. -/
structure DtvccPenStyle where
  pen_size : PenSize
  font_style : FontStyle
  offset : PenOffset
  italics : Bool
  underline : Bool
  edge_type : Edge
  fg_color : ℕ
  fg_opacity : Opacity
  bg_color : ℕ
  bg_opacity : Opacity
  edge_color : ℕ
  fg_flash : Bool
  bg_flash : Bool
  deriving DecidableEq, Repr

/-- After `memset`. -/
def DtvccPenStyle.zero : DtvccPenStyle :=
  ⟨.small, .default, .subscript, false, false, .none, 0, .solid, 0, .solid, 0, false, false⟩

/-- The part of `dtvcc_window_style` that is written. -/
structure DtvccWindowStyle where
  justify : Justify
  print_direction : Direction
  scroll_direction : Direction
  wordwrap : Bool
  display_effect : DisplayEffect
  effect_direction : Direction
  effect_speed : ℕ
  fill_color : ℕ
  fill_opacity : Opacity
  border_type : Edge
  border_color : ℕ
  need_rollup : Bool
  curr_row : ℕ

/-- The part of `dtvcc_window` that is written.  The characters and pens are a function of
the row and the column. -/
structure DtvccWindow where
  buffer : ℕ → ℕ → ℕ
  pen : ℕ → ℕ → DtvccPenStyle
  visible : Bool
  priority : ℕ
  anchor_point : ℕ
  anchor_horizontal : ℕ
  anchor_vertical : ℕ
  anchor_relative : Bool
  row_count : ℕ
  column_count : ℕ
  row_lock : Bool
  column_lock : Bool
  column_no_lock_length : ℕ
  row_no_lock_length : ℕ
  style : DtvccWindowStyle
  effect_percent : ℤ
  effect_status : CcEffectStatus

/-- `dtvcc_service`. -/
structure DtvccService where
  window : Fin 8 → DtvccWindow

/-- The part of `dtvcc_decoder` that is read. -/
structure DtvccDecoder where
  lang : Text
  decoder_param : ℕ
  service : Fin 6 → DtvccService

/-! ## Characters -/

/-- `dtvcc_g2`. -/
def dtvcc_g2 : List ℕ :=
  [0x0020, 0x00A0, 0, 0, 0, 0x2026, 0, 0, 0, 0, 0x0160, 0, 0x0152, 0, 0, 0,
    0x2588, 0x2018, 0x2019, 0x201C, 0x201D, 0x2022, 0, 0, 0, 0x2122, 0x0161, 0, 0x0153, 0x2120, 0,
    0x0178] ++ List.replicate 54 0 ++
  [0x215B, 0x215C, 0x215D, 0x215E, 0x2502, 0x2510, 0x2514, 0x2500, 0x2518, 0x250C]

/-- `dtvcc_unicode_real`. -/
def dtvcc_unicode_real (c : ℕ) : ℕ :=
  if c ≤ 0x1200 then
    if c &&& 0x60 = 0 then 0
    else if c < 0x100 then
      if c = 0xAD then 0x2D
      else if c = 0x7F then 0x266A
      else c
    else if c < 0x1080 then
      if c < 0x1020 then 0 else dtvcc_g2.getD (c - 0x1020) 0
    else if c = 0x10A0 then 0xf101
    else 0
  else c

/-- `dtvcc_unicode`. -/
def dtvcc_unicode (c : ℕ) : ℕ :=
  if dtvcc_unicode_real c = 0 then 0x5f else dtvcc_unicode_real c

/-! ## Names -/

/-- `effect_status_to_str`. -/
def effect_status_to_str : CcEffectStatus → String
  | .none => "NONE"
  | .display => "DISPLAY"
  | .hide => "HIDE"

/-- `direction_to_str`. -/
def direction_to_str : Direction → String
  | .left_right => "left_right"
  | .right_left => "right_left"
  | .top_bottom => "top_bottom"
  | .bottom_top => "bottom_top"

/-- `opacity_to_str`. -/
def opacity_to_str : Opacity → String
  | .solid => "solid"
  | .flash => "flash"
  | .translucent => "translucent"
  | .transparent => "transparent"

/-- `edge_to_str`. -/
def edge_to_str : Edge → String
  | .none => "none"
  | .raised => "raised"
  | .depressed => "depressed"
  | .uniform => "uniform"
  | .shadow_left => "shadow_left"
  | .shadow_right => "shadow_right"

/-- The name of a pen size. -/
def pen_size_to_str : PenSize → String
  | .small => "small"
  | .standard => "standard"
  | .large => "large"
  | .reserved => "standard"

/-- The name of a font style. -/
def font_style_to_str : FontStyle → String
  | .default => "default"
  | .mono_serif => "mono_serif"
  | .prop_serif => "prop_serif"
  | .mono_sans => "mono_sans"
  | .prop_sans => "prop_sans"
  | .casual => "casual"
  | .cursive => "cursive"
  | .small_caps => "small_caps"

/-- The name of an offset.  A superscript is named like a subscript. -/
def offset_to_str : PenOffset → String
  | .subscript => "subscript"
  | .normal => "normal"
  | .superscript => "subscript"
  | .reserved => "normal"

/-- The name of a justification. -/
def justify_to_str : Justify → String
  | .left => "left"
  | .right => "right"
  | .center => "center"
  | .full => "full"

/-- The name of a display effect. -/
def display_effect_to_str : DisplayEffect → String
  | .snap => "snap"
  | .fade => "fade"
  | .wipe => "wipe"

/-! ## Calls that change variables -/

/-- A call: the variables behind it, or nothing when it fails, and the output. -/
abbrev Step (σ : Type) := Output → Option σ × Output

/-- A writer, and the variables behind it. -/
def returning {σ : Type} (f : Writer) (s : σ) : Step σ := fun out =>
  match f out with
  | (true, out) => (some s, out)
  | (false, out) => (none, out)

/-- One call behind another. -/
def Step.bind {σ τ : Type} (f : Step σ) (g : σ → Step τ) : Step τ := fun out =>
  match f out with
  | (some s, out) => g s out
  | (none, out) => (none, out)

/-- A loop over the numbers from `i`, with `n` to go. -/
def loop {σ : Type} (f : ℕ → σ → Step σ) : ℕ → ℕ → σ → Step σ
  | 0, _, s, out => (some s, out)
  | n + 1, i, s, out => (f i s).bind (loop f n (i + 1)) out

/-- A call whose variables are done with. -/
def Step.writer {σ : Type} (f : Step σ) : Writer := fun out => ((f out).1.isSome, (f out).2)

/-! ## Texts -/

/-- The properties `text_to_json` writes. -/
def penProps (buf : Text) (pt : DtvccPenStyle) : List (String × PropValue) :=
  [("pen_size", .str (ascii (pen_size_to_str pt.pen_size))),
    ("font_style", .str (ascii (font_style_to_str pt.font_style))),
    ("offset", .str (ascii (offset_to_str pt.offset))),
    ("italics", .bool pt.italics), ("underline", .bool pt.underline),
    ("edge_type", .str (ascii (edge_to_str pt.edge_type))), ("edge_color", .int pt.edge_color),
    ("fg_color", .int pt.fg_color), ("fg_opacity", .str (ascii (opacity_to_str pt.fg_opacity))),
    ("bg_color", .int pt.bg_color), ("bg_opacity", .str (ascii (opacity_to_str pt.bg_opacity))),
    ("data", .str buf)]

/-- `text_to_json`. -/
def text_to_json (buf : Text) (pt : DtvccPenStyle) : Writer :=
  inSequence [o_symbol 123, o_props (penProps buf pt), o_symbol 125]

/-! ## Rows -/

/-- The counting of the empty characters in front. -/
def Row.count {σ : Type} (r : Row σ) (c : ℕ) : Row σ :=
  if c = 0 ∧ r.continuance_flag = false then { r with start := r.start + 1 }
  else { r with continuance_flag := true }

/-- Korean text in an encoding other than Unicode. -/
def lang_korea (td : DtvccDecoder) : Bool :=
  decide (ascii "kor" <:+: cText td.lang) && !td.decoder_param.testBit 13

/-- A text of length zero is not written. -/
def ifSome (buf : Text) (pt : DtvccPenStyle) : Writer := fun out =>
  if buf.length = 0 then (true, out) else text_to_json buf pt out

/-- A character with another pen than the one in front of it. -/
def Row.changes (td : DtvccDecoder) (r : Row DtvccPenStyle) (c : ℕ) (cpt : DtvccPenStyle) : Bool :=
  !lang_korea td && c ≠ 0 && r.st ≠ cpt

/-- What a character does to the variables.  The Korean text is converted to nothing. -/
def Row.add (td : DtvccDecoder) (r : Row DtvccPenStyle) (c : ℕ) (cpt : DtvccPenStyle) :
    Row DtvccPenStyle :=
  if c = 0 then r
  else if lang_korea td then { r with st := cpt }
  else
    let uc := if dtvcc_unicode c = 0 then 0x20 else dtvcc_unicode c
    { r with buf := (if r.st ≠ cpt then [] else r.buf) ++ put_uc uc, st := cpt }

/-- The loop of `row_to_json` over the columns, for one column. -/
def column_to_json (td : DtvccDecoder) (win : DtvccWindow) (row col : ℕ)
    (r : Row DtvccPenStyle) : Step (Row DtvccPenStyle) :=
  let c := win.buffer row col
  let cpt := win.pen row col
  let r := r.count c
  returning (if r.changes td c cpt then ifSome r.buf r.st else inSequence []) (r.add td c cpt)

/-- `row_to_json`, with the pen behind it. -/
def row_to_json (td : DtvccDecoder) (win : DtvccWindow) (row : ℕ) (pt : DtvccPenStyle) :
    Step DtvccPenStyle :=
  (returning (inSequence [o_symbol 123, o_prop_begin (ascii "content"), o_symbol 91])
    (⟨[], 0, false, pt⟩ : Row DtvccPenStyle)).bind fun r =>
  (loop (column_to_json td win row) win.column_count 0 r).bind fun r =>
  returning (inSequence [ifSome r.buf r.st, o_symbol 93, o_prop_end,
    o_props [("row_start", .int r.start)], o_symbol 125]) r.st

/-! ## Windows -/

/-- The counts of rows and columns `dtvcc_window_to_json` stores in the window. -/
def DtvccWindow.final_counts (win : DtvccWindow) : DtvccWindow :=
  { win with
    row_count := if win.row_lock = false ∧ win.row_no_lock_length > win.row_count then
      win.row_no_lock_length else win.row_count
    column_count := if win.column_lock = false ∧ win.column_no_lock_length > win.column_count then
      win.column_no_lock_length else win.column_count }

/-- The properties of a window in front of the ones whose results are ignored.  An
`unsigned int` becomes an `int`. -/
def windowProps (win : DtvccWindow) : List (String × PropValue) :=
  [("anchor_point", .int (asSigned 32 win.anchor_point)),
    ("anchor_horizontal", .int (asSigned 32 win.anchor_horizontal)),
    ("anchor_vertical", .int (asSigned 32 win.anchor_vertical)),
    ("anchor_relative", .bool win.anchor_relative), ("row_lock", .bool win.row_lock),
    ("column_lock", .bool win.column_lock),
    ("row_count", .int (asSigned 32 win.row_count)),
    ("column_count", .int (asSigned 32 win.column_count)),
    ("justify", .str (ascii (justify_to_str win.style.justify))),
    ("print_direction", .str (ascii (direction_to_str win.style.print_direction))),
    ("scroll_direction", .str (ascii (direction_to_str win.style.scroll_direction)))]

/-- The properties behind those, but for the first. -/
def styleProps (win : DtvccWindow) (flash : Bool) : List (String × PropValue) :=
  [("effect_percent", .int win.effect_percent),
    ("effect_status", .str (ascii (effect_status_to_str win.effect_status))),
    ("display_effect", .str (ascii (display_effect_to_str win.style.display_effect))),
    ("effect_direction", .str (ascii (direction_to_str win.style.effect_direction))),
    ("effect_speed", .int (asSigned 32 win.style.effect_speed)),
    ("fill_opacity", .str (ascii (opacity_to_str win.style.fill_opacity))),
    ("fill_color", .int win.style.fill_color),
    ("border_type", .str (ascii (edge_to_str win.style.border_type))),
    ("border_color", .int win.style.border_color),
    ("heart_beat", .int (if flash then 1 else 0))]

/-- `dtvcc_window_to_json`. -/
def dtvcc_window_to_json (td : DtvccDecoder) (window : DtvccWindow) : Writer := fun out =>
  let win := window.final_counts
  inSequence [o_symbol 123, o_props (windowProps win),
    ignored (o_bool_prop (ascii "rollup") win.style.need_rollup),
    ignored (o_int_prop (ascii "curr_row") (asSigned 32 win.style.curr_row)),
    o_bool_prop (ascii "wordwrap") win.style.wordwrap, o_props (styleProps win out.flash),
    o_prop_begin (ascii "rows"), o_symbol 91,
    (loop (row_to_json td win) win.row_count 0 DtvccPenStyle.zero).writer,
    o_symbol 93, o_symbol 125, o_prop_end] out

/-! ## The service -/

/-- The inner loop over the later windows: the window the cell ends with, and the others. -/
def settlePriority (w : DtvccWindow) : List DtvccWindow → DtvccWindow × List DtvccWindow
  | [] => (w, [])
  | v :: vs =>
    if w.priority > v.priority then
      ((settlePriority v vs).1, w :: (settlePriority v vs).2)
    else
      ((settlePriority w vs).1, v :: (settlePriority w vs).2)

/-- The outer loop, with `n` cells to go. -/
def sortPriority : ℕ → List DtvccWindow → List DtvccWindow
  | n + 1, w :: ws => (settlePriority w ws).1 :: sortPriority n (settlePriority w ws).2
  | _, ws => ws

/-- The visible windows in the order in which they are written. -/
def DtvccService.wins (srv : DtvccService) : List DtvccWindow :=
  sortPriority 8 ((List.ofFn srv.window).filter DtvccWindow.visible)

/-- `dtvcc_service_to_json`. -/
def dtvcc_service_to_json (td : DtvccDecoder) (srv : DtvccService) : Writer :=
  inSequence [o_symbol 123, o_props [("type", .str (ascii "cea708"))],
    o_prop_begin (ascii "windows"), o_symbol 91,
    inSequence (srv.wins.map (dtvcc_window_to_json td)), o_symbol 93, o_symbol 125]

end ClosedCaptionJson
end AmlSubtitle
