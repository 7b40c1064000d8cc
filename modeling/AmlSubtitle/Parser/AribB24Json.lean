import AmlSubtitle.Lib.JsonReading
import AmlSubtitle.Utils.ClosedCaptionOutput

/-!
# `parser/AribB24Parser.cpp`: the document of a caption

`aribB24DecodeFrame` writes a decoded caption as JSON, with the styles of its characters
(`NEED_ARIBCC_STYLE`).

* `stringJson`: the document.  A region is an element with its number, and an element for each of
  its characters.
* `Shows`: a text is a JSON text, and its elements are the regions, in order, with their texts.
* `shows_iff`: this holds of the document exactly if no region is without characters and no text
  of a character needs an escape.

A `float` is given by what `std::to_string` makes of it: a number of millionths, an infinity or no
number.  The text of a character is the bytes of `u8str` in front of its null.
-/

namespace AmlSubtitle
namespace AribB24

open Json
open ClosedCaptionJson (ascii IsKey)

/-! ## Captions -/

/-- `ColorRGBA`. -/
structure ColorRGBA where
  r : UInt8
  g : UInt8
  b : UInt8
  a : UInt8
  deriving DecidableEq, Repr

/-- A `float`. -/
inductive PrintedFloat where
  | finite (negative : Bool) (millionths : ℕ)
  | inf (negative : Bool)
  | nan (negative : Bool)
  deriving DecidableEq, Repr

/-- `CaptionChar`, with what is written of it. -/
structure CaptionChar where
  x : ℤ
  y : ℤ
  char_width : ℤ
  char_height : ℤ
  char_horizontal_spacing : ℤ
  char_vertical_spacing : ℤ
  char_horizontal_scale : PrintedFloat
  char_vertical_scale : PrintedFloat
  text_color : ColorRGBA
  back_color : ColorRGBA
  stroke_color : ColorRGBA
  style : ℕ
  enclosure_style : ℕ
  u8str : Text
  char_flash : Bool
  char_repeat_display_times : ℤ
  section_width : ℤ
  section_height : ℤ
  codepoint : ℕ
  pua_codepoint : ℕ
  drcs_code : ℕ

/-- `CaptionRegion`. -/
structure CaptionRegion where
  chars : List CaptionChar

/-- `Caption`. -/
structure Caption where
  plane_width : ℤ
  plane_height : ℤ
  swf : ℤ
  regions : List CaptionRegion

/-! ## Texts of values -/

/-- The last six digits of a number. -/
def sixDigits (n : ℕ) : Text :=
  [n / 100000 % 10, n / 10000 % 10, n / 1000 % 10, n / 100 % 10, n / 10 % 10, n % 10].map
    fun d => (48 + d).toUInt8

/-- A sign. -/
def sign (negative : Bool) : Text := if negative then [45] else []

/-- `std::to_string` of a `float`. -/
def PrintedFloat.to_string : PrintedFloat → Text
  | finite negative n => sign negative ++ (decimal (n / 1000000 : ℕ) ++ 46 :: sixDigits n)
  | inf negative => sign negative ++ ascii "inf"
  | nan negative => sign negative ++ ascii "nan"

/-- `colorToString`. -/
def colorToString (color : ColorRGBA) : Text :=
  ascii "rgba(" ++ (decimal color.r.toNat ++ (ascii ", " ++ (decimal color.g.toNat ++
    (ascii ", " ++ (decimal color.b.toNat ++ (ascii ", " ++ (decimal color.a.toNat ++
      ascii ")")))))))

/-- `STROKE_WIDTH`. -/
def STROKE_WIDTH : ℤ := 3

/-- `kCharStyleStroke`. -/
def kCharStyleStroke : ℕ := 8

/-- `stroke_width` of a character. -/
def CaptionChar.stroke_width (ch : CaptionChar) : ℤ :=
  if ch.style &&& kCharStyleStroke ≠ 0 then STROKE_WIDTH else 0

/-! ## The document -/

section Members

variable (ch : CaptionChar)

/-- The members of a character up to its scales. -/
def CaptionChar.places : List (Text × Text) :=
  [(ascii "x", decimal ch.x), (ascii "y", decimal ch.y),
    (ascii "char_width", decimal ch.char_width), (ascii "char_height", decimal ch.char_height),
    (ascii "char_horizontal_spacing", decimal ch.char_horizontal_spacing),
    (ascii "char_vertical_spacing", decimal ch.char_vertical_spacing)]

/-- The members from there up to its text. -/
def CaptionChar.styles : List (Text × Text) :=
  [(ascii "text_color", quoted (colorToString ch.text_color)),
    (ascii "back_color", quoted (colorToString ch.back_color)),
    (ascii "stroke_color", quoted (colorToString ch.stroke_color)),
    (ascii "stroke_width", decimal ch.stroke_width), (ascii "char_style", decimal ch.style),
    (ascii "enclosure_style", decimal ch.enclosure_style)]

/-- The members behind its text. -/
def CaptionChar.numbers : List (Text × Text) :=
  [(ascii "char_flash", decimal ch.char_flash.toNat),
    (ascii "char_repeat_display_times", decimal ch.char_repeat_display_times),
    (ascii "section_width", decimal ch.section_width),
    (ascii "section_height", decimal ch.section_height),
    (ascii "codepoint", decimal ch.codepoint), (ascii "pua_codepoint", decimal ch.pua_codepoint),
    (ascii "drcs_code", decimal ch.drcs_code)]

/-- The members in front of its text. -/
def CaptionChar.leading : List (Text × Text) :=
  ch.places ++ (ascii "char_horizontal_scale", ch.char_horizontal_scale.to_string) ::
    (ascii "char_vertical_scale", ch.char_vertical_scale.to_string) :: ch.styles

/-- The members of a character. -/
def CaptionChar.members : List (Text × Text) :=
  ch.leading ++ (ascii "u8str", quoted ch.u8str) :: ch.numbers

/-- What is written for a character. -/
def charText : Text := object (ch.members.map fun k => member k.1 k.2)

end Members

/-- What is written at the beginning of a region. -/
def newLine (i : ℕ) : Text := object ([(ascii "new_line", decimal i)].map fun k => member k.1 k.2)

/-- A region: the comma behind its number is written whether a character follows or not. -/
def regionText (i : ℕ) (region : CaptionRegion) : Text :=
  comma (decide (i ≠ 0)) ++ (newLine i ++ 44 :: items false (region.chars.map charText))

/-- The loop over the regions. -/
def regionsText : ℕ → List CaptionRegion → Text
  | _, [] => []
  | i, region :: regions => regionText i region ++ regionsText (i + 1) regions

/-- The members of a caption in front of its characters. -/
def Caption.members (caption : Caption) : List (Text × Text) :=
  [(ascii "type", quoted (ascii "aribCaption")),
    (ascii "plane_width", decimal caption.plane_width),
    (ascii "plane_height", decimal caption.plane_height), (ascii "swf", decimal caption.swf)]

/-- `stringJson`. -/
def stringJson (caption : Caption) : Text :=
  123 :: (items false (caption.members.map fun k => member k.1 k.2) ++ 44 :: ([32] ++
    (quoted (ascii "chars") ++ 58 :: 91 :: (regionsText 0 caption.regions ++ [93, 125]))))

/-! ## What a document shows -/

/-- An element of a document. -/
inductive Entry where
  | new_line (i : ℕ)
  | char (u8str : Text)

/-- The elements that regions have. -/
def regionEntries : ℕ → List CaptionRegion → List Entry
  | _, [] => []
  | i, region :: regions =>
    .new_line i :: (region.chars.map fun ch => .char ch.u8str) ++ regionEntries (i + 1) regions

/-- A value is the element. -/
def ShowsEntry : Entry → Text → Prop
  | .new_line i, s => ∃ members, ObjectOf s members ∧
      valueOf (ascii "new_line") members = some (decimal i)
  | .char u8str, s => ∃ members raw, ObjectOf s members ∧
      valueOf (ascii "u8str") members = some (quoted raw) ∧ Decodes raw u8str

/-- A text is a JSON text whose elements are these. -/
def Shows (s : Text) (entries : List Entry) : Prop :=
  ∃ (document : Padded) (members : List Member) (chars : Text) (elements : List Padded),
    document.Spaced ∧ s = document.text ∧ ObjectOf document.body members ∧
      valueOf (ascii "chars") members = some chars ∧ ArrayOf chars elements ∧
        List.Forall₂ (fun entry e => ShowsEntry entry e.body) entries elements

/-- Neither an infinity nor no number. -/
def PrintedFloat.IsFinite : PrintedFloat → Prop
  | finite _ _ => True
  | _ => False

/-- The scales of a character are numbers, and its text needs no escapes. -/
structure CaptionChar.Plain (ch : CaptionChar) : Prop where
  horizontal : ch.char_horizontal_scale.IsFinite
  vertical : ch.char_vertical_scale.IsFinite
  text : ∀ c ∈ ch.u8str, Unescaped c

/-! ## The members of a character -/

section Values

variable {ch : CaptionChar}

theorem flat_decimal (n : ℤ) : Flat (decimal n) := .inl (number_decimal n)

theorem digits_sixDigits (n : ℕ) : Digits (sixDigits n) := by
  refine ⟨List.cons_ne_nil _ _, fun c hc => ?_⟩
  have hdigit : ∀ d < 10, 48 ≤ (48 + d).toUInt8 ∧ (48 + d).toUInt8 ≤ 57 := by decide
  obtain ⟨d, hd, rfl⟩ := List.mem_map.mp hc
  refine hdigit d ?_
  simp only [List.mem_cons, List.not_mem_nil, or_false] at hd
  rcases hd with rfl | rfl | rfl | rfl | rfl | rfl <;> exact Nat.mod_lt _ (by decide)

/-- A scale is a number where it is finite. -/
theorem PrintedFloat.IsFinite.flat {scale : PrintedFloat} (h : scale.IsFinite) :
    Flat scale.to_string := by
  cases scale with
  | finite negative n =>
    refine .inl ⟨sign negative, decimal (n / 1000000 : ℕ), 46 :: sixDigits n, [], ?_,
      integer_decimal _, .inr ⟨_, digits_sixDigits n, rfl⟩, .inl rfl, ?_⟩
    · cases negative
      · exact .inl rfl
      · exact .inr rfl
    · rw [PrintedFloat.to_string, List.append_nil]
  | inf negative => exact h.elim
  | nan negative => exact h.elim

/-- No value begins with the letters of an infinity, or of no number. -/
theorem not_value_letters {e : Padded} (hspaced : e.Spaced) (hvalue : Value e.body)
    {negative : Bool} {c d : UInt8} {r X : Text} (hc : c = 105 ∨ c = 110 ∧ d ≠ 117) :
    e.text ++ r ≠ sign negative ++ c :: d :: X := by
  intro heq
  have hdigit : ¬ (48 ≤ c ∧ c ≤ 57) := by
    rcases hc with rfl | ⟨rfl, -⟩ <;> decide
  have hspace : ∀ b ∈ (sign negative ++ c :: d :: X).head?, ¬ SpaceByte b := by
    intro b hb
    cases negative <;> obtain rfl := Option.some.inj hb
    · rcases hc with rfl | ⟨rfl, -⟩ <;> decide
    · decide
  obtain ⟨-, hbody⟩ := Padded.front hspaced hvalue (w := []) space_nil hspace heq
  rcases hvalue.flat_or with (hnumber | ⟨s, -, hs⟩) | ⟨t, ht⟩ | ⟨b, t, ht, hb⟩
  · obtain ⟨minus, b, t, rfl | rfl, hb, hs⟩ := hnumber.exists_digit
    · rw [hs] at hbody
      cases negative <;> obtain rfl := (List.cons.inj hbody).1
      · exact hdigit hb
      · exact absurd hb (by decide)
    · rw [hs] at hbody
      cases negative
      · rw [← (List.cons.inj hbody).1] at hc
        rcases hc with hc | ⟨hc, -⟩ <;> exact absurd hc (by decide)
      · obtain rfl := (List.cons.inj (List.cons.inj hbody).2).1
        exact hdigit hb
  · rw [hs] at hbody
    cases negative
    · rw [← (List.cons.inj hbody).1] at hc
      rcases hc with hc | ⟨hc, -⟩ <;> exact absurd hc (by decide)
    · exact absurd (List.cons.inj hbody).1 (by decide)
  · rw [ht] at hbody
    cases negative
    · obtain ⟨rfl, htail⟩ := List.cons.inj hbody
      obtain ⟨rfl, -⟩ := List.cons.inj htail
      rcases hc with hc | ⟨-, hd⟩
      · exact absurd hc (by decide)
      · exact hd rfl
    · exact absurd (List.cons.inj hbody).1 (by decide)
  · rw [ht] at hbody
    cases negative <;> rw [(List.cons.inj hbody).1] at hb
    · rcases hc with rfl | ⟨rfl, -⟩ <;> exact absurd hb (by decide)
    · exact absurd hb (by decide)

theorem PrintedFloat.isFinite_of_value {scale : PrintedFloat} {e : Padded} {r X : Text}
    (hspaced : e.Spaced) (hvalue : Value e.body) (heq : e.text ++ r = scale.to_string ++ X) :
    scale.IsFinite := by
  cases scale with
  | finite negative n => trivial
  | inf negative =>
    rw [PrintedFloat.to_string, List.append_assoc] at heq
    exact absurd heq (not_value_letters hspaced hvalue (.inl rfl))
  | nan negative =>
    rw [PrintedFloat.to_string, List.append_assoc] at heq
    exact absurd heq (not_value_letters hspaced hvalue (.inr ⟨rfl, by decide⟩))

theorem unescaped_of_numberByte {c : UInt8} (h : NumberByte c) : Unescaped c := by
  rcases h with rfl | rfl | rfl | rfl | rfl | hdigit
  · decide
  · decide
  · decide
  · decide
  · decide
  · have hle : (32 : UInt8) ≤ 48 := by decide
    refine ⟨UInt8.le_trans hle hdigit.1, ?_, ?_⟩ <;> rintro rfl <;> exact absurd hdigit (by decide)

theorem flat_color (color : ColorRGBA) : Flat (quoted (colorToString color)) := by
  have hdecimal : ∀ n : ℕ, ∀ c ∈ decimal n, Unescaped c := fun n c hc =>
    unescaped_of_numberByte ((number_decimal n).numberByte c hc)
  refine .inr ⟨_, (decodes_self ?_).chars, rfl⟩
  simp only [colorToString, List.forall_mem_append]
  exact ⟨by decide, hdecimal _, by decide, hdecimal _, by decide, hdecimal _, by decide,
    hdecimal _, by decide⟩

theorem flat_places : ∀ k ∈ ch.places, Chars k.1 ∧ Flat k.2 := by
  simp only [CaptionChar.places, List.forall_mem_cons]
  refine ⟨⟨?_, flat_decimal _⟩, ⟨?_, flat_decimal _⟩, ⟨?_, flat_decimal _⟩, ⟨?_, flat_decimal _⟩,
    ⟨?_, flat_decimal _⟩, ⟨?_, flat_decimal _⟩, fun k hk => absurd hk List.not_mem_nil⟩ <;>
  exact IsKey.chars (by decide)

theorem flat_styles : ∀ k ∈ ch.styles, Chars k.1 ∧ Flat k.2 := by
  simp only [CaptionChar.styles, List.forall_mem_cons]
  refine ⟨⟨?_, flat_color _⟩, ⟨?_, flat_color _⟩, ⟨?_, flat_color _⟩, ⟨?_, flat_decimal _⟩,
    ⟨?_, flat_decimal _⟩, ⟨?_, flat_decimal _⟩, fun k hk => absurd hk List.not_mem_nil⟩ <;>
  exact IsKey.chars (by decide)

theorem flat_numbers : ∀ k ∈ ch.numbers, Chars k.1 ∧ Flat k.2 := by
  simp only [CaptionChar.numbers, List.forall_mem_cons]
  refine ⟨⟨?_, flat_decimal _⟩, ⟨?_, flat_decimal _⟩, ⟨?_, flat_decimal _⟩, ⟨?_, flat_decimal _⟩,
    ⟨?_, flat_decimal _⟩, ⟨?_, flat_decimal _⟩, ⟨?_, flat_decimal _⟩,
    fun k hk => absurd hk List.not_mem_nil⟩ <;>
  exact IsKey.chars (by decide)

theorem flat_leading (hhorizontal : ch.char_horizontal_scale.IsFinite)
    (hvertical : ch.char_vertical_scale.IsFinite) : ∀ k ∈ ch.leading, Chars k.1 ∧ Flat k.2 := by
  rw [CaptionChar.leading, List.forall_mem_append, List.forall_mem_cons, List.forall_mem_cons]
  exact ⟨flat_places, ⟨IsKey.chars (by decide), hhorizontal.flat⟩,
    ⟨IsKey.chars (by decide), hvertical.flat⟩, flat_styles⟩

theorem CaptionChar.Plain.flat (h : ch.Plain) : ∀ k ∈ ch.members, Chars k.1 ∧ Flat k.2 := by
  rw [CaptionChar.members, List.forall_mem_append, List.forall_mem_cons]
  exact ⟨flat_leading h.horizontal h.vertical,
    ⟨IsKey.chars (by decide), .inr ⟨_, (decodes_self h.text).chars, rfl⟩⟩, flat_numbers⟩

/-- The members in front of its text have other keys. -/
theorem leading_ne_u8str : ∀ k ∈ ch.leading, k.1 ≠ ascii "u8str" := by
  intro k hk
  have hkey := List.mem_map_of_mem (f := Prod.fst) hk
  simp only [CaptionChar.leading, CaptionChar.places, CaptionChar.styles, List.map_append,
    List.map_cons, List.map_nil] at hkey
  revert hkey
  generalize k.1 = key
  revert key
  decide

end Values

/-! ## Regions that are shown -/

section Reading

variable {ch : CaptionChar} {e : Padded} {R R₀ : Text}

/-- **A character is shown only if it is plain.** -/
theorem CaptionChar.plain_of_shows (hspaced : e.Spaced)
    (hshows : ShowsEntry (.char ch.u8str) e.body) (heq : e.text ++ R = charText ch ++ R₀) :
    ch.Plain := by
  obtain ⟨members, raw, hobject, hraw, hdecodes⟩ := hshows
  -- The members are read up to the first scale, the second one, and the text.
  have hhorizontal : ch.char_horizontal_scale.IsFinite := by
    obtain ⟨first, m, rest, rfl, -, -, hvalue⟩ := hobject.exists_member hspaced flat_places
      (List.cons_ne_nil _ _) (IsKey.chars (s := "char_horizontal_scale") (by decide)) heq
    exact PrintedFloat.isFinite_of_value
      (hobject.spaced m (List.mem_append_right _ List.mem_cons_self)).2.1
      (hobject.values m (List.mem_append_right _ List.mem_cons_self)) hvalue
  have hscale : ∀ k ∈ ch.places ++ [(ascii "char_horizontal_scale",
      ch.char_horizontal_scale.to_string)], Chars k.1 ∧ Flat k.2 :=
    List.forall_mem_append.mpr ⟨flat_places,
      List.forall_mem_singleton.mpr ⟨IsKey.chars (by decide), hhorizontal.flat⟩⟩
  have hvertical : ch.char_vertical_scale.IsFinite := by
    obtain ⟨first, m, rest, rfl, -, -, hvalue⟩ := hobject.exists_member hspaced hscale
      (List.cons_ne_nil _ _) (IsKey.chars (s := "char_vertical_scale") (by decide)) heq
    exact PrintedFloat.isFinite_of_value
      (hobject.spaced m (List.mem_append_right _ List.mem_cons_self)).2.1
      (hobject.values m (List.mem_append_right _ List.mem_cons_self)) hvalue
  refine ⟨hhorizontal, hvertical, ?_⟩
  obtain ⟨first, m, rest, rfl, hfirst, hkey, hvalue⟩ := hobject.exists_member hspaced
    (flat_leading hhorizontal hvertical)
    (List.cons_ne_nil _ _) (IsKey.chars (s := "u8str") (by decide)) heq
  have hm := hobject.spaced m (List.mem_append_right _ List.mem_cons_self)
  rw [valueOf_append hfirst leading_ne_u8str hkey] at hraw
  obtain ⟨-, hquoted⟩ := Padded.front hm.2.1
    (hobject.values m (List.mem_append_right _ List.mem_cons_self)) (w := [])
    (X := quoted ch.u8str ++ (items true (ch.numbers.map fun k => member k.1 k.2) ++ 125 :: R₀))
    space_nil (by
      intro c hc
      obtain rfl := Option.some.inj hc
      decide) hvalue
  rw [Option.some.inj hraw] at hquoted
  -- Behind the text stands the key of the next member, which is no end of a value.
  obtain ⟨c, t, hend, hc⟩ := (closes_items (rest.map Member.text) (e.after ++ R)).spaced hm.2.1.2
  have hnext : c ≠ 99 := by
    rcases hc with (rfl | rfl | rfl | rfl) | rfl | rfl | rfl <;> decide
  rw [hend, quoted_append, quoted_append] at hquoted
  have hsame : raw = ch.u8str :=
    hdecodes.eq_of_append (fun h => hnext (List.cons.inj h).1) (List.cons.inj hquoted).2
  exact (hdecodes.unescaped_of_length (congrArg List.length hsame).le).2

/-- A character that is shown ends where its text does. -/
theorem char_unique (hspaced : e.Spaced) (hR : Closes R) (hR₀ : Closes R₀)
    (hshows : ShowsEntry (.char ch.u8str) e.body) (heq : e.text ++ R = charText ch ++ R₀) :
    R = R₀ := by
  have hplain := CaptionChar.plain_of_shows hspaced hshows heq
  obtain ⟨members, raw, hobject, -, -⟩ := hshows
  exact hobject.flat_unique hspaced hplain.flat (List.cons_ne_nil _ _) hR hR₀ heq

/-- So does the number of a region. -/
theorem newLine_unique {i : ℕ} (hspaced : e.Spaced) (hR : Closes R) (hR₀ : Closes R₀)
    (hshows : ShowsEntry (.new_line i) e.body) (heq : e.text ++ R = newLine i ++ R₀) : R = R₀ := by
  obtain ⟨members, hobject, -⟩ := hshows
  refine hobject.flat_unique hspaced ?_ (List.cons_ne_nil _ _) hR hR₀ heq
  exact List.forall_mem_singleton.mpr ⟨IsKey.chars (by decide), flat_decimal _⟩

/-- The elements that are left close the one in front of them. -/
theorem closes_elements (l : List Text) (r : Text) : Closes (items true l ++ 93 :: r) := by
  cases l with
  | nil => exact ⟨93, r, rfl, .inr (.inl rfl)⟩
  | cons d l => exact ⟨44, _, rfl, .inl rfl⟩

/-- **Characters are shown only if they are plain**, and the elements behind them are what their
texts are followed by. -/
theorem plain_of_shows_chars {chars : List CaptionChar} {elements rest : List Padded} {p : Bool}
    {r Y : Text} (hspaced : ∀ e ∈ elements, e.Spaced) (hY : Closes Y)
    (hshows : List.Forall₂ (fun entry e => ShowsEntry entry e.body)
      (chars.map fun ch => .char ch.u8str) elements)
    (heq : items p ((elements ++ rest).map Padded.text) ++ 93 :: r =
      items p (chars.map charText) ++ Y) :
    (∀ ch ∈ chars, ch.Plain) ∧
      items (p || !chars.isEmpty) (rest.map Padded.text) ++ 93 :: r = Y := by
  induction chars generalizing elements p with
  | nil =>
    rw [List.map_nil, List.forall₂_nil_left_iff] at hshows
    rw [hshows] at heq
    refine ⟨fun ch hch => absurd hch List.not_mem_nil, ?_⟩
    rw [List.isEmpty_nil, Bool.not_true, Bool.or_false]
    exact heq
  | cons ch chars ih =>
    rw [List.map_cons, List.forall₂_cons_left_iff] at hshows
    obtain ⟨e, elements', hch, hrest, rfl⟩ := hshows
    obtain ⟨he, hspaced⟩ := List.forall_mem_cons.mp hspaced
    simp only [List.cons_append, List.map_cons, items_cons_eq, List.append_assoc] at heq
    have htext := List.append_cancel_left heq
    have hnext : Closes (items true (chars.map charText) ++ Y) := by
      cases chars with
      | nil => exact hY
      | cons ch chars => exact ⟨44, _, rfl, .inl rfl⟩
    obtain ⟨hplain, hend⟩ := ih (p := true) hspaced hrest
      (char_unique he (closes_elements _ _) hnext hch htext)
    rw [List.isEmpty_cons, Bool.not_false, Bool.or_true]
    exact ⟨List.forall_mem_cons.mpr ⟨CaptionChar.plain_of_shows he hch htext, hplain⟩, hend⟩

/-- What follows a region is the comma in front of the next one, or the end. -/
theorem closes_regionsText {i : ℕ} (hi : i ≠ 0) (regions : List CaptionRegion) (r : Text) :
    Closes (regionsText i regions ++ 93 :: r) := by
  cases regions with
  | nil => exact ⟨93, r, rfl, .inr (.inl rfl)⟩
  | cons region regions =>
    rw [regionsText, regionText, decide_eq_true hi]
    exact ⟨44, _, rfl, .inl rfl⟩

/-- **Regions are shown only if each has a character, and the characters are plain.** -/
theorem plain_of_shows_regions {regions : List CaptionRegion} {i : ℕ} {elements : List Padded}
    {r r₀ : Text} (hspaced : ∀ e ∈ elements, e.Spaced) (hvalues : ∀ e ∈ elements, Value e.body)
    (hshows : List.Forall₂ (fun entry e => ShowsEntry entry e.body) (regionEntries i regions)
      elements)
    (heq : items (decide (i ≠ 0)) (elements.map Padded.text) ++ 93 :: r =
      regionsText i regions ++ 93 :: r₀) :
    ∀ region ∈ regions, region.chars ≠ [] ∧ ∀ ch ∈ region.chars, ch.Plain := by
  induction regions generalizing i elements with
  | nil => exact fun region h => absurd h List.not_mem_nil
  | cons region regions ih =>
    rw [regionEntries, List.cons_append, List.forall₂_cons_left_iff] at hshows
    obtain ⟨e, elements', hline, hrest, rfl⟩ := hshows
    have hchars := List.forall₂_take region.chars.length hrest
    have hregions := List.forall₂_drop region.chars.length hrest
    rw [List.take_left' (List.length_map _)] at hchars
    rw [List.drop_left' (List.length_map _)] at hregions
    obtain ⟨he, hspaced⟩ := List.forall_mem_cons.mp hspaced
    obtain ⟨-, hvalues⟩ := List.forall_mem_cons.mp hvalues
    simp only [regionsText, regionText, List.map_cons, items_cons_eq, List.append_assoc,
      List.cons_append] at heq
    have hrest := newLine_unique he (closes_elements _ _) ⟨44, _, rfl, .inl rfl⟩ hline
      (List.append_cancel_left heq)
    have hnext := closes_regionsText (Nat.succ_ne_zero i) regions r₀
    -- Behind the comma there is an element.
    obtain ⟨e', tail, helements⟩ : ∃ e' tail, elements' = e' :: tail := by
      cases elements' with
      | nil => exact absurd (List.cons.inj hrest).1 (by decide)
      | cons e' tail => exact ⟨e', tail, rfl⟩
    have hbehind : items false (elements'.map Padded.text) ++ 93 :: r =
        items false (region.chars.map charText) ++ (regionsText (i + 1) regions ++ 93 :: r₀) := by
      rw [helements] at hrest ⊢
      exact (List.cons.inj hrest).2
    have hne : region.chars ≠ [] := by
      intro hnil
      rw [hnil, helements, List.map_cons, items_cons_eq, List.append_assoc, List.append_assoc]
        at hbehind
      rw [helements] at hspaced hvalues
      exact Padded.not_closes (hspaced e' List.mem_cons_self) (hvalues e' List.mem_cons_self)
        hnext hbehind
    have hsplit := List.take_append_drop region.chars.length elements'
    rw [← hsplit] at hbehind
    obtain ⟨hplain, hend⟩ := plain_of_shows_chars
      (fun e he => hspaced e (List.mem_of_mem_take he)) hnext hchars hbehind
    rw [List.isEmpty_eq_false_iff.mpr hne] at hend
    refine List.forall_mem_cons.mpr ⟨⟨hne, hplain⟩, ih ?_ ?_ hregions ?_⟩
    · exact fun e he => hspaced e (List.mem_of_mem_drop he)
    · exact fun e he => hvalues e (List.mem_of_mem_drop he)
    · rw [decide_eq_true (Nat.succ_ne_zero i)]
      exact hend

end Reading

/-! ## Documents -/

section Documents

variable {caption : Caption}

theorem flat_members : ∀ k ∈ caption.members, Chars k.1 ∧ Flat k.2 := by
  simp only [Caption.members, List.forall_mem_cons]
  refine ⟨⟨IsKey.chars (by decide), .inr ⟨_, IsKey.chars (by decide), rfl⟩⟩, ⟨?_, flat_decimal _⟩,
    ⟨?_, flat_decimal _⟩, ⟨?_, flat_decimal _⟩, fun k hk => absurd hk List.not_mem_nil⟩ <;>
  exact IsKey.chars (by decide)

/-- **A document is shown only if each region has a character, and the characters are plain.** -/
theorem plain_of_shows (h : Shows (stringJson caption) (regionEntries 0 caption.regions)) :
    ∀ region ∈ caption.regions, region.chars ≠ [] ∧ ∀ ch ∈ region.chars, ch.Plain := by
  obtain ⟨document, members, chars, elements, hspaced, htext, hobject, hchars, harray, hshows⟩ := h
  have hspace : Space [32] := by
    intro c hc
    exact .inl (List.mem_singleton.mp hc)
  have hitems := hobject.front (R := []) hspaced
    ((List.append_nil _).trans htext.symm)
  obtain ⟨first, m, rest, rfl, hfirst, hkey, hvalue⟩ := exists_member_at flat_members
    (List.cons_ne_nil _ _) hspace (IsKey.chars (s := "chars") (by decide)) hobject.spaced
    hobject.values hitems
  have hm := hobject.spaced m (List.mem_append_right _ List.mem_cons_self)
  have hkeys : ∀ k ∈ caption.members, k.1 ≠ ascii "chars" := by
    simp only [Caption.members, List.forall_mem_cons]
    exact ⟨by decide, by decide, by decide, by decide, fun k hk => absurd hk List.not_mem_nil⟩
  rw [valueOf_append hfirst hkeys hkey] at hchars
  obtain ⟨-, hbody⟩ := Padded.front hm.2.1
    (hobject.values m (List.mem_append_right _ List.mem_cons_self)) (w := [])
    (X := 91 :: (regionsText 0 caption.regions ++ [93, 125])) space_nil (by
      intro c hc
      obtain rfl := Option.some.inj hc
      decide) hvalue
  rw [Option.some.inj hchars, harray.text, List.cons_append, List.append_assoc] at hbody
  exact plain_of_shows_regions harray.spaced harray.values hshows (List.cons.inj hbody).2

/-! ### What is shown -/

/-- The texts of the elements. -/
def elementTexts : ℕ → List CaptionRegion → List Text
  | _, [] => []
  | i, region :: regions =>
    newLine i :: region.chars.map charText ++ elementTexts (i + 1) regions

theorem regionsText_eq {regions : List CaptionRegion} (h : ∀ region ∈ regions, region.chars ≠ [])
    (i : ℕ) : regionsText i regions = items (decide (i ≠ 0)) (elementTexts i regions) := by
  induction regions generalizing i with
  | nil => rfl
  | cons region regions ih =>
    obtain ⟨hne, hregions⟩ := List.forall_mem_cons.mp h
    obtain ⟨ch, chars, hchars⟩ := List.exists_cons_of_ne_nil hne
    rw [regionsText, regionText, elementTexts, ih hregions, decide_eq_true (Nat.succ_ne_zero i),
      hchars, List.cons_append, items_cons_eq, items_append, List.map_cons, List.isEmpty_cons,
      Bool.not_false, Bool.or_true, items_cons_eq, items_cons_eq, List.append_assoc,
      List.append_assoc]
    rfl

theorem showsEntry_newLine (i : ℕ) : ShowsEntry (.new_line i) (newLine i) :=
  ⟨_, objectOf_plain (List.forall_mem_singleton.mpr ⟨IsKey.chars (by decide),
    (flat_decimal _).value⟩),
    @valueOf_plain [] [] (ascii "new_line", decimal i) fun k hk => absurd hk List.not_mem_nil⟩

theorem showsEntry_char {ch : CaptionChar} (h : ch.Plain) :
    ShowsEntry (.char ch.u8str) (charText ch) :=
  ⟨_, ch.u8str, objectOf_plain fun k hk => ⟨(h.flat k hk).1, (h.flat k hk).2.value⟩,
    @valueOf_plain _ ch.numbers (ascii "u8str", quoted ch.u8str) leading_ne_u8str,
    decodes_self h.text⟩

/-- **The elements that are written are the regions.** -/
theorem forall₂_elementTexts {regions : List CaptionRegion}
    (h : ∀ region ∈ regions, ∀ ch ∈ region.chars, ch.Plain) (i : ℕ) :
    List.Forall₂ ShowsEntry (regionEntries i regions) (elementTexts i regions) := by
  induction regions generalizing i with
  | nil => exact List.Forall₂.nil
  | cons region regions ih =>
    obtain ⟨hregion, hregions⟩ := List.forall_mem_cons.mp h
    refine List.rel_append (List.Forall₂.cons (showsEntry_newLine i) ?_) (ih hregions (i + 1))
    rw [List.forall₂_map_left_iff, List.forall₂_map_right_iff, List.forall₂_same]
    exact fun ch hch => showsEntry_char (hregion ch hch)

theorem ShowsEntry.value {entry : Entry} {s : Text} (h : ShowsEntry entry s) : Value s := by
  cases entry with
  | new_line i =>
    obtain ⟨members, hobject, -⟩ := h
    exact hobject.value
  | char u8str =>
    obtain ⟨members, raw, hobject, -⟩ := h
    exact hobject.value

theorem value_of_forall₂ {entries : List Entry} {l : List Text}
    (h : List.Forall₂ ShowsEntry entries l) : ∀ v ∈ l, Value v := by
  induction h with
  | nil => exact fun v hv => absurd hv List.not_mem_nil
  | cons hentry _ ih => exact List.forall_mem_cons.mpr ⟨hentry.value, ih⟩

/-- The last member of a document, with the space in front of it. -/
def charsMember (regions : List CaptionRegion) : Member :=
  ⟨⟨[32], ascii "chars", []⟩, ⟨[], array (elementTexts 0 regions), []⟩⟩

theorem charsMember_text (regions : List CaptionRegion) : (charsMember regions).text =
    [32] ++ (quoted (ascii "chars") ++
      58 :: 91 :: (items false (elementTexts 0 regions) ++ [93])) := by
  show [32] ++ (quoted (ascii "chars") ++ ([] ++ 58 :: ([] ++ (array _ ++ [])))) = _
  rw [List.append_nil, array]
  rfl

theorem objectOf_document {regions : List CaptionRegion}
    (hregions : ∀ region ∈ regions, region.chars ≠ [])
    (hvalues : ∀ v ∈ elementTexts 0 regions, Value v) (hcaption : caption.regions = regions) :
    ObjectOf (stringJson caption) (caption.members.map plainMember ++ [charsMember regions]) where
  spaced := by
    refine List.forall_mem_append.mpr ⟨?_, List.forall_mem_singleton.mpr ⟨⟨?_, space_nil⟩,
      ⟨space_nil, space_nil⟩, IsKey.chars (by decide)⟩⟩
    · exact (objectOf_plain fun k hk => ⟨(flat_members k hk).1, (flat_members k hk).2.value⟩).spaced
    · intro c hc
      exact .inl (List.mem_singleton.mp hc)
  values := by
    refine List.forall_mem_append.mpr ⟨?_, List.forall_mem_singleton.mpr (value_array hvalues)⟩
    exact (objectOf_plain fun k hk => ⟨(flat_members k hk).1, (flat_members k hk).2.value⟩).values
  text := by
    have hmembers : (caption.members.map plainMember).map Member.text =
        caption.members.map fun k => member k.1 k.2 := by
      rw [List.map_map]
      exact List.map_congr_left fun k _ => plainMember_text k
    have hcomma : (false || !(caption.members.map fun k => member k.1 k.2).isEmpty) = true := rfl
    rw [List.map_append, List.map_singleton, hmembers, items_append, hcomma, charsMember_text,
      stringJson, hcaption, regionsText_eq hregions]
    simp only [items, if_true, List.append_assoc, List.cons_append, List.nil_append,
      List.append_nil, ne_eq, not_true_eq_false, decide_false]

theorem shows_of_plain
    (h : ∀ region ∈ caption.regions, region.chars ≠ [] ∧ ∀ ch ∈ region.chars, ch.Plain) :
    Shows (stringJson caption) (regionEntries 0 caption.regions) := by
  have helements := forall₂_elementTexts (fun region hregion => (h region hregion).2) 0
  have hvalues := value_of_forall₂ helements
  have hkeys : ∀ k ∈ caption.members, k.1 ≠ ascii "chars" := by
    simp only [Caption.members, List.forall_mem_cons]
    exact ⟨by decide, by decide, by decide, by decide, fun k hk => absurd hk List.not_mem_nil⟩
  have hfirst : (caption.members.map plainMember).map (fun m => (m.key.body, m.value.body)) =
      caption.members := by
    rw [List.map_map]
    exact List.map_id _
  refine ⟨plainElement (stringJson caption), _, _, _, ⟨space_nil, space_nil⟩,
    (plainElement_text _).symm,
    objectOf_document (fun region hregion => (h region hregion).1) hvalues rfl,
    valueOf_append (m := charsMember caption.regions) hfirst hkeys rfl, arrayOf_plain hvalues, ?_⟩
  rw [List.forall₂_map_right_iff]
  exact helements

/-- **The document of a caption** shows its regions exactly if each of them has a character and
no character needs an escape. -/
theorem shows_iff (caption : Caption) :
    Shows (stringJson caption) (regionEntries 0 caption.regions) ↔
      ∀ region ∈ caption.regions, region.chars ≠ [] ∧ ∀ ch ∈ region.chars, ch.Plain :=
  ⟨plain_of_shows, shows_of_plain⟩

end Documents

/-- A caption with one quotation mark. -/
def quotationMark : Caption where
  plane_width := 960
  plane_height := 540
  swf := 7
  regions := [⟨[
    { x := 0
      y := 0
      char_width := 36
      char_height := 36
      char_horizontal_spacing := 4
      char_vertical_spacing := 24
      char_horizontal_scale := .finite false 1000000
      char_vertical_scale := .finite false 1000000
      text_color := ⟨255, 255, 255, 255⟩
      back_color := ⟨0, 0, 0, 128⟩
      stroke_color := ⟨0, 0, 0, 255⟩
      style := 0
      enclosure_style := 0
      u8str := [34]
      char_flash := false
      char_repeat_display_times := 1
      section_width := 40
      section_height := 60
      codepoint := 34
      pua_codepoint := 0
      drcs_code := 0 }]⟩]

theorem not_shows_quotationMark :
    ¬ Shows (stringJson quotationMark) (regionEntries 0 quotationMark.regions) := by
  intro hshows
  have hplain := plain_of_shows hshows
  rw [quotationMark] at hplain
  have htext := ((hplain _ List.mem_cons_self).2 _ List.mem_cons_self).text
  exact absurd (htext 34 List.mem_cons_self) (by decide)

end AribB24
end AmlSubtitle
