import AmlSubtitle.Utils.VbiPageDocument

/-!
# What is written of a CEA 608 page that is cut

The result of a row is ignored, and a text whose colours do not fit counts as done.  Then a
bracket stays open, and whatever is written behind it does not close it.

* `Deeper k`: what was written between two outputs leaves a reader at least `k` brackets
  deeper, or there is no room left for the four closing brackets of the document.
* `Moves a b`: the writer deepens by `a` when it succeeds and by `b` when it fails.
* `not_wellFormed_of_cut`: **a page that is cut between its first row and its last is never
  written as a JSON text.**
-/

namespace AmlSubtitle
namespace ClosedCaptionJson

open Json

/-! ## Depth -/

/-- From `out` to `out'` at least `k` brackets were opened and not closed, or the room left
is no more than four bytes. -/
def Deeper (k : ℤ) (out out' : Output) : Prop :=
  out'.left ≤ out.left ∧ (out'.left ≤ 4 ∨ ∃ t e, out'.text = out.text ++ t ∧ k ≤ e ∧
    ∀ depth, t.foldl scan (.outside depth) = .outside (depth + e))

namespace Deeper

variable {k k' : ℤ} {out out' out'' : Output}

theorem trans (h : Deeper k out out') (h' : Deeper k' out' out'') :
    Deeper (k + k') out out'' := by
  obtain ⟨hleft, hroom | ⟨t, e, htext, hk, hscan⟩⟩ := h
  · exact ⟨h'.1.trans hleft, Or.inl (h'.1.trans hroom)⟩
  · obtain ⟨hleft', hroom | ⟨t', e', htext', hk', hscan'⟩⟩ := h'
    · exact ⟨hleft'.trans hleft, Or.inl hroom⟩
    · refine ⟨hleft'.trans hleft, Or.inr ⟨t ++ t', e + e', ?_, add_le_add hk hk', fun depth => ?_⟩⟩
      · rw [htext', htext, List.append_assoc]
      · rw [List.foldl_append, hscan, hscan', add_assoc]

theorem mono (h : Deeper k out out') (hk : k' ≤ k) : Deeper k' out out' := by
  obtain ⟨hleft, hroom | ⟨t, e, htext, hke, hscan⟩⟩ := h
  · exact ⟨hleft, Or.inl hroom⟩
  · exact ⟨hleft, Or.inr ⟨t, e, htext, hk.trans hke, hscan⟩⟩

theorem of_same (htext : out'.text = out.text) (hleft : out'.left = out.left) :
    Deeper 0 out out' :=
  ⟨hleft.le, Or.inr ⟨[], 0, by rw [htext, List.append_nil], le_refl _, fun depth => by
    rw [List.foldl_nil, add_zero]⟩⟩

/-- What is written of a level text. -/
theorem wrote (out : Output) {d : Text} (q : Bool) (hd : Level d) :
    Deeper 0 out (out.wrote d q) := by
  refine ⟨?_, Or.inr ⟨d, 0, rfl, le_refl _, fun depth => by rw [hd.scan, add_zero]⟩⟩
  show out.left - (d.length : ℤ) ≤ out.left
  omega

end Deeper

/-- The writer opens at least `a` brackets more than it closes when it succeeds, and `b` when
it fails. -/
structure Moves (f : Writer) (a b : ℤ) : Prop where
  ok : ∀ out, (f out).1 = true → Deeper a out (f out).2
  failed : ∀ out, (f out).1 = false → Deeper b out (f out).2

section Moves

variable {f : Writer} {fs : List Writer} {a b a' b' c : ℤ}

theorem Moves.deeper (h : Moves f a b) (ha : c ≤ a) (hb : c ≤ b) (out : Output) :
    Deeper c out (f out).2 := by
  rcases hok : (f out).1
  · exact (h.failed out hok).mono hb
  · exact (h.ok out hok).mono ha

theorem moves_nil : Moves (inSequence []) 0 b where
  ok _ _ := Deeper.of_same rfl rfl
  failed _ hok := absurd hok Bool.true_eq_false.mp

theorem Moves.cons (hf : Moves f a b) (hfs : Moves (inSequence fs) a' b') (hb : c ≤ b)
    (hb' : c ≤ a + b') : Moves (inSequence (f :: fs)) (a + a') c where
  ok out hok := by
    rw [inSequence_cons] at hok ⊢
    split_ifs at hok ⊢ with hfirst
    exact (hf.ok out hfirst).trans (hfs.ok _ hok)
  failed out hok := by
    rw [inSequence_cons] at hok ⊢
    split_ifs at hok ⊢ with hfirst
    · exact ((hf.ok out hfirst).trans (hfs.failed _ hok)).mono hb'
    · exact (hf.failed out (Bool.eq_false_iff.mpr hfirst)).mono hb

/-- Writers that close what they open. -/
theorem Moves.level_cons (hf : Moves f 0 0) (hfs : Moves (inSequence fs) 0 0) :
    Moves (inSequence (f :: fs)) 0 0 := by
  have hseq := hf.cons hfs (le_refl 0) (zero_add 0).ge
  rwa [zero_add] at hseq

end Moves

/-! ## The writers -/

theorem moves_level {s : Text} (hs : Level s) : Moves (o_printf s) 0 0 where
  ok out hok := by
    by_cases hroom : (s.length : ℤ) < out.left
    · rw [(emits_printf s).fits out rfl rfl hroom]
      exact Deeper.wrote out _ hs
    · rw [o_printf, if_pos (not_lt.mp hroom)] at hok
      exact absurd hok Bool.false_ne_true
  failed out hok := by
    rw [o_printf] at hok ⊢
    split_ifs at hok ⊢
    exact Deeper.of_same rfl rfl

/-- A bracket or a comma; when there is no room for it there is none for the closing
brackets. -/
theorem moves_symbol {c : UInt8} {a : ℤ}
    (hc : ∀ depth, scan (.outside depth) c = .outside (depth + a)) (b : ℤ) :
    Moves (o_printf [c]) a b where
  ok out hok := by
    rw [o_printf] at hok ⊢
    split_ifs at hok ⊢
    refine ⟨?_, Or.inr ⟨[c], a, rfl, le_refl _, hc⟩⟩
    show out.left - (([c] : Text).length : ℤ) ≤ out.left
    omega
  failed out hok := by
    rw [o_printf] at hok ⊢
    split_ifs at hok ⊢ with hroom
    refine ⟨le_refl _, Or.inl (hroom.trans ?_)⟩
    rw [List.length_singleton]
    decide

theorem moves_same {f : Writer} (h : ∀ out, ∃ q, f out = setProp q out) (b : ℤ) :
    Moves f 0 b where
  ok out _ := by
    obtain ⟨q, hq⟩ := h out
    rw [hq]
    exact Deeper.of_same rfl rfl
  failed out hok := by
    obtain ⟨q, hq⟩ := h out
    rw [hq] at hok
    exact absurd hok Bool.true_eq_false.mp

/-- The comma in front of an item. -/
theorem moves_comma {f : Writer} {fs : List Writer} {a b : ℤ} {c : Output → Bool}
    (hf : ∀ out, f out = inSequence ((if c out then [o_printf [44]] else []) ++ fs) out)
    (hfs : Moves (inSequence fs) a b) : Moves f a b := by
  have hcomma : Moves (inSequence (o_printf [44] :: fs)) a b := by
    have hseq := (moves_symbol (c := 44) (a := 0) (fun depth => by rw [add_zero]; rfl) b).cons hfs
      (le_refl b) (zero_add b).ge
    rwa [zero_add] at hseq
  have hcases : ∀ out, f out = inSequence fs out ∨
      f out = inSequence (o_printf [44] :: fs) out := by
    intro out
    rw [hf]
    cases c out
    · exact Or.inl rfl
    · exact Or.inr rfl
  refine ⟨fun out hok => ?_, fun out hok => ?_⟩
  · rcases hcases out with hres | hres <;> rw [hres] at hok ⊢
    · exact hfs.ok out hok
    · exact hcomma.ok out hok
  · rcases hcases out with hres | hres <;> rw [hres] at hok ⊢
    · exact hfs.failed out hok
    · exact hcomma.failed out hok

theorem moves_prop_begin {key : Text} (hkey : Chars key) : Moves (o_prop_begin key) 0 0 := by
  refine moves_comma (fun out => rfl) ?_
  have hlevel : Level (quoted key ++ [58]) := (level_quoted hkey).append
    (level_of_plain fun c hc => by rw [List.mem_singleton.mp hc]; decide)
  exact (moves_level hlevel).level_cons
    ((moves_same (fun out => ⟨false, rfl⟩) 0).level_cons moves_nil)

theorem moves_o_symbol {sym : UInt8} {a : ℤ}
    (hsym : ∀ depth, scan (.outside depth) sym = .outside (depth + a)) (b : ℤ) :
    Moves (o_symbol sym) a b := by
  refine moves_comma (fun out => rfl) ?_
  have hseq := (moves_symbol hsym b).cons ((moves_same (f := fun out =>
      if sym == 91 || sym == 123 then setProp false out
      else if sym == 93 || sym == 125 then setProp true out
      else (true, out)) ?_ (b - a)).cons moves_nil (le_refl _) (zero_add _).ge)
    (le_refl b) (add_sub_cancel a b).ge
  · rwa [add_zero, add_zero] at hseq
  · intro out
    by_cases hopen : (sym == 91 || sym == 123) = true
    · exact ⟨false, if_pos hopen⟩
    · by_cases hclose : (sym == 93 || sym == 125) = true
      · exact ⟨true, by rw [if_neg hopen, if_pos hclose]⟩
      · exact ⟨out.has_prop, by rw [if_neg hopen, if_neg hclose]; rfl⟩

theorem moves_open {sym : UInt8} (hsym : sym = 91 ∨ sym = 123) (b : ℤ) :
    Moves (o_symbol sym) 1 b :=
  moves_o_symbol (fun depth => by rcases hsym with rfl | rfl <;> rfl) b

theorem moves_close {sym : UInt8} (hsym : sym = 93 ∨ sym = 125) (b : ℤ) :
    Moves (o_symbol sym) (-1) b :=
  moves_o_symbol (fun depth => by rcases hsym with rfl | rfl <;> rfl) b

/-- The bytes of a string: no room is left when they do not fit. -/
theorem puts_left (s : Text) (out : Output) :
    (puts s out).2.left ≤ out.left ∧ ((puts s out).1 = false → (puts s out).2.left = 0) := by
  induction s generalizing out with
  | nil => exact ⟨le_refl _, fun hok => absurd hok Bool.true_eq_false.mp⟩
  | cons c s ih =>
    rw [puts]
    split_ifs with hleft
    · exact ⟨le_refl _, fun _ => hleft⟩
    · obtain ⟨hle, hzero⟩ := ih { out with text := out.text ++ [c], left := out.left - 1 }
      refine ⟨hle.trans ?_, hzero⟩
      show out.left - 1 ≤ out.left
      omega

/-- A string: when it is cut there is no room for the closing brackets. -/
theorem moves_quoted {s : Text} (hs : Chars s) :
    Moves (inSequence [o_printf [34], puts s, o_printf [34], o_prop_end]) 0 0 where
  ok out hok := by
    have hemits : Emits out.flash (inSequence [o_printf [34], puts s, o_printf [34], o_prop_end])
        out.has_prop (quoted s) true := by
      have hquoted : Emits out.flash (inSequence [o_printf [34], puts s, o_printf [34]])
          out.has_prop (quoted s) out.has_prop := (emits_printf [34]).cons (emits_puts_printf _ _)
      have hseq := hquoted.append emits_prop_end.one
      rwa [List.append_nil] at hseq
    by_cases hroom : ((quoted s).length : ℤ) < out.left
    · rw [hemits.fits out rfl rfl hroom]
      exact Deeper.wrote out _ (level_quoted hs)
    · by_cases hpos : 0 < out.left
      · exact absurd hok (ne_true_of_eq_false (hemits.stops out rfl rfl hpos (not_lt.mp hroom)))
      · rcases o_printf_cases [34] [puts s, o_printf [34], o_prop_end] out with
          ⟨-, hquote⟩ | ⟨hres, -⟩
        · exact absurd ((Int.natCast_nonneg _).trans_lt hquote) hpos
        · rw [hres] at hok
          exact absurd hok Bool.false_ne_true
  failed out hok := by
    rcases o_printf_cases [34] [puts s, o_printf [34], o_prop_end] out with
      ⟨hres, -⟩ | ⟨hres, hroom⟩
    · rw [hres] at hok ⊢
      generalize hfirst : ({ out with text := out.text ++ [34], left := out.left - _ } : Output) =
        first at hok ⊢
      have hleft : first.left ≤ out.left := by
        rw [← hfirst]
        show out.left - (([34] : Text).length : ℤ) ≤ out.left
        omega
      obtain ⟨hle, hzero⟩ := puts_left s first
      rw [inSequence_cons] at hok ⊢
      split_ifs at hok ⊢ with hputs
      · rcases o_printf_cases [34] [o_prop_end] (puts s first).2 with ⟨hres, -⟩ | ⟨hres, hroom⟩
        · rw [hres] at hok
          exact absurd hok Bool.true_eq_false.mp
        · rw [hres]
          exact ⟨hle.trans hleft, Or.inl (hroom.trans (by decide))⟩
      · refine ⟨hle.trans hleft, Or.inl ?_⟩
        rw [hzero (Bool.eq_false_iff.mpr hputs)]
        decide
    · rw [hres]
      exact ⟨le_refl _, Or.inl (hroom.trans (by decide))⟩

theorem moves_prop {key : String} {val : PropValue} (hkey : IsKey key) (hval : val.IsPrintable) :
    Moves (o_prop (ascii key) val) 0 0 := by
  have hbegin := moves_prop_begin hkey.chars
  have hend : Moves (inSequence [o_prop_end]) 0 0 :=
    (moves_same (fun out => ⟨true, rfl⟩) 0).level_cons moves_nil
  cases val with
  | int val => exact hbegin.level_cons ((moves_level (value_decimal val).level).level_cons hend)
  | bool val => exact hbegin.level_cons ((moves_level (value_boolean val).level).level_cons hend)
  | str val => exact hbegin.level_cons (moves_quoted (chars_escaped hval))

theorem moves_props {l : List (String × PropValue)}
    (h : ∀ prop ∈ l, IsKey prop.1 ∧ prop.2.IsPrintable) : Moves (o_props l) 0 0 := by
  induction l with
  | nil => exact moves_nil
  | cons prop l ih =>
    obtain ⟨hprop, hl⟩ := List.forall_mem_cons.mp h
    exact (moves_prop hprop.1 hprop.2).level_cons (ih hl)

/-! ## Texts and rows -/

section Cut

variable {pg : VbiPage} {flash : Bool}

theorem moves_strictText {buf : Text} (st : VbiChar) (hbuf : Printable buf) :
    Moves (strictText pg buf st flash) 0 1 := by
  have hprops : Moves (o_props (textProps buf st flash)) 0 0 := moves_props fun prop hprop =>
    isPrintable_text pg st hbuf prop (List.mem_append_right _ hprop)
  have htail : Moves (inSequence [o_props (textProps buf st flash), o_symbol 125]) (-1) 0 :=
    hprops.cons ((moves_close (Or.inr rfl) 0).cons moves_nil (le_refl 0)
      (by decide : (0 : ℤ) ≤ -1 + 1)) (le_refl 0) (le_refl 0)
  have hprop : ∀ (key : String) (n : ℤ), IsKey key → Moves (o_prop (ascii key) (.int n)) 0 0 :=
    fun key n hkey => moves_prop hkey trivial
  have hcolors := (hprop "fg_color" (vbi_color_value (pg.color_map st.foreground)) (by decide)).cons
    ((hprop "bg_color" (vbi_color_value (pg.color_map st.background)) (by decide)).cons htail
      (le_refl 0) (le_refl 0)) (le_refl 0) (le_refl 0)
  exact (moves_open (Or.inr rfl) 1).cons hcolors (le_refl 1) (le_refl 1)

/-- A text opens no fewer brackets than it closes, and one that fails leaves its own open. -/
theorem moves_text {buf : Text} (st : VbiChar) (hbuf : Printable buf) :
    Moves (vbi_text_to_json pg buf st) 0 1 := by
  by_cases hempty : buf.length = 0
  · refine moves_same (fun out => ⟨out.has_prop, ?_⟩) 1
    rw [vbi_text_to_json, if_pos hempty]
    rfl
  · refine ⟨fun out _ => ?_, fun out hok => ?_⟩
    · rw [(hides_text pg st hempty out).1]
      exact (moves_strictText st hbuf).deeper (le_refl 0) zero_le_one out
    · obtain ⟨hres, htrue⟩ := hides_text pg st hempty out
      rw [hres]
      refine (moves_strictText st hbuf).failed out (Bool.eq_false_iff.mpr fun hstrict => ?_)
      exact absurd (htrue hstrict) (ne_true_of_eq_false hok)

/-- A text that is cut leaves its bracket open. -/
theorem deeper_text (pg : VbiPage) {buf : Text} (st : VbiChar) {out : Output} (hbuf : Printable buf)
    (hpos : 0 < out.left)
    (hroom : out.left ≤ (items out.has_prop (vbiTexts pg out.flash buf st)).length) :
    Deeper 1 out (vbi_text_to_json pg buf st out).2 := by
  by_cases hempty : buf.length = 0
  · rw [vbiTexts, if_pos hempty] at hroom
    exact absurd hpos (not_lt.mpr hroom)
  · rw [(hides_text pg st hempty out).1]
    exact (moves_strictText st hbuf).failed out
      ((emits_strictText st hempty out.has_prop).stops out rfl rfl hpos hroom)

/-! ### Columns -/

section Column

variable (pg) {r : Row VbiChar} (hr : Printable r.buf) (i : ℕ)

include hr

theorem moves_changeWriter : Moves (changeWriter pg r i) 0 1 := by
  unfold changeWriter
  cases vbi_style_cmp r.st (pg.text i)
  · exact moves_same (fun out => ⟨out.has_prop, rfl⟩) 1
  · exact moves_text r.st hr

theorem deeper_changeWriter {out : Output} (hpos : 0 < out.left)
    (hroom : out.left ≤ (items out.has_prop (changeTexts pg out.flash r i)).length) :
    Deeper 1 out (changeWriter pg r i out).2 := by
  unfold changeWriter
  unfold changeTexts at hroom
  cases hstyle : vbi_style_cmp r.st (pg.text i)
  · rw [hstyle] at hroom
    exact absurd hpos (not_lt.mpr hroom)
  · rw [hstyle] at hroom
    exact deeper_text pg r.st hr hpos hroom

theorem level_changeTexts (flash p : Bool) : Level (items p (changeTexts pg flash r i)) :=
  level_items (fun s hs => (value_changeTexts pg flash hr i s hs).level) p

end Column

/-- The columns of a row open no fewer brackets than they close. -/
theorem vbiColumns_moves (pg : VbiPage) (row n col : ℕ) {r : Row VbiChar} (hr : Printable r.buf)
    (out : Output) : Printable (vbiColumns pg row n col r out).2.1.buf ∧
      Deeper (if (vbiColumns pg row n col r out).1 then 0 else 1) out
        (vbiColumns pg row n col r out).2.2 := by
  induction n generalizing col r out with
  | zero => exact ⟨hr, Deeper.of_same rfl rfl⟩
  | succ n ih =>
    have hchange := moves_changeWriter pg hr (row * pg.columns + col)
    have hnext := printable_nextRow pg hr (row * pg.columns + col)
    rw [vbiColumns_succ]
    by_cases hok : (changeWriter pg r (row * pg.columns + col) out).1 = true
    · rw [if_pos hok]
      by_cases hgo : (nextRow pg r (row * pg.columns + col)).2 = true
      · rw [if_pos hgo]
        obtain ⟨hbuf, hrest⟩ := ih (col + 1) hnext
          (changeWriter pg r (row * pg.columns + col) out).2
        refine ⟨hbuf, ?_⟩
        have htrans := (hchange.ok out hok).trans hrest
        rwa [zero_add] at htrans
      · rw [if_neg hgo]
        exact ⟨hnext, hchange.ok out hok⟩
    · rw [if_neg hok]
      exact ⟨hr, hchange.failed out (Bool.eq_false_iff.mpr hok)⟩

/-- The columns of a row that are cut leave a bracket open. -/
theorem vbiColumns_cut (pg : VbiPage) (row n col : ℕ) {r : Row VbiChar} (hr : Printable r.buf)
    {out : Output}
    (hpos : 0 < out.left) (hroom : out.left ≤
      (items out.has_prop (vbiColumnTexts pg out.flash row n col r).1).length) :
    Deeper 1 out (vbiColumns pg row n col r out).2.2 := by
  induction n generalizing col r out with
  | zero => exact absurd hpos (not_lt.mpr hroom)
  | succ n ih =>
    have hnext := printable_nextRow pg hr (row * pg.columns + col)
    rw [vbiColumnTexts_succ] at hroom
    rw [vbiColumns_succ]
    by_cases hhere : ((items out.has_prop
        (changeTexts pg out.flash r (row * pg.columns + col))).length : ℤ) < out.left
    · have hlevel := level_changeTexts pg hr (row * pg.columns + col) out.flash out.has_prop
      rw [fits_changeWriter pg r (row * pg.columns + col) out rfl rfl hhere, if_pos rfl]
      by_cases hgo : (nextRow pg r (row * pg.columns + col)).2 = true
      · rw [if_pos hgo, length_items_append] at hroom
        rw [if_pos hgo]
        refine ((Deeper.wrote out _ hlevel).trans (ih (col + 1) hnext (sub_pos.mpr hhere)
          (sub_le_iff_le_add'.mpr ?_))).mono (zero_add 1).ge
        exact hroom
      · rw [if_neg hgo] at hroom
        exact absurd hhere (not_lt.mpr hroom)
    · have hcut := deeper_changeWriter pg hr (row * pg.columns + col) hpos
        (not_lt.mp hhere)
      split_ifs with hok hgo
      · have hrest := (vbiColumns_moves pg row n (col + 1) hnext
          (changeWriter pg r (row * pg.columns + col) out).2).2
        refine (hcut.trans hrest).mono ?_
        split_ifs <;> decide
      · exact hcut
      · exact hcut

/-! ### Rows -/

theorem moves_rowBegin : Moves (inSequence [o_symbol 123, o_prop_begin (ascii "content"),
    o_symbol 91]) 2 1 :=
  (moves_open (Or.inr rfl) 1).cons ((moves_prop_begin (IsKey.chars (by decide))).cons
    ((moves_open (Or.inl rfl) 0).cons moves_nil (le_refl 0) (by decide : (0 : ℤ) ≤ 1 + 0))
    (le_refl 0) (le_refl 0)) (le_refl 1) (le_refl 1)

theorem moves_rowEnd (start : ℕ) : Moves (inSequence [o_symbol 93, o_prop_end,
    o_props [("row_start", .int start)], o_symbol 125]) (-2) (-1) := by
  have hstart : Moves (o_props [("row_start", .int start)]) 0 0 :=
    moves_props fun prop hprop => by
      rw [List.mem_singleton.mp hprop]
      exact ⟨show IsKey "row_start" by decide, trivial⟩
  have hlast : Moves (inSequence [o_symbol 125]) (-1) 0 :=
    (moves_close (Or.inr rfl) 0).cons moves_nil (le_refl 0) (by decide : (0 : ℤ) ≤ -1 + 1)
  exact (moves_close (Or.inl rfl) (-1)).cons ((moves_same (fun out => ⟨true, rfl⟩) 0).cons
    (hstart.cons hlast (le_refl 0) (le_refl 0)) (le_refl 0) (le_refl 0)) (le_refl _) (le_refl _)

/-- The calls behind the columns of a row. -/
theorem moves_rowRest {r : Row VbiChar} (hr : Printable r.buf) :
    Moves (inSequence [vbi_text_to_json pg r.buf r.st, o_symbol 93, o_prop_end,
      o_props [("row_start", .int r.start)], o_symbol 125]) (-2) (-1) :=
  (moves_text r.st hr).cons (moves_rowEnd r.start) (by decide) (le_refl _)

theorem rowRest_cut {r : Row VbiChar} (hr : Printable r.buf) {out : Output} (hpos : 0 < out.left)
    (hroom : out.left ≤
      (items out.has_prop (vbiTexts pg out.flash r.buf r.st) ++ rowEnd r.start).length) :
    Deeper (-1) out (inSequence [vbi_text_to_json pg r.buf r.st, o_symbol 93, o_prop_end,
      o_props [("row_start", .int r.start)], o_symbol 125] out).2 := by
  rw [List.length_append, Nat.cast_add] at hroom
  by_cases htext : ((items out.has_prop (vbiTexts pg out.flash r.buf r.st)).length : ℤ) < out.left
  · refine (moves_rowRest hr).failed out ?_
    rw [inSequence_cons, fits_text r.buf r.st out rfl rfl htext, if_pos rfl]
    exact (emits_rowEnd r.start).stops _ rfl rfl (sub_pos.mpr htext)
      (sub_le_iff_le_add'.mpr hroom)
  · have hcut := deeper_text pg r.st hr hpos (not_lt.mp htext)
    rw [inSequence_cons]
    split_ifs with hok
    · exact (hcut.trans ((moves_rowEnd r.start).deeper (le_refl (-2)) (by decide) _)).mono
        (by decide)
    · exact hcut.mono (by decide)

/-- A row opens no fewer brackets than it closes. -/
theorem deeper_row (pg : VbiPage) (row : ℕ) (st : VbiChar) (out : Output) :
    Deeper 0 out (vbi_page_row_to_json pg row st out).2.2 := by
  have hempty : Printable (⟨[], 0, false, st⟩ : Row VbiChar).buf :=
    fun c hc => absurd hc List.not_mem_nil
  rw [vbi_page_row_to_json]
  rcases hbegin : inSequence [o_symbol 123, o_prop_begin (ascii "content"), o_symbol 91] out with
    ⟨_ | _, out₁⟩
  · have hfailed := moves_rowBegin.failed out (congrArg Prod.fst hbegin)
    rw [hbegin] at hfailed
    exact hfailed.mono zero_le_one
  · have hok := moves_rowBegin.ok out (congrArg Prod.fst hbegin)
    rw [hbegin] at hok
    obtain ⟨hbuf, hcolumns⟩ := vbiColumns_moves pg row pg.columns 0 hempty out₁
    dsimp only
    rcases hloop : vbiColumns pg row pg.columns 0 ⟨[], 0, false, st⟩ out₁ with ⟨_ | _, r, out₂⟩
    · rw [hloop, if_neg Bool.false_ne_true] at hcolumns
      exact (hok.trans hcolumns).mono (by decide)
    · rw [hloop, if_pos rfl] at hcolumns
      rw [hloop] at hbuf
      exact ((hok.trans hcolumns).trans
        ((moves_rowRest hbuf).deeper (le_refl (-2)) (by decide) out₂)).mono (by decide)

/-- A row that is cut leaves a bracket open. -/
theorem row_cut (row : ℕ) (st : VbiChar) {out : Output} (hpos : 0 < out.left)
    (hroom : out.left ≤ (items out.has_prop [vbiRowText pg out.flash
      (vbiColumnTexts pg out.flash row pg.columns 0 ⟨[], 0, false, st⟩)]).length) :
    Deeper 1 out (vbi_page_row_to_json pg row st out).2.2 := by
  have hempty : Printable (⟨[], 0, false, st⟩ : Row VbiChar).buf :=
    fun c hc => absurd hc List.not_mem_nil
  rw [vbiRowText, items_rowObject] at hroom
  simp only [List.length_append, Nat.cast_add] at hroom
  rw [vbi_page_row_to_json]
  by_cases hfirst : ((rowBegin out.has_prop).length : ℤ) < out.left
  · have hbegin := emits_rowBegin.fits out rfl rfl hfirst
    have hok := moves_rowBegin.ok out (congrArg Prod.fst hbegin)
    rw [hbegin] at hok ⊢
    dsimp only at hok ⊢
    have hpos₁ : 0 < (out.wrote (rowBegin out.has_prop) false).left := sub_pos.mpr hfirst
    have hroom₁ : (out.wrote (rowBegin out.has_prop) false).left ≤ _ :=
      sub_le_iff_le_add'.mpr hroom
    have hflash₁ : (out.wrote (rowBegin out.has_prop) false).flash = out.flash := rfl
    have hprop₁ : (out.wrote (rowBegin out.has_prop) false).has_prop = false := rfl
    generalize out.wrote (rowBegin out.has_prop) false = out₁ at hok hpos₁ hroom₁ hflash₁ hprop₁ ⊢
    obtain ⟨hbuf, hmoves⟩ := vbiColumns_moves pg row pg.columns 0 hempty out₁
    by_cases hloop : ((items false (vbiColumnTexts pg out.flash row pg.columns 0
        ⟨[], 0, false, st⟩).1).length : ℤ) < out₁.left
    · have hcolumns := vbiColumns_fits row pg.columns 0 ⟨[], 0, false, st⟩ out₁ hprop₁ hflash₁ hloop
      rw [hcolumns] at hbuf hmoves ⊢
      rw [if_pos rfl] at hmoves
      rw [← hflash₁] at hroom₁ hloop hbuf hmoves ⊢
      generalize vbiColumnTexts pg out₁.flash row pg.columns 0 ⟨[], 0, false, st⟩ = columns
        at hroom₁ hloop hbuf hmoves ⊢
      refine ((hok.trans hmoves).trans (rowRest_cut hbuf (sub_pos.mpr hloop) ?_)).mono (by decide)
      rw [List.length_append, Nat.cast_add]
      exact sub_le_iff_le_add'.mpr hroom₁
    · have hcut := vbiColumns_cut pg row pg.columns 0 hempty hpos₁ (by
        rw [hprop₁, hflash₁]
        exact not_lt.mp hloop)
      rcases hres : vbiColumns pg row pg.columns 0 ⟨[], 0, false, st⟩ out₁ with ⟨_ | _, r, out₂⟩
      · rw [hres] at hcut
        exact (hok.trans hcut).mono (by decide)
      · rw [hres] at hcut hbuf
        exact ((hok.trans hcut).trans
          ((moves_rowRest hbuf).deeper (le_refl (-2)) (by decide) out₂)).mono (by decide)
  · have hstop := (emits_rowBegin (p := out.has_prop)).stops out rfl rfl hpos (not_lt.mp hfirst)
    have hfailed := moves_rowBegin.failed out hstop
    rcases hbegin : inSequence [o_symbol 123, o_prop_begin (ascii "content"), o_symbol 91] out with
      ⟨_ | _, out₁⟩
    · rw [hbegin] at hfailed
      exact hfailed
    · rw [hbegin] at hstop
      exact absurd hstop Bool.true_eq_false.mp

/-! ### The page -/

theorem deeper_rows (n i : ℕ) (st : VbiChar) (out : Output) :
    Deeper 0 out (vbiRows pg n i st out) := by
  induction n generalizing i st out with
  | zero => exact Deeper.of_same rfl rfl
  | succ n ih => exact (deeper_row pg i st out).trans (ih (i + 1) _ _)

/-- Rows that are cut leave a bracket open. -/
theorem rows_cut (n i : ℕ) (st : VbiChar) {out : Output} (hpos : 0 < out.left)
    (hroom : out.left ≤ (items out.has_prop (vbiRowTexts pg out.flash n i st)).length) :
    Deeper 1 out (vbiRows pg n i st out) := by
  induction n generalizing i st out with
  | zero => exact absurd hpos (not_lt.mpr hroom)
  | succ n ih =>
    rw [vbiRowTexts, items_cons, List.length_append, Nat.cast_add] at hroom
    by_cases hrow : ((items out.has_prop [vbiRowText pg out.flash
        (vbiColumnTexts pg out.flash i pg.columns 0 ⟨[], 0, false, st⟩)]).length : ℤ) < out.left
    · have hfits := vbi_page_row_to_json_fits i st out rfl rfl _ rfl hrow
      have hdeeper := deeper_row pg i st out
      rw [vbiRows, hfits]
      rw [hfits] at hdeeper
      dsimp only
      exact (hdeeper.trans (ih (i + 1) _ (sub_pos.mpr hrow) (sub_le_iff_le_add'.mpr hroom))).mono
        (zero_add 1).ge
    · exact ((row_cut i st hpos (not_lt.mp hrow)).trans (deeper_rows n (i + 1) _ _)).mono
        (add_zero 1).ge

theorem moves_vbiPageHead : Moves (vbiPageHead pg) 4 0 := by
  have htype : Moves (o_props [("type", .str (ascii "cea608"))]) 0 0 :=
    moves_props (by decide)
  have hprops := moves_props (isPrintable_pageProps pg)
  exact (moves_open (Or.inr rfl) 0).cons (htype.cons
    ((moves_prop_begin (IsKey.chars (by decide))).cons ((moves_open (Or.inl rfl) 0).cons
      ((moves_open (Or.inr rfl) 0).cons (hprops.cons
        ((moves_prop_begin (IsKey.chars (by decide))).cons ((moves_open (Or.inl rfl) 0).cons
          moves_nil (le_refl 0) (by decide : (0 : ℤ) ≤ 1 + 0)) (le_refl 0) (le_refl 0))
        (le_refl 0) (le_refl 0)) (le_refl 0) (by decide)) (le_refl 0) (by decide))
      (le_refl 0) (le_refl 0)) (le_refl 0) (le_refl 0)) (le_refl 0) (by decide)

/-- **A page that is cut between its first row and its last is never written as a JSON
text.** -/
theorem not_wellFormed_of_cut {out : Output} (htext : out.text = []) (hp : out.has_prop = false)
    (hhead : ((vbiPageHeadText pg).length : ℤ) < out.left)
    (hrows : out.left ≤ (vbiPageRowsText pg out.flash).length)
    (hok : (vbi_page_to_json pg out).1 = true) :
    ¬WellFormed (vbi_page_to_json pg out).2.text := by
  have hfirst := emits_vbiPageHead.fits out hp rfl hhead
  have hopen := moves_vbiPageHead.ok out (congrArg Prod.fst hfirst)
  rw [hfirst] at hopen
  rw [vbiPageRowsText, List.length_append, Nat.cast_add] at hrows
  have hcut : Deeper 1 (out.wrote (vbiPageHeadText pg) false)
      (vbiRows pg pg.rows 0 VbiChar.zero (out.wrote (vbiPageHeadText pg) false)) :=
    rows_cut pg.rows 0 VbiChar.zero (sub_pos.mpr hhead) (sub_le_iff_le_add'.mpr hrows)
  rw [vbi_page_to_json, inSequence, hfirst] at hok ⊢
  dsimp only at hok ⊢
  rw [inSequence] at hok ⊢
  dsimp only at hok ⊢
  have hdeeper := hopen.trans hcut
  generalize vbiRows pg pg.rows 0 VbiChar.zero (out.wrote (vbiPageHeadText pg) false) = out'
    at hok hdeeper ⊢
  have hroom : (4 : ℤ) < out'.left := by
    by_contra hleft
    have hstop : (inSequence [o_symbol 93, o_symbol 125, o_symbol 93, o_symbol 125] out').1 =
        false := by
      by_cases hpos : 0 < out'.left
      · exact (emits_vbiPageTail out'.has_prop).stops out' rfl rfl hpos (not_lt.mp hleft)
      · exact symbol_of_no_room _ _ (not_lt.mp hpos)
    exact absurd hok (ne_true_of_eq_false hstop)
  obtain ⟨-, hleft | ⟨t, e, ht, he, hscan⟩⟩ := hdeeper
  · exact absurd hroom (not_lt.mpr hleft)
  · rw [(emits_vbiPageTail out'.has_prop).fits out' rfl rfl hroom]
    intro hwell
    have hlevel := hwell.level.scan 0
    -- the four brackets at the end close four of at least five
    have hend : (out'.wrote [93, 125, 93, 125] true).text = t ++ [93, 125, 93, 125] := by
      show out'.text ++ _ = _
      rw [ht, htext, List.nil_append]
    rw [hend, List.foldl_append, hscan] at hlevel
    have hdepth : 0 + e - 1 - 1 - 1 - 1 = 0 := Scan.outside.inj hlevel
    omega

end Cut

end ClosedCaptionJson
end AmlSubtitle
