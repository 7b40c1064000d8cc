import AmlSubtitle.Utils.DtvccServiceJson

/-!
# What is written of a CEA 708 service

* `serviceText`: the whole document of a service.
* `emits_service`: **a service is written as a whole, or the call fails.**  Two results are
  ignored on the way, but when one of the two properties does not fit, the next one does not
  fit either (`Emits.ignored_cons`).
* `value_serviceText`: the document is a JSON value.
-/

namespace AmlSubtitle
namespace ClosedCaptionJson

open Json Words

/-! ## The document -/

/-- The text of characters with one pen, if there are any. -/
def penTexts (buf : Text) (pt : DtvccPenStyle) : List Text :=
  if buf.length = 0 then [] else [object (propTexts (penProps buf pt))]

/-- What is written for a column, and the variables behind it. -/
def columnTexts (td : DtvccDecoder) (win : DtvccWindow) (row col : ℕ) (r : Row DtvccPenStyle) :
    List Text × Row DtvccPenStyle :=
  let c := win.buffer row col
  let cpt := win.pen row col
  let r := r.count c
  (if r.changes td c cpt then penTexts r.buf r.st else [], r.add td c cpt)

/-- What a loop writes, and the variables behind it. -/
def loopTexts {σ : Type} (t : ℕ → σ → List Text × σ) : ℕ → ℕ → σ → List Text × σ
  | 0, _, s => ([], s)
  | n + 1, i, s =>
    let rest := loopTexts t n (i + 1) (t i s).2
    ((t i s).1 ++ rest.1, rest.2)

/-- A row, and the pen behind it. -/
def rowTexts (td : DtvccDecoder) (win : DtvccWindow) (row : ℕ) (pt : DtvccPenStyle) :
    List Text × DtvccPenStyle :=
  let columns := loopTexts (columnTexts td win row) win.column_count 0 ⟨[], 0, false, pt⟩
  ([rowObject (columns.1 ++ penTexts columns.2.buf columns.2.st) columns.2.start], columns.2.st)

/-- The properties of a window. -/
def allWindowProps (win : DtvccWindow) (flash : Bool) : List (String × PropValue) :=
  windowProps win ++ [("rollup", .bool win.style.need_rollup),
    ("curr_row", .int (asSigned 32 win.style.curr_row)), ("wordwrap", .bool win.style.wordwrap)] ++
    styleProps win flash

/-- A window. -/
def windowText (td : DtvccDecoder) (flash : Bool) (window : DtvccWindow) : Text :=
  let win := window.final_counts
  object (propTexts (allWindowProps win flash) ++ [member (ascii "rows")
    (array (loopTexts (rowTexts td win) win.row_count 0 DtvccPenStyle.zero).1)])

/-- The document of a service. -/
def serviceText (td : DtvccDecoder) (flash : Bool) (srv : DtvccService) : Text :=
  object (propTexts [("type", .str (ascii "cea708"))] ++
    [member (ascii "windows") (array (srv.wins.map (windowText td flash)))])

/-! ## What is written -/

/-- The call writes `d` and leaves `s`, or fails for lack of room. -/
structure StepEmits {σ : Type} (flash : Bool) (f : Step σ) (p : Bool) (d : Text) (q : Bool)
    (s : σ) : Prop where
  fits : ∀ out : Output, out.has_prop = p → out.flash = flash → (d.length : ℤ) < out.left →
    f out = (some s, out.wrote d q)
  stops : ∀ out : Output, out.has_prop = p → out.flash = flash → 0 < out.left →
    out.left ≤ d.length → (f out).1 = none

/-- The call writes items and leaves variables. -/
def StepItems {σ : Type} (flash : Bool) (f : Step σ) (t : List Text × σ) : Prop :=
  ∀ p, StepEmits flash f p (items p t.1) (p || !t.1.isEmpty) t.2

section Steps

variable {σ τ : Type} {flash p q r : Bool} {d e : Text} {s : σ}

theorem Emits.returning {f : Writer} (hf : Emits flash f p d q) (s : σ) :
    StepEmits flash (returning f s) p d q s where
  fits out hp hflash hroom := by
    rw [ClosedCaptionJson.returning, hf.fits out hp hflash hroom]
  stops out hp hflash hleft hroom := by
    have hstop := hf.stops out hp hflash hleft hroom
    rw [ClosedCaptionJson.returning]
    rcases hres : f out with ⟨ok, out'⟩
    rw [hres] at hstop
    rw [show ok = false from hstop]

theorem StepEmits.bind {f : Step σ} {g : σ → Step τ} {t : τ} (hf : StepEmits flash f p d q s)
    (hg : StepEmits flash (g s) q e r t) : StepEmits flash (f.bind g) p (d ++ e) r t where
  fits out hp hflash hroom := by
    rw [List.length_append, Nat.cast_add] at hroom
    rw [Step.bind, hf.fits out hp hflash (by omega)]
    dsimp only
    rw [hg.fits (out.wrote d q) rfl hflash (by
      show (e.length : ℤ) < out.left - d.length
      omega), wrote_wrote]
  stops out hp hflash hleft hroom := by
    rw [List.length_append, Nat.cast_add] at hroom
    rw [Step.bind]
    by_cases hd : (d.length : ℤ) < out.left
    · rw [hf.fits out hp hflash hd]
      refine hg.stops (out.wrote d q) rfl hflash ?_ ?_
      · show (0 : ℤ) < out.left - d.length
        omega
      · show out.left - (d.length : ℤ) ≤ e.length
        omega
    · have hstop := hf.stops out hp hflash hleft (not_lt.mp hd)
      rcases hres : f out with ⟨s', out'⟩
      rw [hres] at hstop
      rw [show s' = none from hstop]

theorem StepEmits.writer {f : Step σ} (hf : StepEmits flash f p d q s) :
    Emits flash f.writer p d q where
  fits out hp hflash hroom := by
    rw [Step.writer, hf.fits out hp hflash hroom, Option.isSome_some]
  stops out hp hflash hleft hroom := by
    rw [Step.writer, hf.stops out hp hflash hleft hroom, Option.isSome_none]

theorem stepItems_loop {f : ℕ → σ → Step σ} {t : ℕ → σ → List Text × σ}
    (h : ∀ i s, StepItems flash (f i s) (t i s)) (n i : ℕ) (s : σ) :
    StepItems flash (loop f n i s) (loopTexts t n i s) := by
  induction n generalizing i s with
  | zero => exact fun p => (emitsItems_nil p).returning s
  | succ n ih =>
    intro p
    rw [loopTexts]
    dsimp only
    rw [items_append, or_isEmpty_append]
    exact (h i s p).bind (ih (i + 1) _ _)

end Steps

section Written

variable {flash p : Bool} {td : DtvccDecoder}

theorem emitsItems_ifSome (buf : Text) (pt : DtvccPenStyle) :
    EmitsItems flash (ifSome buf pt) (penTexts buf pt) := by
  intro p
  unfold penTexts
  split_ifs with hempty
  · refine Emits.of_eq (fun out _ _ => ?_) (emitsItems_nil p)
    rw [ifSome, if_pos hempty, inSequence]
  · refine Emits.of_eq (fun out _ _ => ?_) ((emitsItems_bracketed (Or.inr rfl) (Or.inr rfl)
      fun p => (emitsItems_props (penProps buf pt) p).one) p)
    rw [ifSome, if_neg hempty]
    rfl

theorem stepItems_column (win : DtvccWindow) (row col : ℕ) (r : Row DtvccPenStyle) :
    StepItems flash (column_to_json td win row col r) (columnTexts td win row col r) := by
  have hchange : ∀ b : Bool, EmitsItems flash
      (if b then ifSome (r.count (win.buffer row col)).buf (r.count (win.buffer row col)).st
        else inSequence [])
      (if b then penTexts (r.count (win.buffer row col)).buf (r.count (win.buffer row col)).st
        else []) := by
    rintro (_ | _)
    · exact emitsItems_nil
    · exact emitsItems_ifSome _ _
  exact fun p => (hchange _ p).returning _

theorem stepItems_row (win : DtvccWindow) (row : ℕ) (pt : DtvccPenStyle) :
    StepItems flash (row_to_json td win row pt) (rowTexts td win row pt) := by
  intro p
  rw [rowTexts]
  dsimp only
  rw [items_rowObject, List.isEmpty_cons, Bool.not_false, Bool.or_true]
  exact (emits_rowBegin.returning _).bind ((stepItems_loop (stepItems_column win row) _ _ _ _).bind
    (((emitsItems_ifSome _ _ _).cons (emits_rowEnd _)).returning _))

/-! ### Results that are ignored -/

/-- A key is written, or there is little room behind it. -/
theorem o_prop_begin_cases (key : Text) (out : Output) :
    ((o_prop_begin key out).1 = true ∧ ((quoted key ++ [58]).length : ℤ) < out.left ∧
      (o_prop_begin key out).2.left ≤ out.left) ∨
    ((o_prop_begin key out).1 = false ∧
      (o_prop_begin key out).2.left ≤ (quoted key ++ [58]).length ∧
      (o_prop_begin key out).2.left ≤ out.left) := by
  have hkey : ∀ out' : Output, out'.left ≤ out.left →
      let res := inSequence [o_printf (quoted key ++ [58]), setProp false] out'
      (res.1 = true ∧ ((quoted key ++ [58]).length : ℤ) < out.left ∧ res.2.left ≤ out.left) ∨
        (res.1 = false ∧ res.2.left ≤ (quoted key ++ [58]).length ∧ res.2.left ≤ out.left) := by
    intro out' hout'
    rcases o_printf_cases (quoted key ++ [58]) [setProp false] out'
      with ⟨hres, hroom⟩ | ⟨hres, hroom⟩
    · rw [hres]
      refine Or.inl ⟨rfl, hroom.trans_le hout', ?_⟩
      show out'.left - ((quoted key ++ [58]).length : ℤ) ≤ out.left
      omega
    · rw [hres]
      exact Or.inr ⟨rfl, hroom, hout'⟩
  rw [o_prop_begin]
  cases out.has_prop with
  | false => exact hkey out (le_refl _)
  | true =>
    rcases o_printf_cases [44] [o_printf (quoted key ++ [58]), setProp false] out with
      ⟨hres, -⟩ | ⟨hres, hroom⟩
    · rw [if_pos rfl, List.singleton_append, hres]
      refine hkey _ ?_
      show out.left - (([44] : Text).length : ℤ) ≤ out.left
      omega
    · rw [if_pos rfl, List.singleton_append, hres]
      refine Or.inr ⟨rfl, hroom.trans ?_, le_refl _⟩
      exact_mod_cast Nat.succ_le_succ (Nat.zero_le (key ++ [34] ++ [58]).length)

/-- So is a property whose value is a number or a truth value. -/
theorem o_prop_cases (key val : Text) (out : Output) :
    let res := inSequence [o_prop_begin key, o_printf val, o_prop_end] out
    (((quoted key ++ [58]).length : ℤ) < out.left ∧ res.1 = true ∧ res.2.left ≤ out.left) ∨
      (res.1 = false ∧ (res.2.left ≤ (quoted key ++ [58]).length ∨ res.2.left ≤ val.length) ∧
        res.2.left ≤ out.left) := by
  rw [inSequence_cons]
  rcases o_prop_begin_cases key out with ⟨hok, hroom, hleft⟩ | ⟨hok, hroom, hleft⟩
  · rw [if_pos hok]
    rcases o_printf_cases val [o_prop_end] (o_prop_begin key out).2 with ⟨hres, -⟩ | ⟨hres, hval⟩
    · rw [hres]
      refine Or.inl ⟨hroom, rfl, ?_⟩
      show (o_prop_begin key out).2.left - (val.length : ℤ) ≤ out.left
      omega
    · rw [hres]
      exact Or.inr ⟨rfl, Or.inr hval, hleft⟩
  · rw [if_neg (ne_true_of_eq_false hok)]
    exact Or.inr ⟨rfl, Or.inl hroom, hleft⟩

/-- **Ignored results.**  When a call fails with room for no more than `k` bytes left, and
what follows fails with that room, ignoring the result of the call makes no difference. -/
theorem Emits.ignored_cons {f : Writer} {fs : List Writer} {d e : Text} {q r : Bool} {k : ℤ}
    (hf : Emits flash f p d q) (hleft : ∀ out, (f out).1 = false → (f out).2.left ≤ k)
    (hfs : Emits flash (inSequence fs) q e r)
    (hstop : ∀ out : Output, out.left ≤ k → (inSequence fs out).1 = false) :
    Emits flash (inSequence (ignored f :: fs)) p (d ++ e) r where
  fits := by
    have hignored : Fits flash (ignored f) p d q := fun out hp hflash hroom => by
      rw [ignored, hf.fits out hp hflash hroom]
    exact hignored.cons hfs.fits
  stops out hp hflash hpos hroom := by
    rw [List.length_append, Nat.cast_add] at hroom
    rw [inSequence_cons, ignored, if_pos rfl]
    dsimp only
    by_cases hd : (d.length : ℤ) < out.left
    · rw [hf.fits out hp hflash hd]
      refine hfs.stops (out.wrote d q) rfl hflash ?_ ?_
      · show (0 : ℤ) < out.left - d.length
        omega
      · show out.left - (d.length : ℤ) ≤ e.length
        omega
    · exact hstop _ (hleft out (hf.stops out hp hflash hpos (not_lt.mp hd)))

/-! ### Windows and services -/

/-- A signed word has no more than eleven characters. -/
theorem length_decimal_asSigned (n : ℤ) : (decimal (asSigned 32 n)).length ≤ 11 := by
  have hle := Int.bmod_le (x := n) (m := 2 ^ 32) (by decide)
  have hge := Int.le_bmod (x := n) (m := 2 ^ 32) (by decide)
  refine length_decimal_le (k := 10) (by decide) ?_
  unfold asSigned
  omega

/-- `rollup`, `curr_row` and what follows them. -/
theorem emits_ignored (win : DtvccWindow) {fs : List Writer} {d : Text} {q : Bool}
    (hfs : Emits flash (inSequence fs) true d q) :
    Emits flash (inSequence (ignored (o_bool_prop (ascii "rollup") win.style.need_rollup) ::
        ignored (o_int_prop (ascii "curr_row") (asSigned 32 win.style.curr_row)) ::
        o_bool_prop (ascii "wordwrap") win.style.wordwrap :: fs)) true
      (items true (propTexts [("rollup", .bool win.style.need_rollup),
        ("curr_row", .int (asSigned 32 win.style.curr_row)),
        ("wordwrap", .bool win.style.wordwrap)]) ++ d) q := by
  have hwordwrap : ∀ out : Output, out.left ≤ 11 →
      (inSequence (o_bool_prop (ascii "wordwrap") win.style.wordwrap :: fs) out).1 = false := by
    intro out hleft
    rw [inSequence_cons]
    rcases o_prop_cases (ascii "wordwrap") (boolean win.style.wordwrap) out with
      ⟨hroom, -⟩ | ⟨hok, -⟩
    · exact absurd (hroom.trans_le hleft) (by decide)
    · rw [o_bool_prop, hok]
      rfl
  have hcurr : ∀ out : Output, (o_int_prop (ascii "curr_row")
      (asSigned 32 win.style.curr_row) out).1 = false →
      (o_int_prop (ascii "curr_row") (asSigned 32 win.style.curr_row) out).2.left ≤ 11 := by
    intro out hok
    rcases o_prop_cases (ascii "curr_row") (decimal (asSigned 32 win.style.curr_row)) out with
      ⟨-, htrue, -⟩ | ⟨-, hkey | hval, -⟩
    · exact absurd htrue (ne_true_of_eq_false hok)
    · exact hkey.trans (by decide)
    · exact hval.trans (by exact_mod_cast length_decimal_asSigned _)
  have hrollup : ∀ out : Output, (o_bool_prop (ascii "rollup") win.style.need_rollup out).1
      = false →
      (o_bool_prop (ascii "rollup") win.style.need_rollup out).2.left ≤ 11 := by
    intro out hok
    rcases o_prop_cases (ascii "rollup") (boolean win.style.need_rollup) out with
      ⟨-, htrue, -⟩ | ⟨-, hkey | hval, -⟩
    · exact absurd htrue (ne_true_of_eq_false hok)
    · exact hkey.trans (by decide)
    · exact hval.trans (by cases win.style.need_rollup <;> decide)
  have hboth : ∀ out : Output, out.left ≤ 11 → (inSequence (ignored (o_int_prop (ascii "curr_row")
      (asSigned 32 win.style.curr_row)) :: o_bool_prop (ascii "wordwrap") win.style.wordwrap :: fs)
      out).1 = false := by
    intro out hleft
    rw [inSequence_cons, ignored, if_pos rfl]
    refine hwordwrap _ (le_trans ?_ hleft)
    rcases o_prop_cases (ascii "curr_row") (decimal (asSigned 32 win.style.curr_row)) out with
      ⟨-, -, hle⟩ | ⟨-, -, hle⟩
    · exact hle
    · exact hle
  refine ((emitsItems_prop (ascii "rollup") (.bool win.style.need_rollup) true).ignored_cons
    hrollup ((emitsItems_prop (ascii "curr_row") (.int (asSigned 32 win.style.curr_row))
      true).ignored_cons hcurr ((emitsItems_prop (ascii "wordwrap") (.bool win.style.wordwrap)
        true).cons hfs) hwordwrap) hboth).congr ?_
  simp only [items, propTexts, List.map_cons, List.map_nil, List.append_assoc, List.append_nil]

theorem emitsItems_window (window : DtvccWindow) :
    EmitsItems flash (dtvcc_window_to_json td window) [windowText td flash window] := by
  intro p
  rw [windowText, List.isEmpty_cons, Bool.not_false, Bool.or_true]
  generalize hwin : window.final_counts = win
  have hrows : Emits flash (loop (row_to_json td win) win.row_count 0 DtvccPenStyle.zero).writer
      false _ _ :=
      (stepItems_loop (stepItems_row win) win.row_count 0 DtvccPenStyle.zero false).writer
  refine Emits.of_eq (g := inSequence [o_symbol 123, o_props (windowProps win),
    ignored (o_bool_prop (ascii "rollup") win.style.need_rollup),
    ignored (o_int_prop (ascii "curr_row") (asSigned 32 win.style.curr_row)),
    o_bool_prop (ascii "wordwrap") win.style.wordwrap, o_props (styleProps win flash),
    o_prop_begin (ascii "rows"), o_symbol 91,
    (loop (row_to_json td win) win.row_count 0 DtvccPenStyle.zero).writer,
    o_symbol 93, o_symbol 125, o_prop_end])
    (fun out _ hflash => by rw [dtvcc_window_to_json, hwin, hflash]) ?_
  refine ((emits_open (Or.inr rfl)).cons ((emitsItems_props _ false).cons (emits_ignored win
    ((emitsItems_props _ true).cons ((emits_prop_begin (p := true) _).cons
      ((emits_open (p := false) (Or.inl rfl)).cons (hrows.cons ((emits_close (Or.inl rfl)).cons
        ((emits_close (Or.inr rfl)).cons emits_prop_end.one))))))))).congr ?_
  have hprops : (false || !(propTexts (windowProps win)).isEmpty) = true := rfl
  have hsplit : propTexts (allWindowProps win flash) = propTexts (windowProps win) ++
      (propTexts [("rollup", .bool win.style.need_rollup),
        ("curr_row", .int (asSigned 32 win.style.curr_row)),
        ("wordwrap", .bool win.style.wordwrap)] ++ propTexts (styleProps win flash)) := by
    rw [propTexts, allWindowProps, List.map_append, List.map_append, List.append_assoc]
    rfl
  rw [hsplit]
  generalize propTexts (windowProps win) = props at hprops ⊢
  generalize propTexts [_, _, _] = ignoredProps
  simp only [items, object, array, member, items_append, hprops, Bool.true_or, List.append_assoc,
    List.cons_append, List.nil_append, List.append_nil, if_true, if_false,
    Bool.false_eq_true]

theorem emits_service (srv : DtvccService) :
    Emits flash (dtvcc_service_to_json td srv) false (serviceText td flash srv) true := by
  have hwindows : EmitsItems flash (inSequence (srv.wins.map (dtvcc_window_to_json td)))
      (srv.wins.map (windowText td flash)) := emitsItems_map emitsItems_window srv.wins
  refine ((emits_open (p := false) (Or.inr rfl)).cons ((emitsItems_props _ false).cons
    ((emits_prop_begin (p := true) _).cons ((emits_open (p := false) (Or.inl rfl)).cons
      ((hwindows false).cons ((emits_close (Or.inl rfl)).cons
        (emits_close (Or.inr rfl)).one)))))).congr ?_
  simp only [serviceText, object, array, member, items, propTexts, List.map_cons, List.map_nil,
    List.append_assoc, List.cons_append, List.nil_append, List.append_nil, if_true, if_false,
    Bool.false_eq_true]

end Written

/-! ## The document is well formed -/

/-- A character of the decoder is no control character. -/
theorem le_dtvcc_unicode (c : ℕ) : 0x20 ≤ dtvcc_unicode c := by
  have hreal : dtvcc_unicode_real c = 0 ∨ 0x20 ≤ dtvcc_unicode_real c := by
    have hlow : ¬ c &&& 0x60 = 0 → 0x20 ≤ c := by
      intro hand
      by_contra hlt
      have hlow : ∀ n < 0x20, n &&& 0x60 = 0 := by decide
      exact hand (hlow c (not_le.mp hlt))
    have hg2 : ∀ n, dtvcc_g2.getD n 0 = 0 ∨ 0x20 ≤ dtvcc_g2.getD n 0 := by
      have hall : ∀ u ∈ dtvcc_g2, u = 0 ∨ 0x20 ≤ u := by decide
      intro n
      rw [List.getD_eq_getElem?_getD]
      rcases hn : dtvcc_g2[n]? with _ | u
      · exact Or.inl rfl
      · exact hall u (List.mem_of_getElem? hn)
    unfold dtvcc_unicode_real
    split_ifs with h₁ h₂ h₃ h₄ h₅ h₆ h₇ h₈
    · exact Or.inl rfl
    · exact Or.inr (by decide)
    · exact Or.inr (by decide)
    · exact Or.inr (hlow h₂)
    · exact Or.inl rfl
    · exact hg2 _
    · exact Or.inr (by decide)
    · exact Or.inl rfl
    · exact Or.inr (by omega)
  rw [dtvcc_unicode]
  split_ifs with hzero
  · decide
  · exact hreal.resolve_left hzero

/-- What holds of the variables in front of a loop and is kept holds behind it, and what
holds of the texts of each turn holds of all. -/
theorem loopTexts_all {σ : Type} {t : ℕ → σ → List Text × σ} {I : σ → Prop} {V : Text → Prop}
    (h : ∀ i s, I s → (∀ v ∈ (t i s).1, V v) ∧ I (t i s).2) (n i : ℕ) {s : σ} (hs : I s) :
    (∀ v ∈ (loopTexts t n i s).1, V v) ∧ I (loopTexts t n i s).2 := by
  induction n generalizing i s with
  | zero => exact ⟨fun v hv => absurd hv List.not_mem_nil, hs⟩
  | succ n ih =>
    obtain ⟨hhere, hnext⟩ := h i s hs
    obtain ⟨hrest, hlast⟩ := ih (i + 1) hnext
    exact ⟨fun v hv => (List.mem_append.mp hv).elim (hhere v) (hrest v), hlast⟩

section Value

variable {td : DtvccDecoder} {flash : Bool}

theorem value_penTexts {buf : Text} (pt : DtvccPenStyle) (hbuf : Printable buf) :
    ∀ v ∈ penTexts buf pt, Value v := by
  have hprops : ∀ prop ∈ penProps buf pt, IsKey prop.1 ∧ prop.2.IsPrintable := by
    simp only [penProps, List.forall_mem_cons]
    refine ⟨⟨by decide, ?_⟩, ⟨by decide, ?_⟩, ⟨by decide, ?_⟩, ⟨by decide, trivial⟩,
      ⟨by decide, trivial⟩, ⟨by decide, ?_⟩, ⟨by decide, trivial⟩, ⟨by decide, trivial⟩,
      ⟨by decide, ?_⟩, ⟨by decide, trivial⟩, ⟨by decide, ?_⟩, ⟨by decide, hbuf⟩,
      fun _ hprop => absurd hprop List.not_mem_nil⟩
    · cases pt.pen_size <;> decide
    · cases pt.font_style <;> decide
    · cases pt.offset <;> decide
    · cases pt.edge_type <;> decide
    · cases pt.fg_opacity <;> decide
    · cases pt.bg_opacity <;> decide
  unfold penTexts
  split_ifs with hempty
  · exact fun v hv => absurd hv List.not_mem_nil
  · intro v hv
    rw [List.mem_singleton.mp hv]
    exact value_object (isMember_props hprops)

/-- What the buffer of a row holds is no control character. -/
theorem Row.add_printable {r : Row DtvccPenStyle} {c : ℕ} {cpt : DtvccPenStyle}
    (hr : Printable r.buf) : Printable (r.add td c cpt).buf := by
  have huc : 0x20 ≤ if dtvcc_unicode c = 0 then 0x20 else dtvcc_unicode c := by
    split_ifs
    · exact le_refl _
    · exact le_dtvcc_unicode c
  have hbuf : Printable (if r.st ≠ cpt then [] else r.buf) := by
    split_ifs
    · exact fun c hc => absurd hc List.not_mem_nil
    · exact hr
  rw [Row.add]
  by_cases hc : c = 0
  · rw [if_pos hc]
    exact hr
  · rw [if_neg hc]
    cases lang_korea td
    · exact hbuf.append (printable_put_uc huc)
    · exact hr

theorem value_columnTexts (win : DtvccWindow) (row col : ℕ) (r : Row DtvccPenStyle)
    (hr : Printable r.buf) : (∀ v ∈ (columnTexts td win row col r).1, Value v) ∧
      Printable (columnTexts td win row col r).2.buf := by
  have hcount : Printable (r.count (win.buffer row col)).buf := by
    unfold Row.count
    split_ifs <;> exact hr
  rw [columnTexts]
  refine ⟨?_, ?_⟩
  · dsimp only
    split_ifs
    · exact value_penTexts _ hcount
    · exact fun v hv => absurd hv List.not_mem_nil
  · exact Row.add_printable hcount

theorem value_rowTexts (win : DtvccWindow) (row : ℕ) (pt : DtvccPenStyle) :
    ∀ v ∈ (rowTexts td win row pt).1, Value v := by
  obtain ⟨hcolumns, hbuf⟩ := loopTexts_all (t := columnTexts td win row)
    (I := fun r : Row DtvccPenStyle => Printable r.buf) (value_columnTexts win row)
    win.column_count 0
    (s := ⟨[], 0, false, pt⟩) fun c hc => absurd hc List.not_mem_nil
  intro v hv
  rw [List.mem_singleton.mp hv]
  exact value_rowObject (fun v hv => (List.mem_append.mp hv).elim (hcolumns v)
    (value_penTexts _ hbuf v)) _

theorem isPrintable_allWindowProps (win : DtvccWindow) (flash : Bool) :
    ∀ prop ∈ allWindowProps win flash, IsKey prop.1 ∧ prop.2.IsPrintable := by
  have hdirection : ∀ dir, Printable (ascii (direction_to_str dir)) := by
    rintro (_ | _ | _ | _) <;> decide
  simp only [allWindowProps, windowProps, styleProps, List.cons_append, List.nil_append,
    List.forall_mem_cons]
  refine ⟨⟨by decide, trivial⟩, ⟨by decide, trivial⟩, ⟨by decide, trivial⟩, ⟨by decide, trivial⟩,
    ⟨by decide, trivial⟩, ⟨by decide, trivial⟩, ⟨by decide, trivial⟩, ⟨by decide, trivial⟩,
    ⟨by decide, ?_⟩, ⟨by decide, hdirection _⟩, ⟨by decide, hdirection _⟩, ⟨by decide, trivial⟩,
    ⟨by decide, trivial⟩, ⟨by decide, trivial⟩, ⟨by decide, trivial⟩, ⟨by decide, ?_⟩,
    ⟨by decide, ?_⟩, ⟨by decide, hdirection _⟩, ⟨by decide, trivial⟩, ⟨by decide, ?_⟩,
    ⟨by decide, trivial⟩, ⟨by decide, ?_⟩, ⟨by decide, trivial⟩, ⟨by decide, trivial⟩,
    fun _ hprop => absurd hprop List.not_mem_nil⟩
  · cases win.style.justify <;> decide
  · cases win.effect_status <;> decide
  · cases win.style.display_effect <;> decide
  · cases win.style.fill_opacity <;> decide
  · cases win.style.border_type <;> decide

theorem value_windowText (window : DtvccWindow) : Value (windowText td flash window) := by
  refine value_object fun s hs => (List.mem_append.mp hs).elim ?_ fun hs => ?_
  · exact isMember_props (isPrintable_allWindowProps window.final_counts flash) s
  · rw [List.mem_singleton.mp hs]
    refine isMember (by decide) (value_array fun v hv => ?_)
    have hrows := loopTexts_all (t := rowTexts td window.final_counts) (I := fun _ => True)
      (fun row pt _ => ⟨value_rowTexts window.final_counts row pt, trivial⟩)
      window.final_counts.row_count 0 (s := DtvccPenStyle.zero) trivial
    exact hrows.1 v hv

/-- The document of a service is a JSON value. -/
theorem value_serviceText (srv : DtvccService) : Value (serviceText td flash srv) := by
  refine value_object fun s hs => (List.mem_append.mp hs).elim ?_ fun hs => ?_
  · exact isMember_props (by decide) s
  · rw [List.mem_singleton.mp hs]
    refine isMember (by decide) (value_array fun v hv => ?_)
    obtain ⟨window, -, rfl⟩ := List.mem_map.mp hv
    exact value_windowText window

end Value

end ClosedCaptionJson
end AmlSubtitle
