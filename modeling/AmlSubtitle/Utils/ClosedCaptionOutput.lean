import AmlSubtitle.Lib.Json
import AmlSubtitle.Lib.Words

/-!
# `utils/ClosedCaptionJson.c`: the writers of JSON properties

The functions that write symbols and properties into a buffer of a fixed length.

* A writer returns whether it succeeded, that is, no number below zero, and the output
  behind it.  `inSequence` is a row of calls each of which returns -1 when the call fails.
* `Output.text` is what stands in the buffer in front of `po`.  A successful `o_printf`
  puts a zero behind it; what a failing one leaves behind `po` is left out.
* Texts are bytes, and a string ends in front of its first zero.  `len` becomes an `int`.
* `Emits`: what a writer writes when there is room for it, and that it fails when not.
  `EmitsItems` is the same for items of an array or an object, where the comma in front of
  the first depends on what was written before.
-/

namespace AmlSubtitle
namespace ClosedCaptionJson

open Json Words

/-- A string literal. -/
def ascii (s : String) : Text := s.toList.map fun c => c.toNat.toUInt8

/-! ## Output -/

/-- `Output`. -/
structure Output where
  text : Text
  left : ℤ
  has_prop : Bool
  flash : Bool
  deriving DecidableEq, Repr

abbrev Writer := Output → Bool × Output

/-- Calls one after the other, up to the first that fails. -/
def inSequence : List Writer → Writer
  | [], out => (true, out)
  | f :: fs, out =>
    match f out with
    | (true, out) => inSequence fs out
    | (false, out) => (false, out)

/-- A call whose result is ignored. -/
def ignored (f : Writer) : Writer := fun out => (true, (f out).2)

/-- `o_init`. -/
def o_init (len : ℕ) (flash : Bool) : Output := ⟨[], asSigned 32 len, false, flash⟩

/-- `o_printf`, of the text the format makes. -/
def o_printf (s : Text) : Writer := fun out =>
  if (s.length : ℤ) ≥ out.left then
    (false, out)
  else
    (true, { out with text := out.text ++ s, left := out.left - s.length })

/-- An assignment to `has_prop`. -/
def setProp (b : Bool) : Writer := fun out => (true, { out with has_prop := b })

/-- `o_prop_begin`. -/
def o_prop_begin (key : Text) : Writer := fun out =>
  inSequence ((if out.has_prop then [o_printf [44]] else []) ++
    [o_printf (quoted key ++ [58]), setProp false]) out

/-- `o_prop_end`. -/
def o_prop_end : Writer := setProp true

/-- `o_symbol`. -/
def o_symbol (sym : UInt8) : Writer := fun out =>
  inSequence ((if out.has_prop && (sym == 123 || sym == 91) then [o_printf [44]] else []) ++
    [o_printf [sym], fun out =>
      if sym == 91 || sym == 123 then setProp false out
      else if sym == 93 || sym == 125 then setProp true out
      else (true, out)]) out

/-- `o_bool_prop`. -/
def o_bool_prop (key : Text) (val : Bool) : Writer :=
  inSequence [o_prop_begin key, o_printf (boolean val), o_prop_end]

/-- `o_int_prop`. -/
def o_int_prop (key : Text) (val : ℤ) : Writer :=
  inSequence [o_prop_begin key, o_printf (decimal val), o_prop_end]

/-- `PUTC`, for each byte of a text. -/
def puts : Text → Writer
  | [], out => (true, out)
  | c :: s, out =>
    if out.left = 0 then (false, out)
    else puts s { out with text := out.text ++ [c], left := out.left - 1 }

/-- What `o_str_prop` puts for a byte. -/
def escape (c : UInt8) : Text :=
  if c = 92 then [92, 92]
  else if c = 10 then [92, 110]
  else if c = 13 then [92, 114]
  else if c = 34 then [92, 34]
  else [c]

/-- The text of a string of C. -/
def cText (buf : Text) : Text := buf.takeWhile (· ≠ 0)

/-- What it puts for a string. -/
def escaped (val : Text) : Text := (cText val).flatMap escape

/-- `o_str_prop`. -/
def o_str_prop (key val : Text) : Writer :=
  inSequence [o_prop_begin key, o_printf [34], puts (escaped val), o_printf [34], o_prop_end]

/-- The value of a property. -/
inductive PropValue where
  | int (val : ℤ)
  | bool (val : Bool)
  | str (val : Text)

/-- One of `o_int_prop`, `o_bool_prop` and `o_str_prop`. -/
def o_prop (key : Text) : PropValue → Writer
  | .int val => o_int_prop key val
  | .bool val => o_bool_prop key val
  | .str val => o_str_prop key val

/-- Properties one after the other. -/
def o_props (l : List (String × PropValue)) : Writer :=
  inSequence (l.map fun prop => o_prop (ascii prop.1) prop.2)

/-- `put_uc`. -/
def put_uc (uc : ℕ) : Text :=
  if uc ≤ 0x7f then [uc.toUInt8]
  else if uc ≤ 0x7ff then [(uc >>> 6 ||| 0xc0).toUInt8, (uc &&& 0x3f ||| 0x80).toUInt8]
  else [(uc >>> 12 ||| 0xe0).toUInt8, (uc >>> 6 &&& 0x3f ||| 0x80).toUInt8,
    (uc &&& 0x3f ||| 0x80).toUInt8]

/-- The local variables of the loop over the columns of a row. -/
structure Row (σ : Type) where
  buf : Text
  start : ℕ
  continuance_flag : Bool
  st : σ
  deriving DecidableEq, Repr

/-! ## What a writer writes -/

/-- The output behind a text. -/
def Output.wrote (out : Output) (d : Text) (q : Bool) : Output :=
  { out with text := out.text ++ d, left := out.left - d.length, has_prop := q }

/-- Where there is room, the writer writes `d`; `p` and `q` are `has_prop` before and after. -/
def Fits (flash : Bool) (f : Writer) (p : Bool) (d : Text) (q : Bool) : Prop :=
  ∀ out : Output, out.has_prop = p → out.flash = flash → (d.length : ℤ) < out.left →
    f out = (true, out.wrote d q)

/-- Where there is no room for `d`, the writer fails. -/
def Stops (flash : Bool) (f : Writer) (p : Bool) (d : Text) : Prop :=
  ∀ out : Output, out.has_prop = p → out.flash = flash → 0 < out.left → out.left ≤ d.length →
    (f out).1 = false

/-- The writer writes `d`, or fails for lack of room. -/
structure Emits (flash : Bool) (f : Writer) (p : Bool) (d : Text) (q : Bool) : Prop where
  fits : Fits flash f p d q
  stops : Stops flash f p d

/-- The writer writes items. -/
def EmitsItems (flash : Bool) (f : Writer) (l : List Text) : Prop :=
  ∀ p, Emits flash f p (items p l) (p || !l.isEmpty)

theorem wrote_wrote (out : Output) (d e : Text) (q r : Bool) :
    (out.wrote d q).wrote e r = out.wrote (d ++ e) r := by
  simp only [Output.wrote, List.append_assoc, List.length_append, Nat.cast_add, sub_sub]

section Sequences

variable {flash p q r : Bool} {f : Writer} {fs : List Writer} {d e : Text}

theorem fits_nil : Fits flash (inSequence []) p [] p := by
  rintro ⟨text, left, has_prop, fl⟩ rfl rfl -
  simp [inSequence, Output.wrote]

theorem Fits.cons (hf : Fits flash f p d q) (hfs : Fits flash (inSequence fs) q e r) :
    Fits flash (inSequence (f :: fs)) p (d ++ e) r := by
  intro out hp hflash hroom
  rw [List.length_append, Nat.cast_add] at hroom
  rw [inSequence, hf out hp hflash (by omega)]
  dsimp only
  rw [hfs (out.wrote d q) rfl hflash (by show (e.length : ℤ) < out.left - d.length; omega),
    wrote_wrote]

theorem Fits.congr (hf : Fits flash f p d q) (hd : d = e) : Fits flash f p e q := hd ▸ hf

theorem Emits.congr (hf : Emits flash f p d q) (hd : d = e) : Emits flash f p e q := hd ▸ hf

theorem Stops.cons (hf : Emits flash f p d q) (hfs : Stops flash (inSequence fs) q e) :
    Stops flash (inSequence (f :: fs)) p (d ++ e) := by
  intro out hp hflash hleft hroom
  rw [List.length_append, Nat.cast_add] at hroom
  rw [inSequence]
  by_cases hd : (d.length : ℤ) < out.left
  · rw [hf.fits out hp hflash hd]
    refine hfs (out.wrote d q) rfl hflash ?_ ?_
    · show (0 : ℤ) < out.left - d.length
      omega
    · show out.left - (d.length : ℤ) ≤ e.length
      omega
  · have hstop := hf.stops out hp hflash hleft (not_lt.mp hd)
    rcases hres : f out with ⟨ok, out'⟩
    rw [hres] at hstop
    rw [show ok = false from hstop]

theorem emits_nil : Emits flash (inSequence []) p [] p where
  fits := fits_nil
  stops _ _ _ hleft hroom := absurd hroom (not_le.mpr hleft)

theorem Emits.cons (hf : Emits flash f p d q) (hfs : Emits flash (inSequence fs) q e r) :
    Emits flash (inSequence (f :: fs)) p (d ++ e) r :=
  ⟨hf.fits.cons hfs.fits, Stops.cons hf hfs.stops⟩

theorem Emits.one (hf : Emits flash f p d q) : Emits flash (inSequence [f]) p d q := by
  have hseq := hf.cons emits_nil
  rwa [List.append_nil] at hseq

theorem inSequence_append (fs gs : List Writer) :
    inSequence (fs ++ gs) = inSequence [inSequence fs, inSequence gs] := by
  funext out
  induction fs generalizing out with
  | nil =>
    rw [List.nil_append, inSequence, inSequence]
    rcases h : inSequence gs out with ⟨_ | _, out'⟩ <;> simp [inSequence, h]
  | cons f fs ih =>
    rw [List.cons_append, inSequence, inSequence, inSequence]
    rcases f out with ⟨_ | _, out'⟩
    · rfl
    · exact ih out'

theorem Emits.append {gs : List Writer} (hfs : Emits flash (inSequence fs) p d q)
    (hgs : Emits flash (inSequence gs) q e r) :
    Emits flash (inSequence (fs ++ gs)) p (d ++ e) r := by
  rw [inSequence_append]
  exact hfs.cons hgs.one

theorem inSequence_cons (f : Writer) (fs : List Writer) (out : Output) :
    inSequence (f :: fs) out =
      if (f out).1 then inSequence fs (f out).2 else (false, (f out).2) := by
  rw [inSequence]
  rcases f out with ⟨_ | _, out'⟩ <;> rfl

theorem emitsItems_nil : EmitsItems flash (inSequence []) [] := fun p => by
  rw [items, List.isEmpty_nil, Bool.not_true, Bool.or_false]
  exact emits_nil

/-- Whether an item has been written. -/
theorem or_isEmpty_append (p : Bool) (l l' : List Text) :
    (p || !(l ++ l').isEmpty) = ((p || !l.isEmpty) || !l'.isEmpty) := by
  cases l
  · rw [List.nil_append, List.isEmpty_nil, Bool.not_true, Bool.or_false]
  · rw [List.cons_append, List.isEmpty_cons, List.isEmpty_cons, Bool.not_false, Bool.or_true,
      Bool.true_or]

theorem EmitsItems.cons {l l' : List Text} (hf : EmitsItems flash f l)
    (hfs : EmitsItems flash (inSequence fs) l') :
    EmitsItems flash (inSequence (f :: fs)) (l ++ l') := fun p => by
  rw [items_append, or_isEmpty_append]
  exact (hf p).cons (hfs _)

end Sequences

/-! ## The writers -/

section Writers

variable {flash p : Bool}

theorem emits_printf (s : Text) : Emits flash (o_printf s) p s p where
  fits := by
    rintro ⟨text, left, has_prop, fl⟩ rfl rfl hroom
    exact if_neg (not_le.mpr hroom)
  stops out _ _ _ hroom := by
    rw [o_printf, if_pos hroom]

/-- A text is written, or there is little room for it. -/
theorem o_printf_cases (s : Text) (fs : List Writer) (out : Output) :
    (inSequence (o_printf s :: fs) out =
        inSequence fs { out with text := out.text ++ s, left := out.left - s.length } ∧
      (s.length : ℤ) < out.left) ∨
    (inSequence (o_printf s :: fs) out = (false, out) ∧ out.left ≤ s.length) := by
  rw [inSequence_cons, o_printf]
  by_cases h : (s.length : ℤ) ≥ out.left
  · rw [if_pos h]
    exact Or.inr ⟨rfl, h⟩
  · rw [if_neg h]
    exact Or.inl ⟨rfl, not_le.mp h⟩

theorem emits_setProp (b : Bool) : Emits flash (setProp b) p [] b where
  fits := by
    rintro ⟨text, left, has_prop, fl⟩ rfl rfl -
    simp [setProp, Output.wrote]
  stops _ _ _ hleft hroom := absurd hroom (not_le.mpr hleft)

/-- A writer that begins with a look at the output. -/
theorem Emits.of_eq {f g : Writer} {d : Text} {q : Bool}
    (h : ∀ out : Output, out.has_prop = p → out.flash = flash → f out = g out)
    (hg : Emits flash g p d q) : Emits flash f p d q where
  fits out hp hflash hroom := (h out hp hflash).trans (hg.fits out hp hflash hroom)
  stops out hp hflash hleft hroom := by
    rw [h out hp hflash]
    exact hg.stops out hp hflash hleft hroom

/-- The comma in front of an item. -/
theorem emits_comma (fs : List Writer) {d : Text} {q : Bool}
    (h : Emits flash (inSequence fs) p d q) :
    Emits flash (inSequence ((if p then [o_printf [44]] else []) ++ fs)) p
      ((if p then [44] else []) ++ d) q := by
  cases p
  · exact h
  · exact (emits_printf [44]).cons h

/-- A text and then an assignment to `has_prop`. -/
theorem emits_printf_setProp (s : Text) (b : Bool) :
    Emits flash (inSequence [o_printf s, setProp b]) p s b := by
  have hseq : Emits flash (inSequence [o_printf s, setProp b]) p (s ++ []) b :=
    (emits_printf s).cons (emits_setProp b).one
  rwa [List.append_nil] at hseq

theorem emits_prop_begin (key : Text) : Emits flash (o_prop_begin key) p
    ((if p then [44] else []) ++ (quoted key ++ [58])) false :=
  Emits.of_eq (fun out hp _ => by rw [o_prop_begin, hp])
    (emits_comma [o_printf (quoted key ++ [58]), setProp false] (emits_printf_setProp _ _))

theorem emits_prop_end : Emits flash o_prop_end p [] true := emits_setProp true

/-- An opening bracket is the beginning of an item. -/
theorem emits_open {sym : UInt8} (hsym : sym = 91 ∨ sym = 123) :
    Emits flash (o_symbol sym) p ((if p then [44] else []) ++ [sym]) false := by
  refine Emits.of_eq (fun out hp _ => ?_)
    (emits_comma [o_printf [sym], setProp false] (emits_printf_setProp _ _))
  rw [o_symbol, hp]
  rcases hsym with rfl | rfl <;> cases p <;> rfl

theorem emits_close {sym : UInt8} (hsym : sym = 93 ∨ sym = 125) :
    Emits flash (o_symbol sym) p [sym] true := by
  refine Emits.of_eq (fun out _ _ => ?_) (emits_printf_setProp [sym] true)
  rw [o_symbol]
  rcases hsym with rfl | rfl <;> simp

/-! ## Properties -/

theorem emits_puts (s : Text) (out : Output) :
    ((s.length : ℤ) ≤ out.left → puts s out =
      (true, { out with text := out.text ++ s, left := out.left - s.length })) ∧
    (0 ≤ out.left → out.left < s.length → (puts s out).1 = false) := by
  induction s generalizing out with
  | nil =>
    refine ⟨fun _ => ?_, fun hleft hroom => ?_⟩
    · simp [puts]
    · exact absurd hroom (not_lt.mpr hleft)
  | cons c s ih =>
    obtain ⟨hfits, hstops⟩ := ih { out with text := out.text ++ [c], left := out.left - 1 }
    rw [List.length_cons, Nat.cast_add, Nat.cast_one]
    refine ⟨fun hroom => ?_, fun hleft hroom => ?_⟩
    · rw [puts, if_neg (by omega), hfits (by dsimp only; omega)]
      simp only [List.append_assoc, List.singleton_append, sub_sub, add_comm (s.length : ℤ) 1]
    · rw [puts]
      split
      · rfl
      · exact hstops (by dsimp only; omega) (by dsimp only; omega)

/-- The bytes of a string and the quote behind it. -/
theorem emits_puts_printf (s t : Text) :
    Emits flash (inSequence [puts s, o_printf t]) p (s ++ t) p where
  fits := by
    rintro ⟨text, left, has_prop, fl⟩ rfl rfl hroom
    rw [List.length_append, Nat.cast_add] at hroom
    dsimp only at hroom
    rw [inSequence, (emits_puts s _).1 (by dsimp only; omega)]
    dsimp only
    rw [inSequence, o_printf, if_neg (by dsimp only; omega)]
    simp only [inSequence, Output.wrote, List.append_assoc, List.length_append, Nat.cast_add,
      sub_sub]
  stops out _ _ hleft hroom := by
    rw [List.length_append, Nat.cast_add] at hroom
    rw [inSequence]
    by_cases hs : (s.length : ℤ) ≤ out.left
    · rw [(emits_puts s out).1 hs]
      dsimp only
      rw [inSequence, o_printf, if_pos (by dsimp only; omega)]
    · have hstop := (emits_puts s out).2 hleft.le (not_le.mp hs)
      rcases hres : puts s out with ⟨ok, out'⟩
      rw [hres] at hstop
      rw [show ok = false from hstop]

/-- The text of a value. -/
def PropValue.text : PropValue → Text
  | .int val => decimal val
  | .bool val => boolean val
  | .str val => quoted (escaped val)

/-- A key, a colon and what is written behind it. -/
theorem emitsItems_member (key : Text) {fs : List Writer} {val : Text} {q : Bool}
    (h : Emits flash (inSequence fs) false val q) :
    EmitsItems flash (inSequence (o_prop_begin key :: (fs ++ [o_prop_end]))) [member key val] := by
  intro p
  have htext : items p [member key val] =
      ((if p then [44] else []) ++ (quoted key ++ [58])) ++ (val ++ []) := by
    simp only [items, member, List.append_assoc, List.singleton_append, List.append_nil]
  rw [htext, List.isEmpty_cons, Bool.not_false, Bool.or_true]
  exact (emits_prop_begin key).cons (h.append emits_prop_end.one)

/-- A property is a member of an object. -/
theorem emitsItems_prop (key : Text) (val : PropValue) :
    EmitsItems flash (o_prop key val) [member key val.text] := by
  cases val with
  | int val => exact emitsItems_member key (emits_printf _).one
  | bool val => exact emitsItems_member key (emits_printf _).one
  | str val =>
    have hquoted : Emits flash (inSequence [o_printf [34], puts (escaped val), o_printf [34]]) false
        (quoted (escaped val)) false := (emits_printf [34]).cons (emits_puts_printf _ _)
    exact emitsItems_member key hquoted

/-- The texts of properties. -/
def propTexts (l : List (String × PropValue)) : List Text :=
  l.map fun prop => member (ascii prop.1) prop.2.text

/-- Writers one after the other, one for each element of a list. -/
theorem emitsItems_map {α : Type} {f : α → Writer} {g : α → Text}
    (h : ∀ a, EmitsItems flash (f a) [g a]) (l : List α) :
    EmitsItems flash (inSequence (l.map f)) (l.map g) := by
  induction l with
  | nil => exact emitsItems_nil
  | cons a l ih => exact (h a).cons ih

theorem emitsItems_props (l : List (String × PropValue)) :
    EmitsItems flash (o_props l) (propTexts l) := by
  have hprop : ∀ prop : String × PropValue, EmitsItems flash (o_prop (ascii prop.1) prop.2)
      [member (ascii prop.1) prop.2.text] := fun prop => emitsItems_prop _ _
  rw [o_props, propTexts]
  exact emitsItems_map hprop l

/-- A bracket, items, and the closing bracket. -/
theorem emits_bracketed {a b : UInt8} (ha : a = 91 ∨ a = 123) (hb : b = 93 ∨ b = 125)
    {fs : List Writer} {l : List Text} (h : EmitsItems flash (inSequence fs) l) :
    Emits flash (inSequence (o_symbol a :: (fs ++ [o_symbol b]))) p
      ((if p then [44] else []) ++ (a :: (items false l ++ [b]))) true := by
  have hseq : Emits flash (inSequence (o_symbol a :: (fs ++ [o_symbol b]))) p
      (((if p then [44] else []) ++ [a]) ++ (items false l ++ [b])) true :=
    (emits_open ha).cons ((h false).append (emits_close hb).one)
  rwa [List.append_assoc, List.singleton_append] at hseq

theorem emitsItems_bracketed {a b : UInt8} (ha : a = 91 ∨ a = 123) (hb : b = 93 ∨ b = 125)
    {fs : List Writer} {l : List Text} (h : EmitsItems flash (inSequence fs) l) :
    EmitsItems flash (inSequence (o_symbol a :: (fs ++ [o_symbol b])))
      [a :: (items false l ++ [b])] := fun p => by
  rw [items, items, List.append_nil, List.isEmpty_cons, Bool.not_false, Bool.or_true]
  exact emits_bracketed ha hb h

/-- Nothing is written into a buffer of no length, or one whose length is no `int`. -/
theorem symbol_of_no_room (sym : UInt8) (fs : List Writer) {out : Output} (hleft : out.left ≤ 0) :
    (inSequence (o_symbol sym :: fs) out).1 = false := by
  have hprintf : ∀ (c : UInt8) (gs : List Writer),
      inSequence (o_printf [c] :: gs) out = (false, out) := by
    intro c gs
    rcases o_printf_cases [c] gs out with ⟨-, hroom⟩ | ⟨hres, -⟩
    · exact absurd ((Int.natCast_nonneg _).trans_lt hroom) (not_lt.mpr hleft)
    · exact hres
  have hstop : o_symbol sym out = (false, out) := by
    rw [o_symbol]
    cases out.has_prop && (sym == 123 || sym == 91)
    · exact hprintf sym _
    · exact hprintf 44 _
  rw [inSequence, hstop]

end Writers

/-! ## Rows -/

section Rows

variable {flash p : Bool}

/-- A row. -/
def rowObject (content : List Text) (start : ℕ) : Text :=
  object [member (ascii "content") (array content), member (ascii "row_start") (decimal start)]

/-- A row up to its content. -/
def rowBegin (p : Bool) : Text :=
  ((if p then [44] else []) ++ [123]) ++ ((quoted (ascii "content") ++ [58]) ++ [91])

/-- A row behind its content. -/
def rowEnd (start : ℕ) : Text :=
  [93] ++ ([] ++ (items true (propTexts [("row_start", .int start)]) ++ [125]))

theorem emits_rowBegin : Emits flash (inSequence [o_symbol 123, o_prop_begin (ascii "content"),
    o_symbol 91]) p (rowBegin p) false :=
  (emits_open (Or.inr rfl)).cons ((emits_prop_begin _).cons (emits_open (Or.inl rfl)).one)

theorem emits_rowEnd (start : ℕ) : Emits flash (inSequence [o_symbol 93, o_prop_end,
    o_props [("row_start", .int start)], o_symbol 125]) p (rowEnd start) true :=
  (emits_close (Or.inl rfl)).cons (emits_prop_end.cons
    ((emitsItems_props _ true).cons (emits_close (Or.inr rfl)).one))

/-- The text of a row in the order in which it is written. -/
theorem items_rowObject (l l' : List Text) (start : ℕ) :
    items p [rowObject (l ++ l') start] =
      rowBegin p ++ (items false l ++ (items (false || !l.isEmpty) l' ++ rowEnd start)) := by
  simp only [items, rowObject, rowBegin, rowEnd, object, array, member, items_append, propTexts,
    PropValue.text, List.map_cons, List.map_nil, List.append_assoc, List.cons_append,
    List.nil_append, List.append_nil, if_true, if_false, Bool.false_eq_true]

end Rows

/-! ## What is well formed -/

/-- No control character is in a text. -/
def Printable (s : Text) : Prop := ∀ c ∈ s, 32 ≤ c

instance (s : Text) : Decidable (Printable s) := List.decidableBAll (fun c => 32 ≤ c) s

theorem Printable.append {s t : Text} (hs : Printable s) (ht : Printable t) : Printable (s ++ t) :=
  fun c hc => (List.mem_append.mp hc).elim (hs c) (ht c)

theorem chars_escape {c : UInt8} (hc : 32 ≤ c) {s : Text} (hs : Chars s) :
    Chars (escape c ++ s) := by
  unfold escape
  split_ifs with h₁ h₂ h₃ h₄
  · exact Chars.escaped (by decide) hs
  · exact Chars.escaped (by decide) hs
  · exact Chars.escaped (by decide) hs
  · exact Chars.escaped (by decide) hs
  · exact Chars.unescaped hc h₄ h₁ hs

theorem chars_escaped {val : Text} (h : Printable val) : Chars (escaped val) := by
  have hprint : Printable (cText val) := fun c hc => h c ((List.takeWhile_sublist _).subset hc)
  rw [escaped]
  generalize cText val = s at hprint
  induction s with
  | nil => exact Chars.nil
  | cons c s ih =>
    rw [List.flatMap_cons]
    exact chars_escape (hprint c List.mem_cons_self)
      (ih fun c hc => hprint c (List.mem_cons_of_mem _ hc))

/-- A key needs no escapes. -/
def IsKey (s : String) : Prop := ∀ c ∈ ascii s, 32 ≤ c ∧ c ≠ 34 ∧ c ≠ 92

instance (s : String) : Decidable (IsKey s) :=
  List.decidableBAll (fun c => 32 ≤ c ∧ c ≠ 34 ∧ c ≠ 92) (ascii s)

theorem IsKey.chars {s : String} (h : IsKey s) : Chars (ascii s) := by
  rw [IsKey] at h
  generalize ascii s = t at h
  induction t with
  | nil => exact Chars.nil
  | cons c t ih =>
    obtain ⟨hprint, hquote, hslash⟩ := h c List.mem_cons_self
    exact Chars.unescaped hprint hquote hslash (ih fun c hc => h c (List.mem_cons_of_mem _ hc))

/-- A string without control characters, or another value. -/
def PropValue.IsPrintable : PropValue → Prop
  | .str val => Printable val
  | _ => True

instance : DecidablePred PropValue.IsPrintable
  | .int _ => inferInstanceAs (Decidable True)
  | .bool _ => inferInstanceAs (Decidable True)
  | .str val => inferInstanceAs (Decidable (Printable val))

theorem PropValue.IsPrintable.value {val : PropValue} (h : val.IsPrintable) : Value val.text := by
  cases val with
  | int val => exact value_decimal val
  | bool val => exact value_boolean val
  | str val => exact Value.string (chars_escaped h)

theorem isMember {key : String} {value : Text} (hkey : IsKey key) (hvalue : Value value) :
    IsMember (member (ascii key) value) := ⟨_, _, hkey.chars, hvalue, rfl⟩

theorem isMember_props {l : List (String × PropValue)}
    (h : ∀ prop ∈ l, IsKey prop.1 ∧ prop.2.IsPrintable) : ∀ s ∈ propTexts l, IsMember s := by
  intro s hs
  obtain ⟨prop, hprop, rfl⟩ := List.mem_map.mp hs
  exact isMember (h prop hprop).1 (h prop hprop).2.value

theorem value_rowObject {content : List Text} (h : ∀ v ∈ content, Value v) (start : ℕ) :
    Value (rowObject content start) := by
  refine value_object fun s hs => ?_
  rcases List.mem_cons.mp hs with rfl | hs
  · exact isMember (by decide) (value_array h)
  · rw [List.mem_singleton.mp hs]
    exact isMember (by decide) (value_decimal _)

/-- A character that is no control character gives no control character. -/
theorem printable_put_uc {uc : ℕ} (h : 0x20 ≤ uc) : Printable (put_uc uc) := by
  have hor : ∀ x y : ℕ, 32 ≤ y % 256 → 32 ≤ (x ||| y).toUInt8 := by
    intro x y hy
    rw [UInt8.le_iff_toNat_le]
    have hval : (x ||| y).toUInt8.toNat = x % 256 ||| y % 256 := by
      rw [Nat.toUInt8, UInt8.toNat_ofNat', Nat.or_mod_two_pow (n := 8)]
    rw [hval]
    exact hy.trans Nat.right_le_or
  unfold put_uc
  split_ifs with h₁ h₂
  · intro c hc
    rw [List.mem_singleton.mp hc, UInt8.le_iff_toNat_le, Nat.toUInt8, UInt8.toNat_ofNat']
    show 32 ≤ uc % 256
    omega
  · intro c hc
    simp only [List.mem_cons, List.not_mem_nil, or_false] at hc
    rcases hc with rfl | rfl <;> exact hor _ _ (by decide)
  · intro c hc
    simp only [List.mem_cons, List.not_mem_nil, or_false] at hc
    rcases hc with rfl | rfl | rfl <;> exact hor _ _ (by decide)

end ClosedCaptionJson
end AmlSubtitle
