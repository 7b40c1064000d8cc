import Mathlib.Data.List.Basic
import Mathlib.Tactic

/-!
# JSON texts

The grammar of JSON over bytes, with white space where it may stand, and the texts a
writer makes that leaves none.

* `Value`, `WellFormed`: the grammar.  A string is any bytes from `0x20` on but the quote
  and the backslash, and escapes.
* `decimal`, `boolean`, `array`, `object`: texts without white space; each is a value when
  its parts are (`value_array` and so on).
* `scan` reads a text and keeps the depth of the brackets outside strings.  A value leaves
  the depth as it was (`Value.scan`), which is how a text is seen not to be one.
-/

namespace AmlSubtitle
namespace Json

/-- A text, by its bytes. -/
abbrev Text := List UInt8

/-! ## Strings and numbers -/

/-- White space. -/
def Space (s : Text) : Prop := ∀ c ∈ s, c = 32 ∨ c = 9 ∨ c = 10 ∨ c = 13

/-- A hexadecimal digit. -/
def HexDigit (c : UInt8) : Prop := (48 ≤ c ∧ c ≤ 57) ∨ (65 ≤ c ∧ c ≤ 70) ∨ (97 ≤ c ∧ c ≤ 102)

/-- What may stand between the quotes of a string. -/
inductive Chars : Text → Prop
  | nil : Chars []
  | unescaped {c : UInt8} {s : Text} : 32 ≤ c → c ≠ 34 → c ≠ 92 → Chars s → Chars (c :: s)
  | escaped {c : UInt8} {s : Text} :
      c ∈ ([34, 92, 47, 98, 102, 110, 114, 116] : Text) → Chars s → Chars (92 :: c :: s)
  | unicode {a b c d : UInt8} {s : Text} : HexDigit a → HexDigit b → HexDigit c → HexDigit d →
      Chars s → Chars (92 :: 117 :: a :: b :: c :: d :: s)

/-- A text in quotes. -/
def quoted (s : Text) : Text := 34 :: (s ++ [34])

/-- One digit or more. -/
def Digits (s : Text) : Prop := s ≠ [] ∧ ∀ c ∈ s, 48 ≤ c ∧ c ≤ 57

/-- The part of a number in front of the point. -/
def Integer (s : Text) : Prop := s = [48] ∨ (Digits s ∧ s.head? ≠ some 48)

def Fraction (s : Text) : Prop := s = [] ∨ ∃ d, Digits d ∧ s = 46 :: d

def Exponent (s : Text) : Prop :=
  s = [] ∨ ∃ e sign d, (e = 101 ∨ e = 69) ∧ (sign = [] ∨ sign = [43] ∨ sign = [45]) ∧
    Digits d ∧ s = e :: (sign ++ d)

def Number (s : Text) : Prop :=
  ∃ sign int frac exp, (sign = [] ∨ sign = [45]) ∧ Integer int ∧ Fraction frac ∧ Exponent exp ∧
    s = sign ++ (int ++ (frac ++ exp))

/-! ## Values -/

/-- Items with commas between them; `p` says that one stands in front. -/
def items : Bool → List Text → Text
  | _, [] => []
  | p, e :: es => (if p then [44] else []) ++ (e ++ items true es)

/-- A text with white space around it. -/
structure Padded where
  before : Text
  body : Text
  after : Text

namespace Padded

def text (e : Padded) : Text := e.before ++ (e.body ++ e.after)

def Spaced (e : Padded) : Prop := Space e.before ∧ Space e.after

end Padded

/-- A member of an object: the white space and the key in front of the colon, and what
stands behind it. -/
structure Member where
  key : Padded
  value : Padded

namespace Member

def text (m : Member) : Text := m.key.before ++ (quoted m.key.body ++ (m.key.after ++
  (58 :: m.value.text)))

def Spaced (m : Member) : Prop := m.key.Spaced ∧ m.value.Spaced ∧ Chars m.key.body

end Member

/-- The grammar of a value. -/
inductive Value : Text → Prop
  | null : Value [110, 117, 108, 108]
  | true : Value [116, 114, 117, 101]
  | false : Value [102, 97, 108, 115, 101]
  | number {s : Text} : Number s → Value s
  | string {s : Text} : Chars s → Value (quoted s)
  | emptyArray {w : Text} : Space w → Value (91 :: (w ++ [93]))
  | array {l : List Padded} : (∀ e ∈ l, e.Spaced) → (∀ e ∈ l, Value e.body) →
      Value (91 :: (items false (l.map Padded.text) ++ [93]))
  | emptyObject {w : Text} : Space w → Value (123 :: (w ++ [125]))
  | object {l : List Member} : (∀ m ∈ l, m.Spaced) → (∀ m ∈ l, Value m.value.body) →
      Value (123 :: (items false (l.map Member.text) ++ [125]))

/-- A JSON text: one value with white space around it. -/
def WellFormed (s : Text) : Prop := ∃ e : Padded, e.Spaced ∧ Value e.body ∧ s = e.text

theorem Value.wellFormed {s : Text} (h : Value s) : WellFormed s :=
  ⟨⟨[], s, []⟩, ⟨fun _ hc => absurd hc List.not_mem_nil, fun _ hc => absurd hc List.not_mem_nil⟩,
    h, (List.append_nil s).symm⟩

/-! ## Texts without white space -/

/-- A number as `%d` prints it. -/
def decimal (n : ℤ) : Text :=
  (if n < 0 then [45] else []) ++ (Nat.toDigits 10 n.natAbs).map fun c => c.toNat.toUInt8

def boolean (b : Bool) : Text :=
  if b then [116, 114, 117, 101] else [102, 97, 108, 115, 101]

def array (l : List Text) : Text := 91 :: (items false l ++ [93])

def member (key value : Text) : Text := quoted key ++ (58 :: value)

def object (l : List Text) : Text := 123 :: (items false l ++ [125])

theorem items_append (p : Bool) (l l' : List Text) :
    items p (l ++ l') = items p l ++ items (p || !l.isEmpty) l' := by
  induction l generalizing p with
  | nil => rw [List.nil_append, items, List.nil_append, List.isEmpty_nil, Bool.not_true,
      Bool.or_false]
  | cons e l ih =>
    rw [List.cons_append, items, items, ih, List.isEmpty_cons, Bool.not_false, Bool.or_true,
      Bool.true_or, List.append_assoc, List.append_assoc]

/-! ### Numbers -/

theorem digit_of_isDigit {c : Char} (h : c.isDigit = true) :
    48 ≤ c.toNat.toUInt8 ∧ c.toNat.toUInt8 ≤ 57 := by
  rw [Char.isDigit, Bool.and_eq_true, decide_eq_true_iff, decide_eq_true_iff] at h
  have hlow : 48 ≤ c.toNat := h.1
  have hhigh : c.toNat ≤ 57 := h.2
  have hval : c.toNat.toUInt8.toNat = c.toNat := by
    rw [Nat.toUInt8, UInt8.toNat_ofNat']
    omega
  rw [UInt8.le_iff_toNat_le, UInt8.le_iff_toNat_le, hval]
  exact ⟨hlow, hhigh⟩

theorem head_toDigits {n : ℕ} (hn : n ≠ 0) :
    ∃ c l, Nat.toDigits 10 n = c :: l ∧ c ≠ '0' := by
  induction n using Nat.strong_induction_on with
  | _ n ih =>
    by_cases hlt : n < 10
    · refine ⟨n.digitChar, [], Nat.toDigits_of_lt_base hlt, ?_⟩
      interval_cases n <;> first | exact absurd rfl hn | decide
    · obtain ⟨c, l, htail, hc⟩ := ih (n / 10) (by omega) (by omega)
      rw [Nat.toDigits_of_base_le (by decide) (by omega), htail]
      exact ⟨c, _, rfl, hc⟩

/-- The digits of a natural number. -/
theorem integer_toDigits (n : ℕ) :
    Integer ((Nat.toDigits 10 n).map fun c => c.toNat.toUInt8) := by
  by_cases hn : n = 0
  · rw [hn, Nat.toDigits_zero]
    exact Or.inl (by decide)
  · obtain ⟨c, l, hdigits, hc⟩ := head_toDigits hn
    have hdigit : ∀ c ∈ Nat.toDigits 10 n, c.isDigit = true := fun c hc =>
      Nat.isDigit_of_mem_toDigits (by decide) (by decide) hc
    refine Or.inr ⟨⟨?_, ?_⟩, ?_⟩
    · rw [hdigits]
      exact List.cons_ne_nil _ _
    · intro b hb
      obtain ⟨c, hc, rfl⟩ := List.mem_map.mp hb
      exact digit_of_isDigit (hdigit c hc)
    · rw [hdigits, List.map_cons, List.head?_cons]
      intro hzero
      have hisDigit := hdigit c (by rw [hdigits]; exact List.mem_cons_self)
      rw [Char.isDigit, Bool.and_eq_true, decide_eq_true_iff, decide_eq_true_iff] at hisDigit
      have hlow : 48 ≤ c.toNat := hisDigit.1
      have hhigh : c.toNat ≤ 57 := hisDigit.2
      have hval := congrArg UInt8.toNat (Option.some.inj hzero)
      rw [Nat.toUInt8, UInt8.toNat_ofNat'] at hval
      refine hc (Char.toNat_inj.mp ?_)
      show c.toNat = 48
      have h48 : (48 : UInt8).toNat = 48 := rfl
      omega

theorem number_decimal (n : ℤ) : Number (decimal n) := by
  refine ⟨if n < 0 then [45] else [], (Nat.toDigits 10 n.natAbs).map fun c => c.toNat.toUInt8,
    [], [], ?_, integer_toDigits _, Or.inl rfl, Or.inl rfl, ?_⟩
  · split
    · exact Or.inr rfl
    · exact Or.inl rfl
  · rw [decimal, List.append_nil, List.append_nil]

theorem integer_decimal (n : ℕ) : Integer (decimal n) := by
  rw [decimal, if_neg (not_lt.mpr (Int.natCast_nonneg n))]
  exact integer_toDigits n

/-- A number of at most `k` digits. -/
theorem length_decimal_le {n : ℤ} {k : ℕ} (hk : 0 < k) (hn : n.natAbs < 10 ^ k) :
    (decimal n).length ≤ k + 1 := by
  rw [decimal, List.length_append, List.length_map]
  have hdigits : (Nat.toDigits 10 n.natAbs).length ≤ k :=
    (Nat.length_toDigits_le_iff (by decide) hk).mpr hn
  split <;> simp <;> omega

/-! ### Values -/

theorem value_boolean (b : Bool) : Value (boolean b) := by
  cases b
  · exact Value.false
  · exact Value.true

theorem value_decimal (n : ℤ) : Value (decimal n) := Value.number (number_decimal n)

theorem value_array {l : List Text} (h : ∀ v ∈ l, Value v) : Value (array l) := by
  have hspaced : ∀ e ∈ l.map fun v => (⟨[], v, []⟩ : Padded), e.Spaced := by
    intro e he
    obtain ⟨v, -, rfl⟩ := List.mem_map.mp he
    exact ⟨fun _ hc => absurd hc List.not_mem_nil, fun _ hc => absurd hc List.not_mem_nil⟩
  have hvalue : ∀ e ∈ l.map fun v => (⟨[], v, []⟩ : Padded), Value e.body := by
    intro e he
    obtain ⟨v, hv, rfl⟩ := List.mem_map.mp he
    exact h v hv
  have harray := Value.array hspaced hvalue
  have htext : (l.map fun v => (⟨[], v, []⟩ : Padded)).map Padded.text = l := by
    rw [List.map_map]
    refine (List.map_congr_left fun v _ => ?_).trans (List.map_id l)
    exact List.append_nil v
  rwa [htext] at harray

/-- A member of an object, as text. -/
def IsMember (s : Text) : Prop := ∃ key value, Chars key ∧ Value value ∧ s = member key value

theorem value_object {l : List Text} (h : ∀ s ∈ l, IsMember s) : Value (object l) := by
  choose! key value hkey hvalue hmember using h
  have hempty : Space [] := fun _ hc => absurd hc List.not_mem_nil
  have hspaced : ∀ m ∈ l.map fun s => (⟨⟨[], key s, []⟩, ⟨[], value s, []⟩⟩ : Member),
      m.Spaced := by
    intro m hm
    obtain ⟨s, hs, rfl⟩ := List.mem_map.mp hm
    exact ⟨⟨hempty, hempty⟩, ⟨hempty, hempty⟩, hkey s hs⟩
  have hvalues : ∀ m ∈ l.map fun s => (⟨⟨[], key s, []⟩, ⟨[], value s, []⟩⟩ : Member),
      Value m.value.body := by
    intro m hm
    obtain ⟨s, hs, rfl⟩ := List.mem_map.mp hm
    exact hvalue s hs
  have hobject := Value.object hspaced hvalues
  have htext : (l.map fun s => (⟨⟨[], key s, []⟩, ⟨[], value s, []⟩⟩ : Member)).map
      Member.text = l := by
    rw [List.map_map]
    refine (List.map_congr_left fun s hs => ?_).trans (List.map_id l)
    refine Eq.trans ?_ (hmember s hs).symm
    exact congrArg (fun t => quoted (key s) ++ 58 :: t) (List.append_nil (value s))
  rwa [htext] at hobject

/-! ## Reading a text -/

/-- Where a reader of a text is, and the depth of the brackets outside strings. -/
inductive Scan where
  | outside (depth : ℤ)
  /-- in a string -/
  | inside (depth : ℤ)
  /-- in a string, behind a backslash -/
  | escape (depth : ℤ)
  deriving DecidableEq, Repr

/-- The reader reads a byte. -/
def scan : Scan → UInt8 → Scan
  | .outside depth, c =>
    if c = 34 then .inside depth
    else if c = 91 ∨ c = 123 then .outside (depth + 1)
    else if c = 93 ∨ c = 125 then .outside (depth - 1)
    else .outside depth
  | .inside depth, c =>
    if c = 34 then .outside depth else if c = 92 then .escape depth else .inside depth
  | .escape depth, _ => .inside depth

/-- A text without a zero byte that a reader goes through without a change of depth. -/
structure Level (s : Text) : Prop where
  scan : ∀ depth, s.foldl scan (.outside depth) = .outside depth
  zero_not_mem : (0 : UInt8) ∉ s

theorem level_nil : Level [] := ⟨fun _ => rfl, List.not_mem_nil⟩

theorem Level.append {s t : Text} (hs : Level s) (ht : Level t) : Level (s ++ t) where
  scan depth := by rw [List.foldl_append, hs.scan, ht.scan]
  zero_not_mem := fun h => (List.mem_append.mp h).elim hs.zero_not_mem ht.zero_not_mem

/-- A byte that is neither zero nor a quote nor a bracket. -/
def Plain (c : UInt8) : Prop := c ≠ 0 ∧ c ≠ 34 ∧ c ≠ 91 ∧ c ≠ 123 ∧ c ≠ 93 ∧ c ≠ 125

instance : DecidablePred Plain := fun _ => inferInstanceAs (Decidable (_ ∧ _))

-- Only the bytes of the text are tried.
instance (s : Text) : Decidable (∀ c ∈ s, Plain c) := List.decidableBAll Plain s

theorem scan_plain {c : UInt8} (h : Plain c) (depth : ℤ) :
    scan (.outside depth) c = .outside depth := by
  obtain ⟨-, hquote, hopen, hbrace, hclose, hend⟩ := h
  rw [scan, if_neg hquote, if_neg (not_or.mpr ⟨hopen, hbrace⟩),
    if_neg (not_or.mpr ⟨hclose, hend⟩)]

theorem level_of_plain {s : Text} (h : ∀ c ∈ s, Plain c) : Level s := by
  refine ⟨fun depth => ?_, fun hzero => (h 0 hzero).1 rfl⟩
  induction s with
  | nil => rfl
  | cons c s ih =>
    rw [List.foldl_cons, scan_plain (h c List.mem_cons_self)]
    exact ih fun c hc => h c (List.mem_cons_of_mem _ hc)

theorem level_space {s : Text} (h : Space s) : Level s := by
  refine level_of_plain fun c hc => ?_
  rcases h c hc with rfl | rfl | rfl | rfl <;> decide

theorem plain_of_digit {c : UInt8} (h : 48 ≤ c ∧ c ≤ 57) : Plain c := by
  refine ⟨?_, ?_, ?_, ?_, ?_, ?_⟩ <;> rintro rfl <;> exact absurd h (by decide)

theorem level_digits {s : Text} (h : Digits s) : Level s :=
  level_of_plain fun c hc => plain_of_digit (h.2 c hc)

theorem level_number {s : Text} (h : Number s) : Level s := by
  obtain ⟨sign, int, frac, exp, hsign, hint, hfrac, hexp, rfl⟩ := h
  refine Level.append ?_ (Level.append ?_ (Level.append ?_ ?_))
  · rcases hsign with rfl | rfl
    · exact level_nil
    · exact level_of_plain (by decide)
  · rcases hint with rfl | ⟨hdigits, -⟩
    · exact level_of_plain (by decide)
    · exact level_digits hdigits
  · rcases hfrac with rfl | ⟨d, hd, rfl⟩
    · exact level_nil
    · exact Level.append (s := [46]) (level_of_plain (by decide)) (level_digits hd)
  · rcases hexp with rfl | ⟨e, sign, d, he, hsign, hd, rfl⟩
    · exact level_nil
    · refine Level.append (s := [e]) ?_ (Level.append ?_ (level_digits hd))
      · rcases he with rfl | rfl <;> exact level_of_plain (by decide)
      · rcases hsign with rfl | rfl | rfl <;> exact level_of_plain (by decide)

theorem scan_inside {c : UInt8} (hquote : c ≠ 34) (hslash : c ≠ 92) (depth : ℤ) :
    scan (.inside depth) c = .inside depth := by
  rw [scan, if_neg hquote, if_neg hslash]

theorem HexDigit.ne {c : UInt8} (h : HexDigit c) : (0 : UInt8) ≠ c ∧ c ≠ 34 ∧ c ≠ 92 := by
  refine ⟨?_, ?_, ?_⟩ <;> rintro rfl <;> revert h <;> unfold HexDigit <;> decide

theorem Chars.scan {s : Text} (h : Chars s) (depth : ℤ) :
    s.foldl Json.scan (.inside depth) = .inside depth := by
  induction h with
  | nil => rfl
  | unescaped _ hquote hslash _ ih => rw [List.foldl_cons, scan_inside hquote hslash, ih]
  | escaped _ _ ih => exact ih
  | unicode ha hb hc hd _ ih =>
    rw [List.foldl_cons, List.foldl_cons, List.foldl_cons, List.foldl_cons, List.foldl_cons,
      List.foldl_cons, show Json.scan (.inside depth) 92 = .escape depth from rfl,
      show Json.scan (.escape depth) 117 = .inside depth from rfl, scan_inside ha.ne.2.1 ha.ne.2.2,
      scan_inside hb.ne.2.1 hb.ne.2.2, scan_inside hc.ne.2.1 hc.ne.2.2,
      scan_inside hd.ne.2.1 hd.ne.2.2, ih]

theorem Chars.zero_not_mem {s : Text} (h : Chars s) : (0 : UInt8) ∉ s := by
  induction h with
  | nil => exact List.not_mem_nil
  | unescaped hc _ _ _ ih =>
    refine List.not_mem_cons_of_ne_of_not_mem ?_ ih
    rintro rfl
    exact absurd hc (by decide)
  | escaped hc _ ih =>
    refine List.not_mem_cons_of_ne_of_not_mem (by decide) (List.not_mem_cons_of_ne_of_not_mem ?_ ih)
    rintro rfl
    exact absurd hc (by decide)
  | unicode ha hb hc hd _ ih =>
    simp only [List.mem_cons, not_or]
    exact ⟨by decide, by decide, ha.ne.1, hb.ne.1, hc.ne.1, hd.ne.1, ih⟩

theorem level_quoted {s : Text} (h : Chars s) : Level (quoted s) where
  scan depth := by
    rw [quoted, List.foldl_cons, List.foldl_append]
    show List.foldl Json.scan (s.foldl Json.scan (.inside depth)) [34] = _
    rw [h.scan]
    rfl
  zero_not_mem := by
    rw [quoted, List.mem_cons, List.mem_append, List.mem_singleton]
    rintro (hzero | hzero | hzero)
    · exact absurd hzero (by decide)
    · exact h.zero_not_mem hzero
    · exact absurd hzero (by decide)

theorem level_items {l : List Text} (h : ∀ s ∈ l, Level s) (p : Bool) : Level (items p l) := by
  induction l generalizing p with
  | nil => exact level_nil
  | cons s l ih =>
    rw [items]
    refine Level.append ?_ (Level.append (h s List.mem_cons_self)
      (ih (fun s hs => h s (List.mem_cons_of_mem _ hs)) _))
    split
    · exact level_of_plain (by decide)
    · exact level_nil

/-- What is between brackets. -/
theorem level_bracketed {a b : UInt8} (ha : a = 91 ∨ a = 123) (hb : b = 93 ∨ b = 125) {s : Text}
    (h : Level s) : Level (a :: (s ++ [b])) where
  scan depth := by
    have hopen : scan (.outside depth) a = .outside (depth + 1) := by
      rcases ha with rfl | rfl <;> rfl
    have hclose : scan (.outside (depth + 1)) b = .outside (depth + 1 - 1) := by
      rcases hb with rfl | rfl <;> rfl
    rw [List.foldl_cons, List.foldl_append, hopen, h.scan, List.foldl_cons, List.foldl_nil, hclose,
      add_sub_cancel_right]
  zero_not_mem := by
    rw [List.mem_cons, List.mem_append, List.mem_singleton]
    rintro (hzero | hzero | hzero)
    · rcases ha with rfl | rfl <;> exact absurd hzero (by decide)
    · exact h.zero_not_mem hzero
    · rcases hb with rfl | rfl <;> exact absurd hzero (by decide)

theorem level_padded {e : Padded} (hspaced : e.Spaced) (hbody : Level e.body) : Level e.text :=
  (level_space hspaced.1).append (hbody.append (level_space hspaced.2))

/-- **A value leaves the depth of the brackets as it was**, and has no zero byte. -/
theorem Value.level {s : Text} (h : Value s) : Level s := by
  induction h with
  | null => exact level_of_plain (by decide)
  | true => exact level_of_plain (by decide)
  | false => exact level_of_plain (by decide)
  | number hnumber => exact level_number hnumber
  | string hchars => exact level_quoted hchars
  | emptyArray hspace => exact level_bracketed (Or.inl rfl) (Or.inl rfl) (level_space hspace)
  | @array l hspaced _ ih =>
    refine level_bracketed (Or.inl rfl) (Or.inl rfl) (level_items (fun s hs => ?_) _)
    obtain ⟨e, he, rfl⟩ := List.mem_map.mp hs
    exact level_padded (hspaced e he) (ih e he)
  | emptyObject hspace => exact level_bracketed (Or.inr rfl) (Or.inr rfl) (level_space hspace)
  | @object l hspaced _ ih =>
    refine level_bracketed (Or.inr rfl) (Or.inr rfl) (level_items (fun s hs => ?_) _)
    obtain ⟨m, hm, rfl⟩ := List.mem_map.mp hs
    obtain ⟨hkey, hvalue, hchars⟩ := hspaced m hm
    refine (level_space hkey.1).append ((level_quoted hchars).append
      ((level_space hkey.2).append ?_))
    exact Level.append (s := [58]) (level_of_plain (by decide)) (level_padded hvalue (ih m hm))

theorem WellFormed.level {s : Text} (h : WellFormed s) : Level s := by
  obtain ⟨e, hspaced, hvalue, rfl⟩ := h
  exact level_padded hspaced hvalue.level

end Json
end AmlSubtitle
