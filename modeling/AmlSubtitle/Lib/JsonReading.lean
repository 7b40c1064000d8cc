import AmlSubtitle.Lib.Delimited
import AmlSubtitle.Lib.Json
import AmlSubtitle.Lib.Utf16

/-!
# Reading a JSON text from the front

What a JSON text says, and how much of it is known from the bytes it begins with.

* `Decodes`: the text that stands between the quotes of a string, and the one it stands for.
* `ObjectOf`, `ArrayOf`, `valueOf`: the members of an object, the elements of an array, and the
  value of a member.
* `Flat.unique`: spaces, numbers and strings end where they end, whatever follows.
* `exists_member_at`: an object that begins with known members goes on with the next one.
-/

namespace AmlSubtitle
namespace Json

open Delimited (span_unique)
open Utf16

/-! ## Strings -/

/-- The value of a hexadecimal digit. -/
def hexValue (c : UInt8) : ℕ :=
  if c ≤ 57 then c.toNat - 48 else if c ≤ 70 then c.toNat - 55 else c.toNat - 87

/-- The unit that four digits write. -/
def hexUnit (a b c d : UInt8) : ℕ :=
  ((hexValue a * 16 + hexValue b) * 16 + hexValue c) * 16 + hexValue d

/-- The escapes of one letter, and what they stand for. -/
def escapes : List (UInt8 × UInt8) :=
  [(34, 34), (92, 92), (47, 47), (98, 8), (102, 12), (110, 10), (114, 13), (116, 9)]

/-- The text that stands between quotes, and the text that it stands for. -/
inductive Decodes : Text → Text → Prop
  | nil : Decodes [] []
  | unescaped {c : UInt8} {s t : Text} : 32 ≤ c → c ≠ 34 → c ≠ 92 → Decodes s t →
      Decodes (c :: s) (c :: t)
  | escaped {c e : UInt8} {s t : Text} : (c, e) ∈ escapes → Decodes s t →
      Decodes (92 :: c :: s) (e :: t)
  | unicode {a b c d : UInt8} {s t : Text} : HexDigit a → HexDigit b → HexDigit c → HexDigit d →
      ¬ IsHigh (hexUnit a b c d) → ¬ IsLow (hexUnit a b c d) → Decodes s t →
      Decodes (92 :: 117 :: a :: b :: c :: d :: s) (utf8 (hexUnit a b c d) ++ t)
  | surrogates {a b c d a' b' c' d' : UInt8} {s t : Text} : HexDigit a → HexDigit b →
      HexDigit c → HexDigit d → HexDigit a' → HexDigit b' → HexDigit c' → HexDigit d' →
      IsHigh (hexUnit a b c d) → IsLow (hexUnit a' b' c' d') → Decodes s t →
      Decodes (92 :: 117 :: a :: b :: c :: d :: 92 :: 117 :: a' :: b' :: c' :: d' :: s)
        (utf8 (pair (hexUnit a b c d) (hexUnit a' b' c' d')) ++ t)

/-- A byte that stands for itself. -/
def Unescaped (c : UInt8) : Prop := 32 ≤ c ∧ c ≠ 34 ∧ c ≠ 92

instance : DecidablePred Unescaped := fun _ => inferInstanceAs (Decidable (_ ∧ _))

-- Only the bytes of the text are tried.
instance (s : Text) : Decidable (∀ c ∈ s, Unescaped c) := List.decidableBAll Unescaped s

theorem decodes_self {t : Text} (h : ∀ c ∈ t, Unescaped c) : Decodes t t := by
  induction t with
  | nil => exact Decodes.nil
  | cons c t ih =>
    obtain ⟨hc, hquote, hslash⟩ := h c List.mem_cons_self
    exact Decodes.unescaped hc hquote hslash (ih fun c hc => h c (List.mem_cons_of_mem _ hc))

theorem Decodes.chars {s t : Text} (h : Decodes s t) : Chars s := by
  induction h with
  | nil => exact Chars.nil
  | unescaped hc hquote hslash _ ih => exact Chars.unescaped hc hquote hslash ih
  | @escaped c e s t hmem _ ih =>
    refine Chars.escaped ?_ ih
    simp only [escapes, List.mem_cons, Prod.mk.injEq, List.not_mem_nil, or_false] at hmem
    rcases hmem with ⟨rfl, -⟩ | ⟨rfl, -⟩ | ⟨rfl, -⟩ | ⟨rfl, -⟩ | ⟨rfl, -⟩ | ⟨rfl, -⟩ |
      ⟨rfl, -⟩ | ⟨rfl, -⟩ <;> decide
  | unicode ha hb hc hd _ _ _ ih => exact Chars.unicode ha hb hc hd ih
  | surrogates ha hb hc hd ha' hb' hc' hd' _ _ _ ih =>
    exact Chars.unicode ha hb hc hd (Chars.unicode ha' hb' hc' hd' ih)

theorem Decodes.length_le {s t : Text} (h : Decodes s t) : t.length ≤ s.length := by
  induction h with
  | nil => exact le_rfl
  | unescaped _ _ _ _ ih => exact Nat.succ_le_succ ih
  | escaped _ _ ih => exact (Nat.succ_le_succ ih).trans (Nat.le_succ _)
  | @unicode a b c d s t _ _ _ _ _ _ _ ih =>
    have hutf := utf8_length_le (hexUnit a b c d)
    simp only [List.length_append, List.length_cons]
    omega
  | @surrogates a b c d a' b' c' d' s t _ _ _ _ _ _ _ _ _ _ _ ih =>
    have hutf := utf8_length_le (pair (hexUnit a b c d) (hexUnit a' b' c' d'))
    simp only [List.length_append, List.length_cons]
    omega

/-- A text that is as long as what it stands for has no escapes. -/
theorem Decodes.unescaped_of_length {s t : Text} (h : Decodes s t) (hlen : s.length ≤ t.length) :
    s = t ∧ ∀ c ∈ t, Unescaped c := by
  induction h with
  | nil => exact ⟨rfl, fun c hc => absurd hc List.not_mem_nil⟩
  | unescaped hc hquote hslash _ ih =>
    obtain ⟨rfl, hrest⟩ := ih (Nat.le_of_succ_le_succ hlen)
    exact ⟨rfl, List.forall_mem_cons.mpr ⟨⟨hc, hquote, hslash⟩, hrest⟩⟩
  | escaped _ hrest _ =>
    have hle := hrest.length_le
    simp only [List.length_cons] at hlen
    omega
  | @unicode a b c d s t _ _ _ _ _ _ hrest _ =>
    have hle := hrest.length_le
    have hutf := utf8_length_le (hexUnit a b c d)
    simp only [List.length_append, List.length_cons] at hlen
    omega
  | @surrogates a b c d a' b' c' d' s t _ _ _ _ _ _ _ _ _ _ hrest _ =>
    have hle := hrest.length_le
    have hutf := utf8_length_le (pair (hexUnit a b c d) (hexUnit a' b' c' d'))
    simp only [List.length_append, List.length_cons] at hlen
    omega

/-- A quote in a string stands behind a backslash. -/
theorem Chars.slash_of_quote {s : Text} (h : Chars s) {p q : Text} (hs : s = p ++ 34 :: q) :
    ∃ before, p = before ++ [92] := by
  induction h generalizing p with
  | nil => simp at hs
  | @unescaped c s _ hquote _ _ ih =>
    cases p with
    | nil => exact absurd (List.cons.inj hs).1 hquote
    | cons b p =>
      obtain ⟨before, rfl⟩ := ih (List.cons.inj hs).2
      exact ⟨b :: before, rfl⟩
  | @escaped c s _ _ ih =>
    rcases p with _ | ⟨b, _ | ⟨b', p⟩⟩
    · exact absurd (List.cons.inj hs).1 (by decide)
    · exact ⟨[], by rw [List.nil_append, (List.cons.inj hs).1]⟩
    · obtain ⟨before, rfl⟩ := ih (List.cons.inj (List.cons.inj hs).2).2
      exact ⟨b :: b' :: before, rfl⟩
  | @unicode a b c d s ha hb hc hd _ ih =>
    rcases p with _ | ⟨e₁, _ | ⟨e₂, _ | ⟨e₃, _ | ⟨e₄, _ | ⟨e₅, _ | ⟨e₆, p⟩⟩⟩⟩⟩⟩
    · exact absurd (List.cons.inj hs).1 (by decide)
    · simp at hs
    · simp only [List.cons_append, List.nil_append, List.cons.injEq] at hs
      exact absurd hs.2.2.1 ha.ne.2.1
    · simp only [List.cons_append, List.nil_append, List.cons.injEq] at hs
      exact absurd hs.2.2.2.1 hb.ne.2.1
    · simp only [List.cons_append, List.nil_append, List.cons.injEq] at hs
      exact absurd hs.2.2.2.2.1 hc.ne.2.1
    · simp only [List.cons_append, List.nil_append, List.cons.injEq] at hs
      exact absurd hs.2.2.2.2.2.1 hd.ne.2.1
    · simp only [List.cons_append, List.cons.injEq] at hs
      obtain ⟨before, rfl⟩ := ih hs.2.2.2.2.2.2
      exact ⟨e₁ :: e₂ :: e₃ :: e₄ :: e₅ :: e₆ :: before, rfl⟩

theorem not_chars_quote {s : Text} (h : Chars (34 :: s)) : False := by
  cases h with
  | unescaped _ hquote => exact hquote rfl

/-- **A string ends where it ends**, whatever stands behind its quote. -/
theorem chars_unique {s s' r r' : Text} (h : Chars s) (h' : Chars s')
    (heq : s ++ 34 :: r = s' ++ 34 :: r') : s = s' ∧ r = r' := by
  induction h generalizing s' with
  | nil =>
    cases s' with
    | nil => exact ⟨rfl, (List.cons.inj heq).2⟩
    | cons c s' =>
      rw [← (List.cons.inj heq).1] at h'
      exact (not_chars_quote h').elim
  | unescaped _ hquote hslash _ ih =>
    cases h' with
    | nil => exact absurd (List.cons.inj heq).1 hquote
    | unescaped _ _ _ hrest =>
      obtain ⟨rfl, htail⟩ := List.cons.inj heq
      obtain ⟨rfl, hr⟩ := ih hrest htail
      exact ⟨rfl, hr⟩
    | escaped => exact absurd (List.cons.inj heq).1 hslash
    | unicode => exact absurd (List.cons.inj heq).1 hslash
  | escaped hmem _ ih =>
    cases h' with
    | nil => exact absurd (List.cons.inj heq).1 (by decide)
    | unescaped _ _ hslash => exact absurd (List.cons.inj heq).1.symm hslash
    | escaped _ hrest =>
      obtain ⟨rfl, htail⟩ := List.cons.inj (List.cons.inj heq).2
      obtain ⟨rfl, hr⟩ := ih hrest htail
      exact ⟨rfl, hr⟩
    | unicode =>
      rw [(List.cons.inj (List.cons.inj heq).2).1] at hmem
      exact absurd hmem (by decide)
  | unicode _ _ _ _ _ ih =>
    cases h' with
    | nil => exact absurd (List.cons.inj heq).1 (by decide)
    | unescaped _ _ hslash => exact absurd (List.cons.inj heq).1.symm hslash
    | escaped hmem =>
      rw [← (List.cons.inj (List.cons.inj heq).2).1] at hmem
      exact absurd hmem (by decide)
    | unicode _ _ _ _ hrest =>
      simp only [List.cons_append, List.cons.injEq, true_and] at heq
      obtain ⟨rfl, rfl, rfl, rfl, htail⟩ := heq
      obtain ⟨rfl, hr⟩ := ih hrest htail
      exact ⟨rfl, hr⟩

theorem quoted_append (s r : Text) : quoted s ++ r = 34 :: (s ++ 34 :: r) := by
  rw [quoted, List.cons_append, List.append_assoc]
  rfl

/-! ## Runs of bytes -/

/-- A byte of white space. -/
def SpaceByte (c : UInt8) : Prop := c = 32 ∨ c = 9 ∨ c = 10 ∨ c = 13

instance : DecidablePred SpaceByte := fun _ => inferInstanceAs (Decidable (_ ∨ _ ∨ _ ∨ _))

theorem space_nil : Space [] := fun _ hc => absurd hc List.not_mem_nil

/-- A byte of a number. -/
def NumberByte (c : UInt8) : Prop :=
  c = 43 ∨ c = 45 ∨ c = 46 ∨ c = 69 ∨ c = 101 ∨ (48 ≤ c ∧ c ≤ 57)

instance : DecidablePred NumberByte := fun _ =>
  inferInstanceAs (Decidable (_ ∨ _ ∨ _ ∨ _ ∨ _ ∨ (_ ∧ _)))

instance (s : Text) : Decidable (∀ c ∈ s, NumberByte c) := List.decidableBAll NumberByte s

/-- What stands behind a value. -/
def CloseByte (c : UInt8) : Prop := c = 44 ∨ c = 93 ∨ c = 125

instance : DecidablePred CloseByte := fun _ => inferInstanceAs (Decidable (_ ∨ _ ∨ _))

theorem CloseByte.not_space {c : UInt8} (h : CloseByte c) : ¬ SpaceByte c := by
  rcases h with rfl | rfl | rfl <;> decide

theorem CloseByte.not_number {c : UInt8} (h : CloseByte c) : ¬ NumberByte c := by
  rcases h with rfl | rfl | rfl <;> decide

theorem Digits.numberByte {s : Text} (h : Digits s) : ∀ c ∈ s, NumberByte c :=
  fun c hc => .inr (.inr (.inr (.inr (.inr (h.2 c hc)))))

theorem Integer.digits {s : Text} (h : Integer s) : Digits s := by
  rcases h with rfl | ⟨hdigits, -⟩
  · exact ⟨List.cons_ne_nil _ _, fun c hc => by rw [List.mem_singleton.mp hc]; decide⟩
  · exact hdigits

theorem Number.numberByte {s : Text} (h : Number s) : ∀ c ∈ s, NumberByte c := by
  obtain ⟨sign, int, frac, exp, hsign, hint, hfrac, hexp, rfl⟩ := h
  have hminus : ∀ c ∈ sign, NumberByte c := by
    rcases hsign with rfl | rfl <;> decide
  have hpoint : ∀ c ∈ frac, NumberByte c := by
    rcases hfrac with rfl | ⟨d, hd, rfl⟩
    · decide
    · exact List.forall_mem_cons.mpr ⟨by decide, hd.numberByte⟩
  have htail : ∀ c ∈ exp, NumberByte c := by
    rcases hexp with rfl | ⟨e, sign, d, he, hsign, hd, rfl⟩
    · decide
    · refine List.forall_mem_cons.mpr ⟨?_, List.forall_mem_append.mpr ⟨?_, hd.numberByte⟩⟩
      · rcases he with rfl | rfl <;> decide
      · rcases hsign with rfl | rfl | rfl <;> decide
  exact List.forall_mem_append.mpr ⟨hminus, List.forall_mem_append.mpr ⟨hint.digits.numberByte,
    List.forall_mem_append.mpr ⟨hpoint, htail⟩⟩⟩

/-- A number begins with a digit, perhaps behind a sign. -/
theorem Number.exists_digit {s : Text} (h : Number s) :
    ∃ sign c t, (sign = [] ∨ sign = [45]) ∧ (48 ≤ c ∧ c ≤ 57) ∧ s = sign ++ c :: t := by
  obtain ⟨sign, int, frac, exp, hsign, hint, -, -, rfl⟩ := h
  obtain ⟨hne, hdigit⟩ := hint.digits
  cases int with
  | nil => exact absurd rfl hne
  | cons c int => exact ⟨sign, c, int ++ (frac ++ exp), hsign, hdigit c List.mem_cons_self, rfl⟩

/-! ## Values -/

/-- A number or a string. -/
def Flat (v : Text) : Prop := Number v ∨ ∃ s, Chars s ∧ v = quoted s

theorem Flat.value {v : Text} (h : Flat v) : Value v := by
  rcases h with hnumber | ⟨s, hchars, rfl⟩
  · exact Value.number hnumber
  · exact Value.string hchars

/-- A value is a number, or a string, or its first byte says what else it is. -/
theorem Value.flat_or {v : Text} (h : Value v) :
    Flat v ∨ (∃ t, v = 110 :: 117 :: t) ∨ ∃ c t, v = c :: t ∧ (c = 116 ∨ c = 102 ∨ c = 91 ∨
      c = 123) := by
  cases h with
  | null => exact .inr (.inl ⟨_, rfl⟩)
  | true => exact .inr (.inr ⟨_, _, rfl, .inl rfl⟩)
  | false => exact .inr (.inr ⟨_, _, rfl, .inr (.inl rfl)⟩)
  | number hnumber => exact .inl (.inl hnumber)
  | string hchars => exact .inl (.inr ⟨_, hchars, rfl⟩)
  | emptyArray => exact .inr (.inr ⟨_, _, rfl, .inr (.inr (.inl rfl))⟩)
  | array => exact .inr (.inr ⟨_, _, rfl, .inr (.inr (.inl rfl))⟩)
  | emptyObject => exact .inr (.inr ⟨_, _, rfl, .inr (.inr (.inr rfl))⟩)
  | object => exact .inr (.inr ⟨_, _, rfl, .inr (.inr (.inr rfl))⟩)

theorem Flat.head {v : Text} (h : Flat v) :
    ∃ c t, v = c :: t ∧ (c = 34 ∨ c = 45 ∨ (48 ≤ c ∧ c ≤ 57)) := by
  rcases h with hnumber | ⟨s, -, rfl⟩
  · obtain ⟨sign, c, t, rfl | rfl, hc, rfl⟩ := hnumber.exists_digit
    · exact ⟨c, t, rfl, .inr (.inr hc)⟩
    · exact ⟨45, c :: t, rfl, .inr (.inl rfl)⟩
  · exact ⟨34, s ++ [34], rfl, .inl rfl⟩

theorem not_space_of_digit {c : UInt8} (h : 48 ≤ c ∧ c ≤ 57) : ¬ SpaceByte c := by
  rintro (rfl | rfl | rfl | rfl) <;> exact absurd h (by decide)

/-- The first byte of a value. -/
theorem Value.head {v : Text} (h : Value v) :
    ∃ c t, v = c :: t ∧ ¬ SpaceByte c ∧ ¬ CloseByte c ∧ c ≠ 105 := by
  rcases h.flat_or with hflat | ⟨t, rfl⟩ | ⟨c, t, rfl, hc⟩
  · obtain ⟨c, t, rfl, hc⟩ := hflat.head
    refine ⟨c, t, rfl, ?_⟩
    rcases hc with rfl | rfl | hdigit
    · exact ⟨by decide, by decide, by decide⟩
    · exact ⟨by decide, by decide, by decide⟩
    · refine ⟨not_space_of_digit hdigit, ?_, ?_⟩
      · rintro (rfl | rfl | rfl) <;> exact absurd hdigit (by decide)
      · rintro rfl
        exact absurd hdigit (by decide)
  · exact ⟨110, 117 :: t, rfl, by decide, by decide, by decide⟩
  · refine ⟨c, t, rfl, ?_⟩
    rcases hc with rfl | rfl | rfl | rfl <;>
      exact ⟨by decide, by decide, by decide⟩

theorem Value.head_not_space {v : Text} (h : Value v) (r : Text) :
    ∀ c ∈ (v ++ r).head?, ¬ SpaceByte c := by
  obtain ⟨c, t, rfl, hc, -⟩ := h.head
  intro b hb
  obtain rfl := Option.some.inj hb
  exact hc

/-- What follows a value: no byte of a number. -/
def Follows (r : Text) : Prop := ∀ c ∈ r.head?, ¬ NumberByte c

/-- **A number or a string ends where it ends.** -/
theorem Flat.unique {v v₀ r r₀ : Text} (hv : Value v) (hv₀ : Flat v₀) (hr : Follows r)
    (hr₀ : Follows r₀) (heq : v ++ r = v₀ ++ r₀) : v = v₀ ∧ r = r₀ := by
  obtain ⟨c₀, t₀, hhead, hc₀⟩ := hv₀.head
  rcases hv.flat_or with hflat | ⟨t, rfl⟩ | ⟨c, t, rfl, hc⟩
  · rcases hv₀ with hnumber₀ | ⟨s₀, hchars₀, rfl⟩
    · rcases hflat with hnumber | ⟨s, -, rfl⟩
      · exact span_unique hnumber.numberByte hnumber₀.numberByte hr hr₀ heq
      · rw [hhead] at heq
        have hfirst := hnumber₀.numberByte c₀ (by rw [hhead]; exact List.mem_cons_self)
        rw [← (List.cons.inj heq).1] at hfirst
        exact absurd hfirst (by decide)
    · rcases hflat with hnumber | ⟨s, hchars, rfl⟩
      · obtain ⟨c, t, hv, -⟩ := (Value.number hnumber).head
        have hfirst := hnumber.numberByte c (by rw [hv]; exact List.mem_cons_self)
        rw [hv] at heq
        rw [(List.cons.inj heq).1] at hfirst
        exact absurd hfirst (by decide)
      · simp only [quoted, List.cons_append, List.append_assoc, List.nil_append] at heq
        obtain ⟨rfl, hrest⟩ := chars_unique hchars hchars₀ (List.cons.inj heq).2
        exact ⟨rfl, hrest⟩
  · rw [hhead] at heq
    rw [← (List.cons.inj heq).1] at hc₀
    exact absurd hc₀ (by decide)
  · rw [hhead] at heq
    rw [← (List.cons.inj heq).1] at hc₀
    rcases hc with rfl | rfl | rfl | rfl <;> exact absurd hc₀ (by decide)

/-! ## Values with white space around them -/

/-- What follows an element or a member. -/
def Closes (r : Text) : Prop := ∃ c t, r = c :: t ∧ CloseByte c

theorem Closes.head_not_space {r : Text} (h : Closes r) : ∀ c ∈ r.head?, ¬ SpaceByte c := by
  obtain ⟨c, t, rfl, hc⟩ := h
  intro b hb
  obtain rfl := Option.some.inj hb
  exact hc.not_space

/-- What follows a value, with the white space in front of it. -/
theorem Closes.spaced {w r : Text} (hw : Space w) (h : Closes r) :
    ∃ c t, w ++ r = c :: t ∧ (SpaceByte c ∨ CloseByte c) := by
  obtain ⟨c, t, rfl, hc⟩ := h
  cases w with
  | nil => exact ⟨c, t, rfl, .inr hc⟩
  | cons a w => exact ⟨a, w ++ c :: t, rfl, .inl (hw a List.mem_cons_self)⟩

theorem Closes.follows {w r : Text} (hw : Space w) (h : Closes r) : Follows (w ++ r) := by
  obtain ⟨c, t, htext, hc⟩ := h.spaced hw
  intro b hb
  rw [htext] at hb
  obtain rfl := Option.some.inj hb
  rcases hc with (rfl | rfl | rfl | rfl) | hclose
  · decide
  · decide
  · decide
  · decide
  · exact hclose.not_number

section Front

variable {e : Padded} {r X : Text}

/-- The white space in front of a value. -/
theorem Padded.front (hspaced : e.Spaced) (hvalue : Value e.body) {w : Text} (hw : Space w)
    (hX : ∀ c ∈ X.head?, ¬ SpaceByte c) (heq : e.text ++ r = w ++ X) :
    e.before = w ∧ e.body ++ (e.after ++ r) = X := by
  rw [Padded.text, List.append_assoc, List.append_assoc] at heq
  exact span_unique hspaced.1 hw (hvalue.head_not_space _) hX heq

/-- A text that begins with a number or a string, and goes on behind it. -/
theorem Padded.flat_unique (hspaced : e.Spaced) (hvalue : Value e.body) {v₀ r₀ : Text}
    (hv₀ : Flat v₀) (hr : Closes r) (hr₀ : Closes r₀) (heq : e.text ++ r = v₀ ++ r₀) :
    e.body = v₀ ∧ r = r₀ := by
  obtain ⟨-, hbody⟩ :=
    Padded.front hspaced hvalue (w := []) space_nil (hv₀.value.head_not_space r₀) heq
  obtain ⟨hv, hrest⟩ := hv₀.unique hvalue (hr.follows hspaced.2)
    (hr₀.follows (w := []) space_nil) hbody
  obtain ⟨-, hend⟩ := @span_unique _ SpaceByte _ [] _ _ hspaced.2
    space_nil hr.head_not_space hr₀.head_not_space hrest
  exact ⟨hv, hend⟩

/-- No value begins with a comma or a closing bracket. -/
theorem Padded.not_closes (hspaced : e.Spaced) (hvalue : Value e.body) (hX : Closes X) :
    e.text ++ r ≠ X := by
  intro heq
  obtain ⟨-, hbody⟩ := Padded.front hspaced hvalue (w := []) space_nil hX.head_not_space heq
  obtain ⟨c, t, hhead, -, hc, -⟩ := hvalue.head
  obtain ⟨b, u, rfl, hb⟩ := hX
  rw [hhead] at hbody
  rw [(List.cons.inj hbody).1] at hc
  exact hc hb

end Front

/-! ## Members -/

/-- The members of an object. -/
structure ObjectOf (s : Text) (members : List Member) : Prop where
  spaced : ∀ m ∈ members, m.Spaced
  values : ∀ m ∈ members, Value m.value.body
  text : s = 123 :: (items false (members.map Member.text) ++ [125])

/-- The elements of an array. -/
structure ArrayOf (s : Text) (elements : List Padded) : Prop where
  spaced : ∀ e ∈ elements, e.Spaced
  values : ∀ e ∈ elements, Value e.body
  text : s = 91 :: (items false (elements.map Padded.text) ++ [93])

/-- The value of the member with a key; of several the first one. -/
def valueOf (key : Text) (members : List Member) : Option Text :=
  (members.find? fun m => m.key.body = key).map fun m => m.value.body

theorem ObjectOf.value {s : Text} {members : List Member} (h : ObjectOf s members) : Value s :=
  h.text ▸ Value.object h.spaced h.values

/-- What a member is between. -/
theorem Member.front {m : Member} (hspaced : m.Spaced) {w key r X : Text} (hw : Space w)
    (hkey : Chars key) (heq : m.text ++ r = w ++ (quoted key ++ 58 :: X)) :
    m.key.body = key ∧ m.value.text ++ r = X := by
  obtain ⟨⟨hbefore, hafter⟩, -, hchars⟩ := hspaced
  have hquote : ∀ t : Text, ∀ c ∈ (34 :: t).head?, ¬ SpaceByte c := by
    intro t c hc
    obtain rfl := Option.some.inj hc
    decide
  have hcolon : ∀ t : Text, ∀ c ∈ (58 :: t).head?, ¬ SpaceByte c := by
    intro t c hc
    obtain rfl := Option.some.inj hc
    decide
  simp only [Member.text, quoted, List.append_assoc, List.cons_append, List.nil_append] at heq
  obtain ⟨-, hrest⟩ := span_unique (P := SpaceByte) hbefore hw (hquote _) (hquote _) heq
  obtain ⟨hbody, hrest⟩ := chars_unique hchars hkey (List.cons.inj hrest).2
  obtain ⟨-, hrest⟩ := @span_unique _ SpaceByte _ [] _ _ hafter
    space_nil (hcolon _) (hcolon _) hrest
  exact ⟨hbody, (List.cons.inj hrest).2⟩

/-- A comma, if an item stands in front. -/
def comma (p : Bool) : Text := if p then [44] else []

theorem items_cons_eq (p : Bool) (d : Text) (l : List Text) :
    items p (d :: l) = comma p ++ (d ++ items true l) := rfl

/-- The members that are left close the one in front of them. -/
theorem closes_items (l : List Text) (r : Text) : Closes (items true l ++ 125 :: r) := by
  cases l with
  | nil => exact ⟨125, r, rfl, .inr (.inr rfl)⟩
  | cons d l => exact ⟨44, _, rfl, .inl rfl⟩

section Peeling

variable {members : List Member} {p : Bool} {r X : Text}

/-- **An object that begins with known members** has these members first. -/
theorem exists_append_of_items {known : List (Text × Text)}
    (hknown : ∀ k ∈ known, Chars k.1 ∧ Flat k.2) (hspaced : ∀ m ∈ members, m.Spaced)
    (hvalues : ∀ m ∈ members, Value m.value.body) (hX : Closes X)
    (heq : items p (members.map Member.text) ++ 125 :: r =
      items p (known.map fun k => member k.1 k.2) ++ X) :
    ∃ first rest, members = first ++ rest ∧
      first.map (fun m => (m.key.body, m.value.body)) = known ∧
        items (p || !known.isEmpty) (rest.map Member.text) ++ 125 :: r = X := by
  induction known generalizing members p with
  | nil =>
    refine ⟨[], members, rfl, rfl, ?_⟩
    rw [List.isEmpty_nil, Bool.not_true, Bool.or_false]
    exact heq
  | cons k known ih =>
    obtain ⟨⟨hkey, hflat⟩, hknown⟩ := List.forall_mem_cons.mp hknown
    rw [List.map_cons, items_cons_eq, List.append_assoc] at heq
    cases members with
    | nil => cases p <;> exact absurd (List.cons.inj heq).1 (by decide)
    | cons m members =>
      obtain ⟨hm, hspaced⟩ := List.forall_mem_cons.mp hspaced
      obtain ⟨hv, hvalues⟩ := List.forall_mem_cons.mp hvalues
      rw [List.map_cons, items_cons_eq, List.append_assoc] at heq
      have htail := List.append_cancel_left heq
      rw [List.append_assoc, List.append_assoc] at htail
      obtain ⟨hbody, hvalue⟩ := Member.front hm (w := []) space_nil hkey (by
          rw [htail, member, List.append_assoc]
          rfl)
      have hcloses : Closes (items true (known.map fun k => member k.1 k.2) ++ X) := by
        cases known with
        | nil => exact hX
        | cons k known => exact ⟨44, _, rfl, .inl rfl⟩
      obtain ⟨hval, hrest⟩ := Padded.flat_unique hm.2.1 hv hflat (closes_items _ _) hcloses hvalue
      obtain ⟨first, rest, rfl, hfirst, hend⟩ := ih (p := true) hknown hspaced hvalues hrest
      refine ⟨m :: first, rest, rfl, ?_, ?_⟩
      · rw [List.map_cons, hfirst, hbody, hval]
      · rw [List.isEmpty_cons, Bool.not_false, Bool.or_true]
        exact hend

/-- **Behind known members** stands the next one, up to its colon. -/
theorem exists_member_at {known : List (Text × Text)} {w key : Text}
    (hknown : ∀ k ∈ known, Chars k.1 ∧ Flat k.2) (hne : known ≠ []) (hw : Space w)
    (hkey : Chars key) (hspaced : ∀ m ∈ members, m.Spaced)
    (hvalues : ∀ m ∈ members, Value m.value.body)
    (heq : items p (members.map Member.text) ++ 125 :: r =
      items p (known.map fun k => member k.1 k.2) ++ 44 :: (w ++ (quoted key ++ 58 :: X))) :
    ∃ first m rest, members = first ++ m :: rest ∧
      first.map (fun m => (m.key.body, m.value.body)) = known ∧ m.key.body = key ∧
        m.value.text ++ (items true (rest.map Member.text) ++ 125 :: r) = X := by
  obtain ⟨first, rest, rfl, hfirst, hend⟩ :=
    exists_append_of_items hknown hspaced hvalues ⟨44, _, rfl, .inl rfl⟩ heq
  rw [List.isEmpty_eq_false_iff.mpr hne, Bool.not_false, Bool.or_true] at hend
  cases rest with
  | nil => exact absurd (List.cons.inj hend).1 (by decide)
  | cons m rest =>
    rw [List.map_cons, items_cons_eq, List.append_assoc, List.append_assoc] at hend
    have htail : m.text ++ (items true (rest.map Member.text) ++ 125 :: r) =
        w ++ (quoted key ++ 58 :: X) := (List.cons.inj hend).2
    obtain ⟨hbody, hvalue⟩ := Member.front
      (hspaced m (List.mem_append_right _ List.mem_cons_self)) hw hkey htail
    exact ⟨first, m, rest, rfl, hfirst, hbody, hvalue⟩

/-- What an object is behind its bracket. -/
theorem ObjectOf.front {e : Padded} {R Y : Text} (hspaced : e.Spaced)
    (h : ObjectOf e.body members) (heq : e.text ++ R = 123 :: Y) :
    items false (members.map Member.text) ++ 125 :: (e.after ++ R) = Y := by
  have hopen : ∀ c ∈ (123 :: Y).head?, ¬ SpaceByte c := by
    intro c hc
    obtain rfl := Option.some.inj hc
    decide
  obtain ⟨-, hbody⟩ := Padded.front hspaced h.value (w := []) space_nil hopen heq
  rw [h.text, List.cons_append, List.append_assoc] at hbody
  exact (List.cons.inj hbody).2

/-- **An object of known members** ends where it ends. -/
theorem ObjectOf.flat_unique {e : Padded} {R R₀ : Text} (hspaced : e.Spaced)
    (h : ObjectOf e.body members) {known : List (Text × Text)}
    (hknown : ∀ k ∈ known, Chars k.1 ∧ Flat k.2) (hne : known ≠ []) (hR : Closes R)
    (hR₀ : Closes R₀)
    (heq : e.text ++ R = object (known.map fun k => member k.1 k.2) ++ R₀) : R = R₀ := by
  rw [object, List.cons_append, List.append_assoc] at heq
  have hitems := h.front hspaced heq
  obtain ⟨first, rest, -, -, hend⟩ := exists_append_of_items (X := 125 :: R₀) hknown h.spaced
    h.values ⟨125, R₀, rfl, .inr (.inr rfl)⟩ hitems
  rw [List.isEmpty_eq_false_iff.mpr hne, Bool.not_false, Bool.or_true] at hend
  cases rest with
  | nil =>
    obtain ⟨-, hrest⟩ := @span_unique _ SpaceByte _ [] _ _ hspaced.2
      space_nil hR.head_not_space hR₀.head_not_space
      (List.cons.inj hend).2
    exact hrest
  | cons m rest => exact absurd (List.cons.inj hend).1 (by decide)

/-- An object that begins as one of known members does: the member behind them. -/
theorem ObjectOf.exists_member {e : Padded} {R R₀ : Text} (hspaced : e.Spaced)
    (h : ObjectOf e.body members) {known back : List (Text × Text)} {k : Text × Text}
    (hknown : ∀ k ∈ known, Chars k.1 ∧ Flat k.2) (hne : known ≠ []) (hkey : Chars k.1)
    (heq : e.text ++ R = object ((known ++ k :: back).map fun k => member k.1 k.2) ++ R₀) :
    ∃ first m rest, members = first ++ m :: rest ∧
      first.map (fun m => (m.key.body, m.value.body)) = known ∧ m.key.body = k.1 ∧
        m.value.text ++ (items true (rest.map Member.text) ++ 125 :: (e.after ++ R)) =
          k.2 ++ (items true (back.map fun k => member k.1 k.2) ++ 125 :: R₀) := by
  have hcomma : (false || !(known.map fun k => member k.1 k.2).isEmpty) = true := by
    rw [List.isEmpty_map, List.isEmpty_eq_false_iff.mpr hne]
    rfl
  rw [object, List.cons_append, List.append_assoc] at heq
  have hitems := h.front hspaced heq
  rw [List.map_append, items_append, hcomma, List.map_cons, items_cons_eq, member] at hitems
  refine exists_member_at (w := []) hknown hne space_nil hkey h.spaced h.values
    (hitems.trans ?_)
  simp only [comma, if_true, List.append_assoc, List.cons_append, List.nil_append]

/-- A text between quotes that stands for what it is written from, in front of another string. -/
theorem Decodes.eq_of_append {raw t X Z : Text} (h : Decodes raw t) (hne : X ≠ Z)
    (heq : raw ++ 34 :: X = t ++ 34 :: 44 :: 34 :: Z) : raw = t := by
  have hlength := h.length_le
  rcases List.append_eq_append_iff.mp heq with ⟨b, rfl, -⟩ | ⟨a, rfl, ha⟩
  · rw [List.length_append] at hlength
    rw [List.eq_nil_of_length_eq_zero (l := b) (by omega), List.append_nil]
  · rcases a with _ | ⟨c₁, _ | ⟨c₂, _ | ⟨c₃, a⟩⟩⟩
    · exact List.append_nil t
    · exact absurd (List.cons.inj (List.cons.inj ha).2).1 (by decide)
    · exact absurd (List.cons.inj (List.cons.inj (List.cons.inj ha).2).2).2.symm hne
    · simp only [List.cons_append, List.cons.injEq] at ha
      obtain ⟨rfl, rfl, rfl, -⟩ := ha
      obtain ⟨before, hslash⟩ := h.chars.slash_of_quote (p := t ++ [34, 44]) (q := a)
        (by rw [List.append_assoc]; rfl)
      have hlast := congrArg List.getLast? hslash
      rw [List.getLast?_append, List.getLast?_append] at hlast
      exact absurd hlast (by simp)

end Peeling

/-! ## Texts that are written without white space -/

/-- A member without white space. -/
def plainMember (k : Text × Text) : Member := ⟨⟨[], k.1, []⟩, ⟨[], k.2, []⟩⟩

/-- An element without white space. -/
def plainElement (v : Text) : Padded := ⟨[], v, []⟩

theorem plainMember_text (k : Text × Text) : (plainMember k).text = member k.1 k.2 := by
  show quoted k.1 ++ (58 :: ([] ++ (k.2 ++ []))) = _
  rw [List.append_nil]
  rfl

theorem plainElement_text (v : Text) : (plainElement v).text = v := List.append_nil v

theorem objectOf_plain {known : List (Text × Text)} (h : ∀ k ∈ known, Chars k.1 ∧ Value k.2) :
    ObjectOf (object (known.map fun k => member k.1 k.2)) (known.map plainMember) where
  spaced m hm := by
    obtain ⟨k, hk, rfl⟩ := List.mem_map.mp hm
    exact ⟨⟨space_nil, space_nil⟩, ⟨space_nil, space_nil⟩, (h k hk).1⟩
  values m hm := by
    obtain ⟨k, hk, rfl⟩ := List.mem_map.mp hm
    exact (h k hk).2
  text := by
    rw [List.map_map, object]
    congr 3
    exact List.map_congr_left fun k _ => (plainMember_text k).symm

theorem arrayOf_plain {l : List Text} (h : ∀ v ∈ l, Value v) :
    ArrayOf (array l) (l.map plainElement) where
  spaced e he := by
    obtain ⟨v, -, rfl⟩ := List.mem_map.mp he
    exact ⟨space_nil, space_nil⟩
  values e he := by
    obtain ⟨v, hv, rfl⟩ := List.mem_map.mp he
    exact h v hv
  text := by
    rw [List.map_map, array]
    congr 3
    exact (List.map_id l).symm.trans (List.map_congr_left fun v _ => (plainElement_text v).symm)

/-- Behind members with other keys. -/
theorem valueOf_append {first rest : List Member} {m : Member} {key : Text}
    {known : List (Text × Text)}
    (hfirst : first.map (fun m => (m.key.body, m.value.body)) = known)
    (hknown : ∀ k ∈ known, k.1 ≠ key) (hm : m.key.body = key) :
    valueOf key (first ++ m :: rest) = some m.value.body := by
  have hnone : first.find? (fun m => m.key.body = key) = none :=
    List.find?_eq_none.mpr fun m hm => by
      have hmem := hfirst ▸ List.mem_map_of_mem (f := fun m : Member =>
        (m.key.body, m.value.body)) hm
      simpa using hknown _ hmem
  rw [valueOf, List.find?_append, hnone, List.find?_cons_of_pos (by simpa using hm)]
  rfl

/-- The value of a member that is written behind members with other keys. -/
theorem valueOf_plain {known back : List (Text × Text)} {k : Text × Text}
    (hknown : ∀ k' ∈ known, k'.1 ≠ k.1) :
    valueOf k.1 ((known ++ k :: back).map plainMember) = some k.2 := by
  rw [List.map_append, List.map_cons]
  refine valueOf_append (m := plainMember k) ?_ hknown rfl
  rw [List.map_map]
  exact List.map_id known

/-- The value of a member, where no key is written twice. -/
theorem valueOf_of_mem {known : List (Text × Text)} {k : Text × Text}
    (hnodup : (known.map Prod.fst).Nodup) (hk : k ∈ known) :
    valueOf k.1 (known.map plainMember) = some k.2 := by
  obtain ⟨front, back, rfl⟩ := List.append_of_mem hk
  rw [List.map_append, List.map_cons] at hnodup
  refine valueOf_plain fun k' hk' heq => ?_
  exact (List.nodup_append.mp hnodup).2.2 k'.1 (List.mem_map_of_mem hk') k.1
    List.mem_cons_self heq

end Json
end AmlSubtitle
