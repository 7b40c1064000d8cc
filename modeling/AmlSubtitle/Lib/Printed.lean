import AmlSubtitle.Lib.Scanf

/-!
# Lines that are written for a format

The other direction of `Scanf`: what is written in the pieces of a format is read back.

* `Numeral`: a number in decimal digits that fits an `int`.
* `Piece`: what one directive reads, with its `text`, its `values` and what may stand behind it.
* `scan_pieces`: a format reads back what is written for it.
* `scan_int_ne`, `scan_literal_ne` and `scan_literal_numeral` say where a format gives up.
-/

namespace AmlSubtitle
namespace Scanf

/-! ## Numerals -/

/-- A number in decimal digits that fits an `int`. -/
structure Numeral where
  digits : List UInt8
  ne_nil : digits ≠ []
  all_digits : ∀ c ∈ digits, isDigit c = true
  lt : decimal digits < 2 ^ 31

/-- The number. -/
def Numeral.value (n : Numeral) : ℕ := decimal n.digits

/-- A number in `k + 1` digits. -/
def numeral (k n : ℕ) (h : n < 10 ^ (k + 1)) (h31 : n < 2 ^ 31) : Numeral where
  digits := padded (k + 1) n
  ne_nil := List.ne_nil_of_length_pos (by rw [length_padded]; exact Nat.succ_pos k)
  all_digits := isDigit_of_mem_padded (k + 1) n
  lt := by rwa [decimal_padded, Nat.mod_eq_of_lt h]

theorem value_numeral {k n : ℕ} (h : n < 10 ^ (k + 1)) (h31 : n < 2 ^ 31) :
    (numeral k n h h31).value = n := by
  rw [Numeral.value, numeral, decimal_padded, Nat.mod_eq_of_lt h]

/-- A number below a hundred in two digits. -/
def twoDigits (n : ℕ) : Numeral :=
  numeral 1 (n % 100) (Nat.mod_lt n (by decide)) ((Nat.mod_lt n (by decide)).trans (by decide))

theorem Numeral.exists_cons (n : Numeral) : ∃ d ds, n.digits = d :: ds ∧ isDigit d = true := by
  obtain ⟨d, ds, hds⟩ := List.exists_cons_of_ne_nil n.ne_nil
  exact ⟨d, ds, hds, n.all_digits d (hds ▸ List.mem_cons_self)⟩

theorem scanInt_numeral (n : Numeral) {rest : List UInt8}
    (hrest : ∀ c ∈ rest.head?, isDigit c = false) :
    scanInt (n.digits ++ rest) = some ((n.value : ℤ), rest) := by
  rw [scanInt_digits n.ne_nil n.all_digits hrest, toInt_natCast n.lt]
  rfl

/-- `%d` gives up at a character that begins no number. -/
theorem scanInt_eq_none {c : UInt8} (hspace : isSpace c = false) (hdigit : isDigit c = false)
    (h45 : c ≠ 45) (h43 : c ≠ 43) (s : List UInt8) : scanInt (c :: s) = none := by
  have hdrop : (c :: s).dropWhile isSpace = c :: s :=
    List.dropWhile_cons_of_neg ((Bool.not_eq_true _).mpr hspace)
  have hsign : scanSign (c :: s) = (false, c :: s) := by rw [scanSign, if_neg h45, if_neg h43]
  have htake : (c :: s).takeWhile isDigit = [] :=
    List.takeWhile_cons_of_neg ((Bool.not_eq_true _).mpr hdigit)
  rw [scanInt, hdrop, hsign]
  dsimp only
  rw [htake, if_pos rfl]

/-- `atoi`. -/
def atoi (s : List UInt8) : ℤ :=
  match scanInt s with
  | none => 0
  | some (z, _) => z

theorem atoi_numeral (n : Numeral) {rest : List UInt8}
    (hrest : ∀ c ∈ rest.head?, isDigit c = false) : atoi (n.digits ++ rest) = n.value := by
  rw [atoi, scanInt_numeral n hrest]

/-! ## Where a format gives up -/

/-- A number ends in front of a character that is no digit. -/
theorem not_digit_cons {c : UInt8} (h : isDigit c = false) (s : List UInt8) :
    ∀ d ∈ (c :: s).head?, isDigit d = false := fun _ hd => Option.some.inj hd ▸ h

theorem scan_int_ne {c : UInt8} (hspace : isSpace c = false) (hdigit : isDigit c = false)
    (h45 : c ≠ 45) (h43 : c ≠ 43) (format : List Directive) (s : List UInt8) :
    scan (.int :: format) (c :: s) = [] := by
  rw [scan, scanInt_eq_none hspace hdigit h45 h43]

theorem scan_literal_self (c : UInt8) (format : List Directive) (s : List UInt8) :
    scan (.literal c :: format) (c :: s) = scan format s := by
  rw [scan, if_pos rfl]

theorem scan_literal_ne {c d : UInt8} (h : d ≠ c) (format : List Directive) (s : List UInt8) :
    scan (.literal c :: format) (d :: s) = [] := by
  rw [scan, if_neg h]

theorem scan_literal_numeral {c : UInt8} (h : isDigit c = false) (format : List Directive)
    (n : Numeral) (s : List UInt8) : scan (.literal c :: format) (n.digits ++ s) = [] := by
  obtain ⟨d, ds, hds, hd⟩ := n.exists_cons
  rw [hds, List.cons_append]
  refine scan_literal_ne (fun hdc => ?_) format (ds ++ s)
  rw [← hdc, hd] at h
  exact absurd h (by decide)

theorem scan_int_numeral (n : Numeral) {rest : List UInt8}
    (hrest : ∀ c ∈ rest.head?, isDigit c = false) (format : List Directive) :
    scan (.int :: format) (n.digits ++ rest) = .int n.value :: scan format rest := by
  rw [scan, scanInt_numeral n hrest]

/-! ## Pieces -/

/-- What a directive reads. -/
inductive Piece where
  | number (n : Numeral)
  | letter (c : UInt8)
  | blanks (t : List UInt8)
  | within (set t : List UInt8)
  | without (set t : List UInt8)

/-- The directive that reads it. -/
def Piece.directive : Piece → Directive
  | .number _ => .int
  | .letter c => .literal c
  | .blanks _ => .blank
  | .within set _ => .oneOf set
  | .without set _ => .noneOf set

/-- How it is written. -/
def Piece.text : Piece → List UInt8
  | .number n => n.digits
  | .letter c => [c]
  | .blanks t => t
  | .within _ t => t
  | .without _ t => t

/-- What is assigned of it. -/
def Piece.values : Piece → List Value
  | .number n => [.int n.value]
  | .letter _ => []
  | .blanks _ => []
  | .within _ t => [.text t]
  | .without _ t => [.text t]

/-- The piece can be told from what stands behind it. -/
def Piece.Ends : Piece → List UInt8 → Prop
  | .number _, rest => ∀ c ∈ rest.head?, isDigit c = false
  | .letter _, _ => True
  | .blanks t, rest => (∀ c ∈ t, isSpace c = true) ∧ ∀ c ∈ rest.head?, isSpace c = false
  | .within set t, rest => t ≠ [] ∧ (∀ c ∈ t, c ∈ set) ∧ ∀ c ∈ rest.head?, c ∉ set
  | .without set t, rest => t ≠ [] ∧ (∀ c ∈ t, c ∉ set) ∧ ∀ c ∈ rest.head?, c ∈ set

/-- The text of some pieces. -/
def written (pieces : List Piece) : List UInt8 := pieces.flatMap Piece.text

/-- Each piece can be told from the next one. -/
def Separated : List Piece → List UInt8 → Prop
  | [], _ => True
  | piece :: pieces, rest => piece.Ends (written pieces ++ rest) ∧ Separated pieces rest

theorem separated_letter {c : UInt8} {pieces : List Piece} {rest : List UInt8}
    (h : Separated pieces rest) : Separated (.letter c :: pieces) rest := ⟨trivial, h⟩

/-- A letter that is no digit ends a number. -/
theorem separated_number {c : UInt8} (hc : isDigit c = false) {n : Numeral} {pieces : List Piece}
    {rest : List UInt8} (h : Separated pieces rest) :
    Separated (.number n :: .letter c :: pieces) rest :=
  ⟨fun _ hd => Option.some.inj hd ▸ hc, trivial, h⟩

/-- The last piece takes the rest of a line. -/
theorem separated_without {set t : List UInt8} (hne : t ≠ []) (ht : ∀ c ∈ t, c ∉ set) :
    Separated [.without set t] [] :=
  ⟨⟨hne, ht, fun _ hc => absurd hc (Option.not_mem_none _)⟩, trivial⟩

theorem written_append (pieces pieces' : List Piece) :
    written (pieces ++ pieces') = written pieces ++ written pieces' := List.flatMap_append

/-- What is taken off the front of a text, if the next character does not belong to it. -/
theorem takeWhile_dropWhile_append {p : UInt8 → Bool} {t rest : List UInt8}
    (ht : ∀ c ∈ t, p c = true) (hrest : ∀ c ∈ rest.head?, p c = false) :
    (t ++ rest).takeWhile p = t ∧ (t ++ rest).dropWhile p = rest := by
  rw [List.takeWhile_append_of_pos ht, List.dropWhile_append_of_pos ht]
  cases rest with
  | nil => exact ⟨List.append_nil t, rfl⟩
  | cons c rest =>
    have hc : ¬ p c = true := (Bool.not_eq_true _).mpr (hrest c rfl)
    rw [List.takeWhile_cons_of_neg hc, List.dropWhile_cons_of_neg hc, List.append_nil]
    exact ⟨rfl, rfl⟩

theorem scan_piece {piece : Piece} {rest : List UInt8} (h : piece.Ends rest)
    (format : List Directive) :
    scan (piece.directive :: format) (piece.text ++ rest) = piece.values ++ scan format rest := by
  cases piece with
  | number n => exact scan_int_numeral n h format
  | letter c => exact scan_literal_self c format rest
  | blanks t => exact congrArg (scan format) (takeWhile_dropWhile_append h.1 h.2).2
  | within set t =>
    obtain ⟨hne, ht, hrest⟩ := h
    obtain ⟨htake, hdrop⟩ := takeWhile_dropWhile_append (p := (set.contains ·))
      (fun c hc => List.contains_iff_mem.mpr (ht c hc))
      (fun c hc => (Bool.not_eq_true _).mp fun hh => hrest c hc (List.contains_iff_mem.mp hh))
    rw [Piece.directive, Piece.text, scan, htake, hdrop, if_neg hne]
    rfl
  | without set t =>
    obtain ⟨hne, ht, hrest⟩ := h
    obtain ⟨htake, hdrop⟩ := takeWhile_dropWhile_append (p := fun c => !set.contains c)
      (fun c hc => (Bool.not_eq_true' _).mpr ((Bool.not_eq_true _).mp fun hh =>
        ht c hc (List.contains_iff_mem.mp hh)))
      (fun c hc => (Bool.not_eq_false' _).mpr (List.contains_iff_mem.mpr (hrest c hc)))
    rw [Piece.directive, Piece.text, scan, htake, hdrop, if_neg hne]
    rfl

/-- **A format reads back what is written for it**, and goes on behind that. -/
theorem scan_pieces (pieces : List Piece) (format : List Directive) {rest : List UInt8}
    (h : Separated pieces rest) :
    scan (pieces.map Piece.directive ++ format) (written pieces ++ rest) =
      pieces.flatMap Piece.values ++ scan format rest := by
  induction pieces with
  | nil => rfl
  | cons piece pieces ih =>
    rw [List.map_cons, List.cons_append, written, List.flatMap_cons, List.append_assoc,
      List.flatMap_cons, List.append_assoc, ← ih h.2]
    exact scan_piece h.1 _

/-- The same at the end of a text. -/
theorem scan_written {pieces : List Piece} (h : Separated pieces []) :
    scan (pieces.map Piece.directive) (written pieces) = pieces.flatMap Piece.values := by
  have hscan := scan_pieces pieces [] h
  rwa [List.append_nil, List.append_nil, scan, List.append_nil] at hscan

end Scanf
end AmlSubtitle
