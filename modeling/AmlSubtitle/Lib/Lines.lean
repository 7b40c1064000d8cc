import Mathlib.Data.List.TakeWhile
import Mathlib.Tactic

/-!
# Lines of a text

* `lines crlf` splits a text at its line feeds.  Where `crlf` is set, a carriage return in
  front of a line feed is part of the newline.  A last line with no newline is a line.
* `string` is what a buffer has as a string of C: the bytes before the first null.
* `getline` is that of the C++ library, on a stream over a string.
-/

namespace AmlSubtitle
namespace Lines

/-- The lines of a text. -/
def lines (crlf : Bool) : List UInt8 → List (List UInt8)
  | [] => []
  | c :: s =>
    if c = 10 then [] :: lines crlf s
    else if crlf ∧ c = 13 ∧ s.head? = some 10 then lines crlf s
    else
      match lines crlf s with
      | [] => [[c]]
      | l :: ls => (c :: l) :: ls

/-- A carriage return at the end of a line is taken off. -/
def stripCr (l : List UInt8) : List UInt8 := if l.getLast? = some 13 then l.dropLast else l

/-- A line, as `lines` has it. -/
def lineOf (crlf : Bool) (l : List UInt8) : List UInt8 := if crlf then stripCr l else l

/-- The string in a buffer. -/
def string (bytes : List UInt8) : List UInt8 := bytes.takeWhile (· ≠ 0)

/-! ## Carriage returns -/

theorem stripCr_append_singleton (l : List UInt8) : stripCr (l ++ [13]) = l := by
  rw [stripCr, if_pos List.getLast?_concat, List.dropLast_concat]

theorem stripCr_of_ne {l : List UInt8} (h : l.getLast? ≠ some 13) : stripCr l = l := if_neg h

theorem stripCr_cons {c d : UInt8} {l : List UInt8} :
    stripCr (c :: d :: l) = c :: stripCr (d :: l) := by
  rw [stripCr, stripCr, List.getLast?_cons_cons]
  split_ifs
  · rw [List.dropLast_cons_cons]
  · rfl

theorem length_stripCr_le (l : List UInt8) : (stripCr l).length ≤ l.length := by
  rw [stripCr]
  split_ifs
  · rw [List.length_dropLast]
    exact Nat.sub_le _ _
  · exact le_rfl

theorem length_le_stripCr (l : List UInt8) : l.length ≤ (stripCr l).length + 1 := by
  rw [stripCr]
  split_ifs
  · rw [List.length_dropLast]
    omega
  · exact Nat.le_succ _

theorem length_lineOf_le (crlf : Bool) (l : List UInt8) : (lineOf crlf l).length ≤ l.length := by
  cases crlf
  · exact le_rfl
  · exact length_stripCr_le l

/-! ## Lines -/

/-- **A line and its newline come first.** -/
theorem lines_append (crlf : Bool) {l : List UInt8} (h : 10 ∉ l) (rest : List UInt8) :
    lines crlf (l ++ 10 :: rest) = lineOf crlf l :: lines crlf rest := by
  induction l with
  | nil =>
    rw [List.nil_append, lines, if_pos rfl]
    cases crlf <;> rfl
  | cons c l ih =>
    have hc : c ≠ 10 := fun hc => h (hc ▸ List.mem_cons_self)
    have hl : 10 ∉ l := fun hl => h (List.mem_cons_of_mem c hl)
    rw [List.cons_append, lines, if_neg hc, ih hl]
    cases l with
    | nil =>
      cases crlf
      · rfl
      · by_cases h13 : c = 13
        · subst h13
          rfl
        · rw [if_neg fun hh => h13 hh.2.1]
          have hne : [c].getLast? ≠ some 13 := fun hh => h13 (Option.some.inj hh)
          show _ = stripCr [c] :: lines true rest
          rw [stripCr_of_ne hne]
          rfl
    | cons d l =>
      have hd : d ≠ 10 := fun hd => hl (hd ▸ List.mem_cons_self)
      have hhead : ¬ ((d :: l) ++ 10 :: rest).head? = some 10 := fun hh => hd (Option.some.inj hh)
      rw [if_neg fun hh => hhead hh.2.2]
      cases crlf
      · rfl
      · show (c :: stripCr (d :: l)) :: _ = stripCr (c :: d :: l) :: _
        rw [stripCr_cons]

/-- A last line with no newline. -/
theorem lines_of_notMem (crlf : Bool) {l : List UInt8} (h : 10 ∉ l) (hne : l ≠ []) :
    lines crlf l = [l] := by
  induction l with
  | nil => exact absurd rfl hne
  | cons c l ih =>
    have hc : c ≠ 10 := fun hc => h (hc ▸ List.mem_cons_self)
    have hl : 10 ∉ l := fun hl => h (List.mem_cons_of_mem c hl)
    rw [lines, if_neg hc]
    cases l with
    | nil =>
      rw [if_neg fun hh => Option.some_ne_none _ hh.2.2.symm]
      rfl
    | cons d l =>
      have hd : d ≠ 10 := fun hd => hl (hd ▸ List.mem_cons_self)
      rw [if_neg fun hh => hd (Option.some.inj hh.2.2), ih hl (List.cons_ne_nil d l)]

/-- A text is empty, one line with no newline, or a line, its newline and a text. -/
theorem cases_text (s : List UInt8) :
    s = [] ∨ (s ≠ [] ∧ 10 ∉ s) ∨ ∃ l rest, 10 ∉ l ∧ s = l ++ 10 :: rest := by
  by_cases h : 10 ∈ s
  · obtain ⟨l, rest, hs, hl⟩ := List.eq_append_cons_of_mem h
    exact Or.inr (Or.inr ⟨l, rest, hl, hs⟩)
  · by_cases hnil : s = []
    · exact Or.inl hnil
    · exact Or.inr (Or.inl ⟨hnil, h⟩)

/-- Each byte but the newlines is in a line. -/
theorem exists_mem_lines (crlf : Bool) {c : UInt8} (hc : c ≠ 10) (hcr : c ≠ 13) {s : List UInt8}
    (h : c ∈ s) : ∃ l ∈ lines crlf s, c ∈ l := by
  induction s with
  | nil => exact absurd h List.not_mem_nil
  | cons d s ih =>
    rw [lines]
    split_ifs with h1 h2
    · rcases List.mem_cons.mp h with heq | hmem
      · exact absurd (heq.trans h1) hc
      · obtain ⟨l, hl, hcl⟩ := ih hmem
        exact ⟨l, List.mem_cons_of_mem _ hl, hcl⟩
    · rcases List.mem_cons.mp h with heq | hmem
      · exact absurd (heq.trans h2.2.1) hcr
      · exact ih hmem
    · rcases List.mem_cons.mp h with heq | hmem
      · split
        · exact ⟨[d], List.mem_singleton_self _, heq ▸ List.mem_singleton_self _⟩
        · next l ls _ => exact ⟨d :: l, List.mem_cons_self, heq ▸ List.mem_cons_self⟩
      · obtain ⟨l, hl, hcl⟩ := ih hmem
        split
        · next hnil => exact absurd (hnil ▸ hl) List.not_mem_nil
        · next l' ls hcons =>
          rw [hcons] at hl
          rcases List.mem_cons.mp hl with heq | hmem
          · exact ⟨d :: l', List.mem_cons_self, List.mem_cons_of_mem _ (heq ▸ hcl)⟩
          · exact ⟨l, List.mem_cons_of_mem _ hmem, hcl⟩

/-! ## Strings -/

theorem zero_notMem_string (bytes : List UInt8) : 0 ∉ string bytes := by
  intro h
  have := List.mem_takeWhile_imp h
  exact absurd rfl (of_decide_eq_true this)

/-- A line, ended by a null. -/
theorem string_append {l : List UInt8} (h : 0 ∉ l) (tail : List UInt8) :
    string (l ++ 0 :: tail) = l := by
  rw [string, List.takeWhile_append_of_pos]
  · rw [List.takeWhile_cons_of_neg (by decide), List.append_nil]
  · intro c hc
    exact decide_eq_true fun hz => h (hz ▸ hc)

/-- A line that is not ended goes on with what stands behind it. -/
theorem string_append_of_notMem {l tail : List UInt8} (h : 0 ∉ l) (htail : 0 ∉ tail) :
    string (l ++ tail) = l ++ tail := by
  rw [string, List.takeWhile_eq_self_iff]
  intro c hc
  refine decide_eq_true fun hz => ?_
  rcases List.mem_append.mp hc with hc | hc
  · exact h (hz ▸ hc)
  · exact htail (hz ▸ hc)

/-! ## Streams -/

/-- A `std::stringstream` that is read: what is left, and whether it is good. -/
structure Stream where
  rest : List UInt8
  good : Bool
  deriving DecidableEq, Repr

/-- A stream over a string. -/
def Stream.ofString (s : List UInt8) : Stream := ⟨s, true⟩

/-- `std::getline` into `str`: whether it succeeds, the stream and `str` afterwards.  The end of
the string ends the stream, and nothing is read from a stream that is not good. -/
def Stream.getline (ss : Stream) (delim : UInt8) (str : List UInt8) :
    Bool × Stream × List UInt8 :=
  if !ss.good then (false, ss, str)
  else
    match ss.rest.dropWhile (· ≠ delim) with
    | _ :: rest => (true, ⟨rest, true⟩, ss.rest.takeWhile (· ≠ delim))
    | [] => (ss.rest ≠ [], ⟨[], false⟩, ss.rest)

/-- A field in front of a delimiter. -/
theorem Stream.getline_append {f : List UInt8} {delim : UInt8} (h : delim ∉ f)
    (rest str : List UInt8) :
    (Stream.ofString (f ++ delim :: rest)).getline delim str =
      (true, Stream.ofString rest, f) := by
  have hf : ∀ c ∈ f, decide (c ≠ delim) = true := fun c hc =>
    decide_eq_true fun heq => h (heq ▸ hc)
  have htake : (f ++ delim :: rest).takeWhile (· ≠ delim) = f := by
    rw [List.takeWhile_append_of_pos hf, List.takeWhile_cons, if_neg (by simp), List.append_nil]
  have hdrop : (f ++ delim :: rest).dropWhile (· ≠ delim) = delim :: rest := by
    rw [List.dropWhile_append_of_pos hf, List.dropWhile_cons, if_neg (by simp)]
  rw [Stream.getline, Stream.ofString]
  dsimp only
  rw [hdrop, htake]
  rfl

/-- The last field. -/
theorem Stream.getline_of_notMem {f : List UInt8} {delim : UInt8} (h : delim ∉ f)
    (str : List UInt8) : ((Stream.ofString f).getline delim str).2.2 = f := by
  have hdrop : f.dropWhile (· ≠ delim) = [] := by
    rw [List.dropWhile_eq_nil_iff]
    exact fun c hc => decide_eq_true fun heq => h (heq ▸ hc)
  rw [Stream.getline, Stream.ofString]
  dsimp only
  rw [hdrop]
  rfl

end Lines
end AmlSubtitle
