import Mathlib.Data.List.Basic
import Mathlib.Data.List.Flatten
import Mathlib.Data.List.Infix

/-!
# Lists that are cut at a separator

* `parts`: what stands before, between and behind the separators, which are looked for from the
  left on.
* `between`: the parts that have a separator on both sides; `between_eq` reads them off a list
  that is given part by part.
* `span_unique`: a run of elements ends where it ends.
* `gapped`: words behind any number of separators each; `gapped_unique` tells them apart.
-/

namespace AmlSubtitle
namespace Delimited

variable {α : Type*} [DecidableEq α]

/-- The parts of a list; `acc` is what stands in front since the last separator. -/
def partsFrom (sep acc : List α) : List α → List (List α)
  | [] => [acc]
  | a :: s =>
    if sep <:+ acc ++ [a] then
      (acc ++ [a]).take (acc.length + 1 - sep.length) :: partsFrom sep [] s
    else
      partsFrom sep (acc ++ [a]) s

/-- The parts of a list. -/
def parts (sep s : List α) : List (List α) := partsFrom sep [] s

/-- The parts with a separator on both sides. -/
def between (sep s : List α) : List (List α) := (parts sep s).tail.dropLast

variable {sep acc p s : List α}

/-- What holds no separator stays in one part. -/
theorem partsFrom_append (h : ¬ sep <:+: acc ++ p) (s : List α) :
    partsFrom sep acc (p ++ s) = partsFrom sep (acc ++ p) s := by
  induction p generalizing acc with
  | nil => rw [List.nil_append, List.append_nil]
  | cons a p ih =>
    have hassoc : acc ++ a :: p = acc ++ [a] ++ p := by simp
    have hone : ¬ sep <:+ acc ++ [a] := fun hs => h (by
      rw [hassoc]
      exact hs.isInfix.trans (List.prefix_append _ _).isInfix)
    rw [hassoc] at h
    rw [List.cons_append, partsFrom, if_neg hone, ih h, hassoc]

/-- The first separator ends the first part. -/
theorem partsFrom_sep (hsep : sep ≠ []) (h : ¬ sep <:+: acc ++ sep.dropLast) (s : List α) :
    partsFrom sep acc (sep ++ s) = acc :: partsFrom sep [] s := by
  have hlast : sep.dropLast ++ [sep.getLast hsep] = sep := List.dropLast_append_getLast hsep
  have hsuffix : sep <:+ acc ++ sep.dropLast ++ [sep.getLast hsep] := by
    rw [List.append_assoc, hlast]
    exact List.suffix_append _ _
  have hsplit : sep ++ s = sep.dropLast ++ (sep.getLast hsep :: s) := by
    conv_lhs => rw [← hlast]
    simp
  have hlength : (acc ++ sep.dropLast).length + 1 - sep.length = acc.length := by
    have hpos := List.length_pos_iff.mpr hsep
    rw [List.length_append, List.length_dropLast]
    omega
  rw [hsplit, partsFrom_append h, partsFrom, if_pos hsuffix, hlength, List.append_assoc,
    List.take_left]

/-- The parts between separators of a list that is given part by part. -/
theorem between_eq (hsep : sep ≠ []) {front back : List α} {packets : List (List α)}
    (hfront : ¬ sep <:+: front ++ sep.dropLast)
    (hpackets : ∀ p ∈ packets, ¬ sep <:+: p ++ sep.dropLast) (hback : ¬ sep <:+: back) :
    between sep (front ++ (sep ++ (packets.flatMap (· ++ sep) ++ back))) = packets := by
  have hpart : ∀ {p : List α}, ¬ sep <:+: p ++ sep.dropLast → ∀ s,
      partsFrom sep [] (p ++ (sep ++ s)) = p :: partsFrom sep [] s := by
    intro p hp s
    have hin : ¬ sep <:+: [] ++ p := fun h => hp (h.trans (List.prefix_append p _).isInfix)
    rw [partsFrom_append hin, List.nil_append, partsFrom_sep hsep hp]
  have hrest : partsFrom sep [] (packets.flatMap (· ++ sep) ++ back) = packets ++ [back] := by
    induction packets with
    | nil =>
      have hlast : partsFrom sep [] (back ++ []) = [back] := partsFrom_append hback []
      simpa using hlast
    | cons p packets ih =>
      rw [List.flatMap_cons, List.append_assoc, List.append_assoc,
        hpart (hpackets p List.mem_cons_self),
        ih fun q hq => hpackets q (List.mem_cons_of_mem _ hq)]
      rfl
  rw [between, parts, hpart hfront, hrest]
  simp

/-! ## Words behind counted separators -/

section Gapped

variable {α : Type*}

/-- A run of elements with a property ends where it ends. -/
theorem span_unique {P : α → Prop} {s s' r r' : List α} (hs : ∀ c ∈ s, P c)
    (hs' : ∀ c ∈ s', P c) (hr : ∀ c ∈ r.head?, ¬ P c) (hr' : ∀ c ∈ r'.head?, ¬ P c)
    (heq : s ++ r = s' ++ r') : s = s' ∧ r = r' := by
  induction s generalizing s' with
  | nil =>
    cases s' with
    | nil => exact ⟨rfl, heq⟩
    | cons c s' =>
      rw [List.nil_append, List.cons_append] at heq
      rw [heq] at hr
      exact absurd (hs' c List.mem_cons_self) (hr c rfl)
  | cons c s ih =>
    cases s' with
    | nil =>
      rw [List.nil_append, List.cons_append] at heq
      rw [← heq] at hr'
      exact absurd (hs c List.mem_cons_self) (hr' c rfl)
    | cons c' s' =>
      obtain ⟨rfl, htail⟩ := List.cons.inj heq
      obtain ⟨rfl, hrest⟩ := ih (fun b hb => hs b (List.mem_cons_of_mem _ hb))
        (fun b hb => hs' b (List.mem_cons_of_mem _ hb)) htail
      exact ⟨rfl, hrest⟩

/-- Words, each behind a number of separators. -/
def gapped (sep : α) (words : List (ℕ × List α)) : List α :=
  words.flatMap fun word => List.replicate word.1 sep ++ word.2

variable {sep : α} {words words' : List (ℕ × List α)}

@[simp] theorem gapped_nil : gapped sep [] = [] := rfl

theorem gapped_cons (n : ℕ) (w : List α) :
    gapped sep ((n, w) :: words) = List.replicate n sep ++ (w ++ gapped sep words) := by
  rw [gapped, List.flatMap_cons, List.append_assoc]
  rfl

/-- Words that are not empty and hold no separator. -/
def Plain (sep : α) (words : List (List α)) : Prop := ∀ w ∈ words, w ≠ [] ∧ sep ∉ w

theorem length_filter_gapped [DecidableEq α] (h : Plain sep (words.map Prod.snd)) :
    ((gapped sep words).filter (· ≠ sep)).length = (words.map Prod.snd).flatten.length := by
  induction words with
  | nil => rfl
  | cons word words ih =>
    obtain ⟨n, w⟩ := word
    have hw : w.filter (· ≠ sep) = w :=
      List.filter_eq_self.mpr fun a ha =>
        decide_eq_true fun heq => (h w List.mem_cons_self).2 (heq ▸ ha)
    have hn : (List.replicate n sep).filter (· ≠ sep) = [] :=
      List.filter_eq_nil_iff.mpr fun a ha => by simp [List.eq_of_mem_replicate ha]
    rw [gapped_cons, List.filter_append, List.filter_append, hn, hw, List.nil_append,
      List.length_append, ih fun w' hw' => h w' (List.mem_cons_of_mem _ hw'), List.map_cons,
      List.flatten_cons, List.length_append]

/-- Words and separators can be told apart. -/
theorem gapped_injective (hplain : Plain sep (words.map Prod.snd))
    (hwords : words'.map Prod.snd = words.map Prod.snd)
    (h : gapped sep words' = gapped sep words) : words' = words := by
  induction words generalizing words' with
  | nil => exact List.map_eq_nil_iff.mp hwords
  | cons word words ih =>
    obtain ⟨n, w⟩ := word
    cases words' with
    | nil => exact absurd hwords.symm (List.cons_ne_nil _ _)
    | cons word' words' =>
      obtain ⟨n', w'⟩ := word'
      obtain ⟨rfl, hrest⟩ := List.cons.inj hwords
      obtain ⟨hne, hsep⟩ := hplain w' List.mem_cons_self
      rw [gapped_cons, gapped_cons] at h
      -- a word begins with something else than a separator
      have hhead : ∀ s, ∀ a ∈ (w' ++ s).head?, ¬ a = sep := by
        rintro s a ha rfl
        rw [List.head?_append_of_ne_nil _ hne] at ha
        exact hsep (List.mem_of_mem_head? ha)
      have hsame : ∀ n, ∀ a ∈ List.replicate n sep, a = sep :=
        fun n a ha => List.eq_of_mem_replicate ha
      obtain ⟨hgaps, hbehind⟩ := span_unique (hsame n') (hsame n) (hhead _) (hhead _) h
      have hn : n' = n := by simpa using congrArg List.length hgaps
      rw [hn, ih (fun w hw => hplain w (List.mem_cons_of_mem _ hw)) hrest
        (List.append_cancel_left hbehind)]

/-- No word can be left out without a loss. -/
theorem eq_of_length_flatten {ws ws' : List (List α)} (h : ws'.Sublist ws)
    (hne : ∀ w ∈ ws, w ≠ []) (hlength : ws'.flatten.length = ws.flatten.length) : ws' = ws := by
  induction h with
  | slnil => rfl
  | @cons ws' ws w h ih =>
    have hle := h.flatten.length_le
    have hpos := List.length_pos_iff.mpr (hne w List.mem_cons_self)
    rw [hlength, List.flatten_cons, List.length_append] at hle
    omega
  | @cons_cons ws' ws w h ih =>
    rw [List.flatten_cons, List.flatten_cons, List.length_append, List.length_append] at hlength
    rw [ih (fun w' hw' => hne w' (List.mem_cons_of_mem _ hw')) (by omega)]

/-- **Some of the words are all of them, with the same separators, if they spell the same.** -/
theorem gapped_unique [DecidableEq α] (hplain : Plain sep (words.map Prod.snd))
    (hwords : (words'.map Prod.snd).Sublist (words.map Prod.snd))
    (h : gapped sep words' = gapped sep words) : words' = words := by
  have hplain' : Plain sep (words'.map Prod.snd) := fun w hw => hplain w (hwords.subset hw)
  have hlength : (words'.map Prod.snd).flatten.length = (words.map Prod.snd).flatten.length := by
    rw [← length_filter_gapped hplain', ← length_filter_gapped hplain, h]
  exact gapped_injective hplain
    (eq_of_length_flatten hwords (fun w hw => (hplain w hw).1) hlength) h

end Gapped

end Delimited
end AmlSubtitle
