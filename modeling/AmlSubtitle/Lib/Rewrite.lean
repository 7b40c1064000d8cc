import Mathlib.Tactic

/-!
# Searching and rewriting a text

* `cut needle s` is the first place where a text has the needle: what stands before it, and
  what stands behind it.
* `removeSpan` takes out what stands between two needles, with them.
* `exhaust step` is the loop that takes a step as long as there is one.  When each step makes
  the text shorter, the length of the text is enough fuel (`exhaust_of_some`), and no step is
  left (`step_exhaust`).
* `cut_append` and `cut_append_cons` say what becomes of a search when the text goes on.
-/

namespace AmlSubtitle
namespace Rewrite

variable {α : Type*}

/-- What stands before the first `needle`, and what stands behind it. -/
def cut [DecidableEq α] (needle : List α) : List α → Option (List α × List α)
  | [] => if needle = [] then some ([], []) else none
  | c :: s =>
    if needle <+: c :: s then some ([], (c :: s).drop needle.length)
    else (cut needle s).map fun p => (c :: p.1, p.2)

/-- The first `left` that has a `right` behind it is taken out, up to the end of that. -/
def removeSpan [DecidableEq α] (left right s : List α) : Option (List α) :=
  match cut left s with
  | none => none
  | some (before, rest) => (cut right rest).map fun p => before ++ p.2

/-- A loop that takes a step as long as there is one. -/
def exhaustFuel (step : List α → Option (List α)) : ℕ → List α → List α
  | 0, s => s
  | fuel + 1, s =>
    match step s with
    | none => s
    | some s' => exhaustFuel step fuel s'

/-- What a loop of steps that shorten the text makes of it. -/
def exhaust (step : List α → Option (List α)) (s : List α) : List α :=
  exhaustFuel step s.length s

/-- Each step shortens the text. -/
def Shortens (step : List α → Option (List α)) : Prop :=
  ∀ s s', step s = some s' → s'.length < s.length

/-! ## The first occurrence -/

theorem prefix_of_prefix_append_cons {needle s t : List α} {c : α} (hc : c ∉ needle)
    (h : needle <+: s ++ c :: t) : needle <+: s := by
  rcases Nat.lt_or_ge s.length needle.length with hlt | hge
  · have hs : s ++ [c] <+: s ++ c :: t := ⟨t, by rw [List.append_assoc]; rfl⟩
    have hlen : (s ++ [c]).length ≤ needle.length := by
      rw [List.length_append]
      exact hlt
    have hmem : c ∈ s ++ [c] := List.mem_append_right s (List.mem_singleton_self c)
    exact absurd ((List.prefix_of_prefix_length_le hs h hlen).subset hmem) hc
  · exact List.prefix_of_prefix_length_le h (List.prefix_append s _) hge

section Cut

variable [DecidableEq α]

theorem cut_eq_some {needle s before after : List α} (h : cut needle s = some (before, after)) :
    s = before ++ (needle ++ after) := by
  induction s generalizing before with
  | nil =>
    rw [cut] at h
    split_ifs at h with hnil
    obtain ⟨rfl, rfl⟩ := Prod.mk.inj (Option.some.inj h)
    rw [hnil]
    rfl
  | cons c s ih =>
    rw [cut] at h
    split_ifs at h with hpre
    · obtain ⟨rfl, rfl⟩ := Prod.mk.inj (Option.some.inj h)
      exact (List.prefix_iff_eq_append.mp hpre).symm
    · obtain ⟨⟨before', after'⟩, hcut, heq⟩ := Option.map_eq_some_iff.mp h
      obtain ⟨rfl, rfl⟩ := Prod.mk.inj heq
      rw [ih hcut]
      rfl

/-- **The first occurrence stays** when the text goes on. -/
theorem cut_append {needle s before after : List α} (h : cut needle s = some (before, after))
    (t : List α) : cut needle (s ++ t) = some (before, after ++ t) := by
  induction s generalizing before with
  | nil =>
    rw [cut] at h
    split_ifs at h with hnil
    obtain ⟨rfl, rfl⟩ := Prod.mk.inj (Option.some.inj h)
    subst hnil
    cases t with
    | nil => rfl
    | cons c t => rw [List.nil_append, cut, if_pos (List.nil_prefix)]; rfl
  | cons c s ih =>
    rw [cut] at h
    rw [List.cons_append, cut]
    split_ifs at h with hpre
    · obtain ⟨rfl, rfl⟩ := Prod.mk.inj (Option.some.inj h)
      have hpre' : needle <+: c :: (s ++ t) := hpre.trans (List.prefix_append (c :: s) t)
      rw [if_pos hpre', ← List.cons_append, List.drop_append_of_le_length hpre.length_le]
    · obtain ⟨⟨before', after'⟩, hcut, heq⟩ := Option.map_eq_some_iff.mp h
      obtain ⟨rfl, rfl⟩ := Prod.mk.inj heq
      have hpre' : ¬ needle <+: c :: (s ++ t) := by
        intro hh
        have hlen : needle.length ≤ (c :: s).length := by
          have hs := congrArg List.length (cut_eq_some hcut)
          rw [List.length_append, List.length_append] at hs
          rw [List.length_cons]
          omega
        exact hpre (List.prefix_of_prefix_length_le hh (List.prefix_append (c :: s) t) hlen)
      rw [if_neg hpre', ih hcut]
      rfl

/-- A needle is found wherever it stands. -/
theorem cut_eq_none {needle s : List α} : cut needle s = none ↔ ¬ needle <:+: s := by
  induction s with
  | nil =>
    rw [cut, List.infix_nil]
    split_ifs with hnil
    · exact ⟨False.elim, fun h => h hnil⟩
    · exact ⟨fun _ => hnil, fun _ => rfl⟩
  | cons c s ih =>
    rw [cut, List.infix_cons_iff, not_or, ← ih]
    split_ifs with hpre
    · exact ⟨False.elim, fun h => h.1 hpre⟩
    · rw [Option.map_eq_none_iff]
      exact ⟨fun h => ⟨hpre, h⟩, fun h => h.2⟩

/-- A needle is not found where one of its letters is missing. -/
theorem cut_eq_none_of_notMem {needle s : List α} {c : α} (hc : c ∈ needle) (h : c ∉ s) :
    cut needle s = none :=
  cut_eq_none.mpr fun hsub => h (hsub.subset hc)

/-- **A letter that the needle does not have separates a text.** -/
theorem cut_append_cons {needle s : List α} {c : α} (hc : c ∉ needle)
    (h : cut needle s = none) (t : List α) :
    cut needle (s ++ c :: t) = (cut needle t).map fun p => (s ++ c :: p.1, p.2) := by
  induction s with
  | nil =>
    have hne : ¬ needle <+: c :: t := by
      intro hpre
      rw [cut, if_pos (List.prefix_nil.mp (prefix_of_prefix_append_cons (s := []) hc hpre))] at h
      exact Option.some_ne_none _ h
    rw [List.nil_append, cut, if_neg hne]
    rfl
  | cons d s ih =>
    rw [cut] at h
    split_ifs at h with hpre
    have hpre' : ¬ needle <+: d :: (s ++ c :: t) := fun hh =>
      hpre (prefix_of_prefix_append_cons (s := d :: s) hc hh)
    rw [List.cons_append, cut, if_neg hpre', ih (Option.map_eq_none_iff.mp h), Option.map_map]
    rfl

/-! ## One letter -/

theorem cut_singleton {c : α} {s : List α} (h : c ∉ s) (t : List α) :
    cut [c] (s ++ c :: t) = some (s, t) := by
  induction s with
  | nil => rw [List.nil_append, cut, if_pos ⟨t, rfl⟩]; rfl
  | cons d s ih =>
    have hd : ¬ [c] <+: d :: (s ++ c :: t) := by
      intro hpre
      obtain rfl := (List.cons_prefix_cons.mp hpre).1
      exact h List.mem_cons_self
    rw [List.cons_append, cut, if_neg hd, ih fun hmem => h (List.mem_cons_of_mem d hmem)]
    rfl

theorem cut_singleton_eq_none {c : α} {s : List α} : cut [c] s = none ↔ c ∉ s := by
  constructor
  · intro h hmem
    obtain ⟨s, t, rfl, hs⟩ := List.eq_append_cons_of_mem hmem
    rw [cut_singleton hs] at h
    exact Option.some_ne_none _ h
  · exact cut_eq_none_of_notMem (List.mem_singleton_self c)

end Cut

/-! ## Loops -/

section Loops

variable {step : List α → Option (List α)}

theorem exhaustFuel_succ (hstep : Shortens step) (fuel : ℕ) : ∀ s : List α, s.length ≤ fuel →
    exhaustFuel step (fuel + 1) s = exhaustFuel step fuel s := by
  induction fuel with
  | zero =>
    intro s hs
    conv_lhs => rw [exhaustFuel]
    split
    · rfl
    · next s' hs' =>
      have := hstep s s' hs'
      omega
  | succ fuel ih =>
    intro s hs
    rw [exhaustFuel]
    conv_rhs => rw [exhaustFuel]
    split
    · rfl
    · next s' hs' =>
      have := hstep s s' hs'
      exact ih s' (by omega)

theorem exhaustFuel_eq (hstep : Shortens step) {s : List α} {fuel : ℕ} (h : s.length ≤ fuel) :
    exhaustFuel step fuel s = exhaust step s := by
  induction fuel, h using Nat.le_induction with
  | base => rfl
  | succ fuel h ih => exact (exhaustFuel_succ hstep fuel s h).trans ih

theorem exhaust_of_none {s : List α} (h : step s = none) : exhaust step s = s := by
  cases s with
  | nil => rfl
  | cons c s =>
    rw [exhaust, List.length_cons, exhaustFuel, h]

/-- **The loop goes on** after a step. -/
theorem exhaust_of_some (hstep : Shortens step) {s s' : List α} (h : step s = some s') :
    exhaust step s = exhaust step s' := by
  have hlen := hstep s s' h
  rw [← exhaustFuel_eq hstep (Nat.le_succ s.length), exhaustFuel, h]
  exact exhaustFuel_eq hstep hlen.le

/-- What each step keeps, the loop keeps. -/
theorem exhaust_induction (hstep : Shortens step) {P : List α → List α → Prop}
    (hnone : ∀ s, step s = none → P s s)
    (hsome : ∀ s s', step s = some s' → P s' (exhaust step s') → P s (exhaust step s'))
    (s : List α) : P s (exhaust step s) := by
  induction hn : s.length using Nat.strong_induction_on generalizing s with
  | _ n ih =>
    cases h : step s with
    | none =>
      rw [exhaust_of_none h]
      exact hnone s h
    | some s' =>
      rw [exhaust_of_some hstep h]
      exact hsome s s' h (ih s'.length (hn ▸ hstep s s' h) s' rfl)

/-- **The loop ends** where no step is left. -/
theorem step_exhaust (hstep : Shortens step) (s : List α) : step (exhaust step s) = none :=
  exhaust_induction (P := fun _ t => step t = none) hstep (fun _ h => h) (fun _ _ _ h => h) s

/-- Steps in a text that goes on are steps of the longer text. -/
theorem exhaust_append (hstep : Shortens step) {t : List α}
    (happend : ∀ s s', step s = some s' → step (s ++ t) = some (s' ++ t)) (s : List α) :
    exhaust step (s ++ t) = exhaust step (exhaust step s ++ t) :=
  exhaust_induction (P := fun s s' => exhaust step (s ++ t) = exhaust step (s' ++ t)) hstep
    (fun _ _ => rfl)
    (fun s s' h ih => (exhaust_of_some hstep (happend s s' h)).trans ih) s

/-- A map that steps go along with. -/
theorem exhaust_map (hstep : Shortens step) {f : List α → List α}
    (hf : ∀ s, step (f s) = (step s).map f) (s : List α) :
    exhaust step (f s) = f (exhaust step s) := by
  refine exhaust_induction (P := fun s s' => exhaust step (f s) = f s') hstep ?_ ?_ s
  · intro s h
    refine exhaust_of_none ?_
    rw [hf, h]
    rfl
  · intro s s' h ih
    have hfs : step (f s) = some (f s') := by
      rw [hf, h]
      rfl
    exact (exhaust_of_some hstep hfs).trans ih

end Loops

end Rewrite
end AmlSubtitle
