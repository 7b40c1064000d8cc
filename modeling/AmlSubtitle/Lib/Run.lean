import Mathlib.Data.List.Infix
import Mathlib.Tactic

/-!
# Runs of a step function

A system that reads events one at a time is a step function `σ → ε → σ`, and a
run of it is the left fold of the step function over the events.  The file
carries the one induction that every safety statement about such a system uses:
what one step preserves, a run preserves.

* `Meets step C s es`: every step of the run from `s` over `es` meets `C`, a
  condition on the state before the step and the event it reads.
* `Reached step s es t`: the run from `s` over `es` passes through `t`.
* `invariant_of_meets`: an invariant of the steps that meet `C` holds in every
  state a run of such steps reaches.
* `forall_reached_iff`: when the condition is exact.
* `invariant`: the same with no condition on the steps.
-/

namespace AmlSubtitle
namespace Run

variable {σ ε : Type*} (step : σ → ε → σ)

/-- Every step of the run meets `C`. -/
def Meets (C : σ → ε → Prop) : σ → List ε → Prop
  | _, [] => True
  | s, e :: es => C s e ∧ Meets C (step s e) es

instance decidableMeets (C : σ → ε → Prop) [∀ s e, Decidable (C s e)] :
    ∀ s es, Decidable (Meets step C s es)
  | _, [] => inferInstanceAs (Decidable True)
  | s, e :: es =>
    have := decidableMeets C (step s e) es
    inferInstanceAs (Decidable (C s e ∧ Meets step C (step s e) es))

/-- The states a run passes through, its first and last state included. -/
def Reached (s : σ) (es : List ε) (t : σ) : Prop :=
  ∃ p, p <+: es ∧ p.foldl step s = t

variable {step}

theorem reached_self (s : σ) (es : List ε) : Reached step s es s :=
  ⟨[], List.nil_prefix, rfl⟩

theorem reached_last (s : σ) (es : List ε) : Reached step s es (es.foldl step s) :=
  ⟨es, List.prefix_rfl, rfl⟩

theorem reached_cons {s t : σ} {e : ε} {es : List ε} :
    Reached step s (e :: es) t ↔ t = s ∨ Reached step (step s e) es t := by
  constructor
  · rintro ⟨p, hp, rfl⟩
    rcases List.prefix_cons_iff.mp hp with rfl | ⟨q, rfl, hq⟩
    · exact Or.inl rfl
    · exact Or.inr ⟨q, hq, rfl⟩
  · rintro (rfl | ⟨p, hp, rfl⟩)
    · exact reached_self _ _
    · exact ⟨e :: p, List.cons_prefix_cons.mpr ⟨rfl, hp⟩, rfl⟩

theorem reached_append {s t : σ} {es es' : List ε} :
    Reached step s (es ++ es') t ↔
      Reached step s es t ∨ Reached step (es.foldl step s) es' t := by
  induction es generalizing s with
  | nil =>
    refine ⟨Or.inr, ?_⟩
    rintro (⟨p, hp, rfl⟩ | h)
    · rw [List.prefix_nil.mp hp]
      exact reached_self _ _
    · exact h
  | cons e es ih =>
    rw [List.cons_append, reached_cons, ih, reached_cons, or_assoc, List.foldl_cons]

/-- **The run lemma.**  What every step meeting `C` preserves holds in every
state reached by a run of such steps. -/
theorem invariant_of_meets {C : σ → ε → Prop} {I : σ → Prop}
    (hstep : ∀ s e, I s → C s e → I (step s e)) {s : σ} {es : List ε} (hs : I s)
    (hC : Meets step C s es) {t : σ} (ht : Reached step s es t) : I t := by
  induction es generalizing s with
  | nil =>
    obtain ⟨p, hp, rfl⟩ := ht
    rw [List.prefix_nil.mp hp]
    exact hs
  | cons e es ih =>
    rcases reached_cons.mp ht with rfl | ht
    · exact hs
    · exact ih (hstep s e hs hC.1) hC.2 ht

/-- A condition on the events alone. -/
theorem meets_of_forall {D : ε → Prop} {s : σ} {es : List ε} (h : ∀ e ∈ es, D e) :
    Meets step (fun _ e => D e) s es := by
  induction es generalizing s with
  | nil => trivial
  | cons e es ih =>
    exact ⟨h e List.mem_cons_self, ih fun e' he' => h e' (List.mem_cons_of_mem _ he')⟩

/-- The run of a list of steps meets `C` when each step meets it in the state it is
taken in. -/
theorem meets_iff {C : σ → ε → Prop} {s : σ} {es : List ε} :
    Meets step C s es ↔ ∀ p e, p ++ [e] <+: es → C (p.foldl step s) e := by
  induction es generalizing s with
  | nil => simp [Meets]
  | cons e es ih =>
    rw [Meets, ih]
    constructor
    · rintro ⟨hhead, htail⟩ p e' hp
      cases p with
      | nil =>
        rw [List.nil_append, List.cons_prefix_cons] at hp
        rw [hp.1]
        exact hhead
      | cons e'' p =>
        rw [List.cons_append, List.cons_prefix_cons] at hp
        rw [hp.1, List.foldl_cons]
        exact htail p e' hp.2
    · intro h
      refine ⟨h [] e (by simp), fun p e' hp => ?_⟩
      exact h (e :: p) e' (List.cons_prefix_cons.mpr ⟨rfl, hp⟩)

/-- **Exact conditions.**  Where a step that meets `C` keeps an invariant that implies
`P`, and one that does not meet it breaks `P`, the runs through states of `P` only are
those whose steps all meet `C`. -/
theorem forall_reached_iff {C : σ → ε → Prop} {I P : σ → Prop} (hP : ∀ s, I s → P s)
    (hstep : ∀ s e, I s → C s e → I (step s e)) (hfail : ∀ s e, I s → ¬ C s e → ¬ P (step s e))
    {s : σ} (hs : I s) (es : List ε) :
    (∀ t, Reached step s es t → P t) ↔ Meets step C s es := by
  refine ⟨fun h => ?_, fun h t ht => hP t (invariant_of_meets hstep hs h ht)⟩
  induction es generalizing s with
  | nil => trivial
  | cons e es ih =>
    have hC : C s e := by
      by_contra hne
      exact hfail s e hs hne (h _ (reached_cons.mpr (Or.inr (reached_self _ _))))
    exact ⟨hC, ih (hstep s e hs hC) fun t ht => h t (reached_cons.mpr (Or.inr ht))⟩

/-- Two conditions that say the same in the states of an invariant say the same of a run. -/
theorem meets_congr {C D : σ → ε → Prop} {I : σ → Prop}
    (hstep : ∀ s e, I s → D s e → I (step s e)) (hCD : ∀ s e, I s → (C s e ↔ D s e)) {s : σ}
    (hs : I s) (es : List ε) : Meets step C s es ↔ Meets step D s es := by
  induction es generalizing s with
  | nil => exact Iff.rfl
  | cons e es ih =>
    rw [Meets, Meets, hCD s e hs]
    exact and_congr_right fun hD => ih (hstep s e hs hD)

/-- A condition on a part of the state that takes its own steps. -/
theorem meets_map {τ : Type*} {step' : τ → ε → τ} (f : σ → τ)
    (hf : ∀ s e, f (step s e) = step' (f s) e) {C : τ → ε → Prop} (s : σ) (es : List ε) :
    Meets step (fun s e => C (f s) e) s es ↔ Meets step' C (f s) es := by
  induction es generalizing s with
  | nil => exact Iff.rfl
  | cons e es ih => rw [Meets, Meets, ih, hf]

/-- The run lemma with no condition on the steps. -/
theorem invariant {I : σ → Prop} (hstep : ∀ s e, I s → I (step s e)) {s : σ} (hs : I s)
    (es : List ε) : I (es.foldl step s) := by
  induction es generalizing s with
  | nil => exact hs
  | cons e es ih => exact ih (hstep s e hs)

end Run
end AmlSubtitle
