import Mathlib.Data.List.Forall2
import Mathlib.Tactic

/-!
# Two runs in step

A system whose steps can fail is a step function `σ → ε → Option σ`.  Two such systems read
events that are related one by one, and their states are compared after each.

* `run step s es`: the state after the events, if no step fails.
* `Meets step C s es`: every step of the run meets `C`, a condition on the state before the
  step and the event it reads.
* `Meets.of_append`, `Meets.of_append_right`: the condition, for the two parts of a run.
* `Meets.of_prefix`: the condition, at a step in the middle of the run.
* `exists_run`: an invariant with which no step fails; `isSome_run_iff`: the condition with which
  none does.
* `related`: a relation between the states that a pair of steps keeps, where the first of
  them meets `C`, is kept by the runs.
* `recorded next step`: the system with a record beside it that no step looks at.
-/

namespace AmlSubtitle
namespace Lockstep

variable {σ τ γ ε φ : Type*}

/-- A run of steps that can fail. -/
def run (step : σ → ε → Option σ) : σ → List ε → Option σ
  | s, [] => some s
  | s, e :: es => (step s e).bind fun s => run step s es

/-- Every step of the run meets `C`. -/
def Meets (step : σ → ε → Option σ) (C : σ → ε → Prop) : σ → List ε → Prop
  | _, [] => True
  | s, e :: es => C s e ∧ ∀ s' ∈ step s e, Meets step C s' es

instance decidableMeets (step : σ → ε → Option σ) (C : σ → ε → Prop) [∀ s e, Decidable (C s e)] :
    ∀ s es, Decidable (Meets step C s es)
  | _, [] => inferInstanceAs (Decidable True)
  | s, e :: es =>
    have := fun s' => decidableMeets step C s' es
    inferInstanceAs (Decidable (C s e ∧ ∀ s' ∈ step s e, Meets step C s' es))

theorem run_append (step : σ → ε → Option σ) (s : σ) (es fs : List ε) :
    run step s (es ++ fs) = (run step s es).bind fun t => run step t fs := by
  induction es generalizing s with
  | nil => rfl
  | cons e es ih =>
    rw [List.cons_append, run, run, Option.bind_assoc]
    exact congrArg _ (funext ih)

theorem run_append_singleton (step : σ → ε → Option σ) (s : σ) (es : List ε) (e : ε) :
    run step s (es ++ [e]) = (run step s es).bind fun t => step t e := by
  rw [run_append]
  refine congrArg _ (funext fun t => ?_)
  rw [run]
  exact Option.bind_fun_some _

/-- **An invariant** with which every step succeeds: the run does not fail, and keeps it. -/
theorem exists_run {step : σ → ε → Option σ} {I : σ → Prop}
    (hstep : ∀ s e, I s → ∃ s', step s e = some s' ∧ I s') {s : σ} (hs : I s) (es : List ε) :
    ∃ t, run step s es = some t ∧ I t := by
  induction es generalizing s with
  | nil => exact ⟨s, rfl, hs⟩
  | cons e es ih =>
    obtain ⟨s', hstep', hs'⟩ := hstep s e hs
    obtain ⟨t, hrun, ht⟩ := ih hs'
    exact ⟨t, by rw [run, hstep', Option.bind_some, hrun], ht⟩

/-- A run fails exactly with a step that does not meet the condition for a step. -/
theorem isSome_run_iff {step : σ → ε → Option σ} {C : σ → ε → Prop} {I : σ → Prop}
    (hstep : ∀ s e, I s → ((step s e).isSome ↔ C s e) ∧ ∀ s' ∈ step s e, I s') {s : σ} (hs : I s)
    (es : List ε) : (run step s es).isSome ↔ Meets step C s es := by
  induction es generalizing s with
  | nil => exact iff_of_true rfl trivial
  | cons e es ih =>
    obtain ⟨hsome, hkeep⟩ := hstep s e hs
    rw [run, Meets, ← hsome]
    cases hs' : step s e with
    | none => simp
    | some s' =>
      rw [hs'] at hkeep
      simpa using ih (hkeep s' rfl)

/-- The condition, for the first steps of a run. -/
theorem Meets.of_append {step : σ → ε → Option σ} {C : σ → ε → Prop} {s : σ} {es fs : List ε}
    (h : Meets step C s (es ++ fs)) : Meets step C s es := by
  induction es generalizing s with
  | nil => trivial
  | cons e es ih => exact ⟨h.1, fun s' hs' => ih (h.2 s' hs')⟩

/-- The condition, for the steps behind the first ones. -/
theorem Meets.of_append_right {step : σ → ε → Option σ} {C : σ → ε → Prop} {s t : σ}
    {es fs : List ε} (h : Meets step C s (es ++ fs)) (ht : run step s es = some t) :
    Meets step C t fs := by
  induction es generalizing s with
  | nil =>
    cases ht
    exact h
  | cons e es ih =>
    rw [run] at ht
    obtain ⟨s', hs', ht⟩ := Option.bind_eq_some_iff.mp ht
    exact ih (h.2 s' hs') ht

/-- A step of a run meets the condition in the state it is taken in. -/
theorem Meets.of_prefix {step : σ → ε → Option σ} {C : σ → ε → Prop} {s : σ} {es : List ε}
    (h : Meets step C s es) {p : List ε} {e : ε} (hp : p ++ [e] <+: es) {t : σ}
    (ht : run step s p = some t) : C t e := by
  obtain ⟨rest, rfl⟩ := hp
  rw [List.append_assoc] at h
  exact (h.of_append_right ht).1

/-- **Two runs in step.**  What a pair of steps keeps, a pair of runs keeps. -/
theorem related {step : σ → ε → Option σ} {step' : τ → φ → Option τ} {R : σ → τ → Prop}
    {E : ε → φ → Prop} {C : σ → ε → Prop}
    (hstep : ∀ s t e f, R s t → E e f → C s e →
      ∃ s' t', step s e = some s' ∧ step' t f = some t' ∧ R s' t')
    {s : σ} {t : τ} {es : List ε} {fs : List φ} (hE : List.Forall₂ E es fs) (hR : R s t)
    (hC : Meets step C s es) :
    ∃ s' t', run step s es = some s' ∧ run step' t fs = some t' ∧ R s' t' := by
  induction hE generalizing s t with
  | nil => exact ⟨s, t, rfl, rfl, hR⟩
  | cons he _ ih =>
    obtain ⟨s₁, t₁, hs, ht, hR₁⟩ := hstep _ _ _ _ hR he hC.1
    obtain ⟨s', t', hs', ht', hR'⟩ := ih hR₁ (hC.2 s₁ hs)
    refine ⟨s', t', ?_, ?_, hR'⟩
    · rw [run, hs, Option.bind_some, hs']
    · rw [run, ht, Option.bind_some, ht']

/-- A step with a record beside the state. -/
def recorded (next : γ → σ → ε → γ) (step : σ → ε → Option σ) :
    γ × σ → ε → Option (γ × σ) :=
  fun s e => (step s.2 e).map fun s' => (next s.1 s.2 e, s')

theorem recorded_eq_some {next : γ → σ → ε → γ} {step : σ → ε → Option σ} {s : γ × σ} {e : ε}
    {s' : σ} (h : step s.2 e = some s') :
    recorded next step s e = some (next s.1 s.2 e, s') := by
  rw [recorded, h, Option.map_some]

/-- The record changes nothing. -/
theorem run_recorded (next : γ → σ → ε → γ) (step : σ → ε → Option σ) (s : γ × σ)
    (es : List ε) : (run (recorded next step) s es).map Prod.snd = run step s.2 es := by
  induction es generalizing s with
  | nil => rfl
  | cons e es ih =>
    rw [run, run, recorded]
    cases step s.2 e with
    | none => rfl
    | some s' => exact ih (next s.1 s.2 e, s')

end Lockstep
end AmlSubtitle
