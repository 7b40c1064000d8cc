import Mathlib.Tactic

/-!
# What a list of holders holds together

Each holder `a` of a list holds the entries `f a`; `l.flatMap f` is what they hold together.
One holder is replaced at a time.

* `count_flatMap_set`: how often an entry is held, when one holder is replaced.
* `forall_mem_set`: a property of every holder, when one is replaced.
-/

namespace AmlSubtitle
namespace Held

variable {α β : Type*}

theorem count_flatMap_set [DecidableEq β] (f : α → List β) {l : List α} {i : ℕ} {a : α}
    (h : l[i]? = some a) (a' : α) (x : β) :
    ((l.set i a').flatMap f).count x + (f a).count x =
      (l.flatMap f).count x + (f a').count x := by
  induction l generalizing i with
  | nil => cases h
  | cons b l ih =>
    cases i with
    | zero =>
      rw [List.getElem?_cons_zero, Option.some_inj] at h
      rw [List.set_cons_zero, List.flatMap_cons, List.flatMap_cons, List.count_append,
        List.count_append, h]
      omega
    | succ i =>
      rw [List.getElem?_cons_succ] at h
      have hrest := ih h
      rw [List.set_cons_succ, List.flatMap_cons, List.flatMap_cons, List.count_append,
        List.count_append]
      omega

/-- Holders of the same entries can stand for each other. -/
theorem count_flatMap_set_of_eq [DecidableEq β] (f : α → List β) {l : List α} {i : ℕ} {a a' : α}
    (h : l[i]? = some a) (hf : f a' = f a) (x : β) :
    ((l.set i a').flatMap f).count x = (l.flatMap f).count x := by
  have hset := count_flatMap_set f h a' x
  rw [hf] at hset
  exact Nat.add_right_cancel hset

theorem forall_mem_set {P : α → Prop} {l : List α} {i : ℕ} {a' : α} (h : ∀ a ∈ l, P a)
    (ha' : P a') : ∀ a ∈ l.set i a', P a := by
  intro a ha
  rcases List.mem_or_eq_of_mem_set ha with hmem | rfl
  · exact h a hmem
  · exact ha'

theorem flatMap_replicate_nil {f : α → List β} {a : α} (h : f a = []) (n : ℕ) :
    (List.replicate n a).flatMap f = [] := by
  rw [List.flatMap_eq_nil_iff]
  intro b hb
  rw [List.eq_of_mem_replicate hb, h]

end Held
end AmlSubtitle
