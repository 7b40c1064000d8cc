import Mathlib.Data.List.Pairwise
import Mathlib.Tactic

/-!
# Exchange sort

Two nested loops over an array: for each cell the later cells are compared with it, and a
smaller one is exchanged with it at once.  When the inner loop is done the cell holds the
least of what was left.  On lists the inner loop carries the value of the cell along
(`settle`) and the outer one goes on with the rest.

* `sort_perm`, `sort_pairwise`: the result has the same elements, in order.
* `sort_pairwise_lt`: without repetitions the order is strict.
-/

namespace AmlSubtitle
namespace ExchangeSort

variable {α : Type*} [LinearOrder α]

/-- The inner loop: the value the cell ends with, and the later cells. -/
def settle (x : α) : List α → α × List α
  | [] => (x, [])
  | y :: ys =>
    if y < x then ((settle y ys).1, x :: (settle y ys).2)
    else ((settle x ys).1, y :: (settle x ys).2)

theorem settle_perm (x : α) (ys : List α) :
    ((settle x ys).1 :: (settle x ys).2).Perm (x :: ys) := by
  induction ys generalizing x with
  | nil => exact List.Perm.refl _
  | cons y ys ih =>
    rw [settle]
    split
    · exact (List.Perm.swap _ _ _).trans ((ih y).cons x)
    · exact (List.Perm.swap _ _ _).trans (((ih x).cons y).trans (List.Perm.swap _ _ _))

theorem length_settle (x : α) (ys : List α) : (settle x ys).2.length = ys.length :=
  Nat.succ.inj (settle_perm x ys).length_eq

/-- **The cell ends with the least value.** -/
theorem settle_le (x : α) (ys : List α) : ∀ z ∈ x :: ys, (settle x ys).1 ≤ z := by
  induction ys generalizing x with
  | nil =>
    intro z hz
    rw [List.mem_singleton.mp hz]
    exact le_refl _
  | cons y ys ih =>
    rw [settle]
    split
    · rename_i hlt
      have hy := ih y
      refine List.forall_mem_cons.mpr ⟨?_, hy⟩
      exact (hy y List.mem_cons_self).trans hlt.le
    · rename_i hle
      obtain ⟨hx, hys⟩ := List.forall_mem_cons.mp (ih x)
      refine List.forall_mem_cons.mpr ⟨hx, List.forall_mem_cons.mpr ⟨?_, hys⟩⟩
      exact hx.trans (not_lt.mp hle)

/-- The outer loop. -/
def sort : List α → List α
  | [] => []
  | x :: xs => (settle x xs).1 :: sort (settle x xs).2
termination_by l => l.length
decreasing_by
  rw [length_settle, List.length_cons]
  exact Nat.lt_succ_self _

@[simp] theorem sort_nil : sort ([] : List α) = [] := by rw [sort]

theorem sort_cons (x : α) (xs : List α) :
    sort (x :: xs) = (settle x xs).1 :: sort (settle x xs).2 := by rw [sort]

@[simp] theorem sort_singleton (x : α) : sort [x] = [x] := by
  rw [sort_cons, settle, sort_nil]

theorem sort_perm (l : List α) : (sort l).Perm l := by
  induction l using sort.induct with
  | case1 =>
    rw [sort_nil]
  | case2 x xs ih =>
    rw [sort_cons]
    exact (ih.cons _).trans (settle_perm x xs)

theorem sort_pairwise (l : List α) : (sort l).Pairwise (· ≤ ·) := by
  induction l using sort.induct with
  | case1 =>
    rw [sort_nil]
    exact List.Pairwise.nil
  | case2 x xs ih =>
    rw [sort_cons]
    refine List.pairwise_cons.mpr ⟨fun z hz => settle_le x xs z ?_, ih⟩
    exact (settle_perm x xs).mem_iff.mp (List.mem_cons_of_mem _ ((sort_perm _).mem_iff.mp hz))

/-- **Elements that differ end up in strict order.** -/
theorem sort_pairwise_lt {l : List α} (h : l.Nodup) : (sort l).Pairwise (· < ·) :=
  (sort_pairwise l).imp₂ (fun _ _ hle hne => lt_of_le_of_ne hle hne)
    ((sort_perm l).nodup_iff.mpr h)

end ExchangeSort
end AmlSubtitle
