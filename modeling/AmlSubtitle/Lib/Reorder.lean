import Mathlib.Data.List.Sort
import Mathlib.Tactic

/-!
# Reorder buffers

A reorder buffer takes entries in one order and gives them out in another: it keeps
some of them waiting, sorted, until it releases them from the front.  An entry may
also be passed on without waiting.

The order is a strict order `lt`; entries that `lt` does not separate keep the order
in which they came.  Whatever the buffer does, what it has given out and what is
waiting in it are together what it was given (`all_insert` and its companions), and
what is waiting is sorted (`sorted_insert` and its companions).
-/

namespace AmlSubtitle

/-- The entries waiting in a reorder buffer, and those it has given out. -/
structure Reorder (α : Type*) where
  waiting : List α
  out : List α

namespace Reorder

variable {α : Type*}

/-- An empty buffer that has given out nothing. -/
def empty : Reorder α := ⟨[], []⟩

/-- Give out the first entry. -/
def release (q : Reorder α) : Reorder α := ⟨q.waiting.tail, q.out ++ q.waiting.take 1⟩

/-- Give out every entry. -/
def releaseAll (q : Reorder α) : Reorder α := ⟨[], q.out ++ q.waiting⟩

/-- Give an entry out that has not waited. -/
def pass (q : Reorder α) (a : α) : Reorder α := ⟨q.waiting, q.out ++ [a]⟩

/-- Let an entry wait, behind those it does not come before. -/
def insert (lt : α → α → Prop) [DecidableRel lt] (q : Reorder α) (a : α) : Reorder α :=
  ⟨q.waiting.orderedInsert lt a, q.out⟩

/-- Everything the buffer was given. -/
def all (q : Reorder α) : List α := q.out ++ q.waiting

@[simp] theorem insert_waiting (lt : α → α → Prop) [DecidableRel lt] (q : Reorder α) (a : α) :
    (q.insert lt a).waiting = q.waiting.orderedInsert lt a := rfl

theorem release_of_cons {q : Reorder α} {a : α} {w : List α} (h : q.waiting = a :: w) :
    q.release = ⟨w, q.out ++ [a]⟩ := by
  rw [release, h]
  rfl

/-- Releasing entries one by one. -/
theorem releaseAll_release {q : Reorder α} (h : q.waiting ≠ []) :
    q.release.releaseAll = q.releaseAll := by
  obtain ⟨a, w, hw⟩ := List.exists_cons_of_ne_nil h
  rw [release_of_cons hw, releaseAll, releaseAll, hw, List.append_assoc]
  rfl

theorem releaseAll_of_nil {q : Reorder α} (h : q.waiting = []) : q.releaseAll = q := by
  rw [releaseAll, h, List.append_nil, ← h]

/-! ## Nothing is lost -/

theorem all_release (q : Reorder α) : q.release.all = q.all := by
  rw [all, all, release, List.append_assoc]
  cases q.waiting <;> rfl

theorem all_releaseAll (q : Reorder α) : q.releaseAll.all = q.all := by
  rw [all, all, releaseAll, List.append_nil]

theorem all_pass (q : Reorder α) (a : α) : (q.pass a).all.Perm (q.all ++ [a]) := by
  rw [all, all, pass, List.append_assoc, List.append_assoc]
  exact List.perm_append_comm.append_left q.out

theorem all_insert (lt : α → α → Prop) [DecidableRel lt] (q : Reorder α) (a : α) :
    (q.insert lt a).all.Perm (q.all ++ [a]) := by
  rw [all, all, List.append_assoc]
  refine List.Perm.append_left q.out ?_
  exact (List.perm_orderedInsert lt a q.waiting).trans (List.perm_append_singleton a q.waiting).symm

/-! ## The waiting entries are sorted -/

section Sorted

variable (lt : α → α → Prop)

/-- No entry comes before one that waits in front of it. -/
def Sorted (q : Reorder α) : Prop := q.waiting.Pairwise fun a b => ¬ lt b a

variable {lt} {q : Reorder α}

theorem sorted_empty : (empty : Reorder α).Sorted lt := List.Pairwise.nil

theorem sorted_release (h : q.Sorted lt) : q.release.Sorted lt :=
  h.sublist (List.tail_sublist q.waiting)

theorem sorted_releaseAll : q.releaseAll.Sorted lt := List.Pairwise.nil

/-- **Insertion keeps the order.** -/
theorem sorted_insert [DecidableRel lt] (hasymm : ∀ a b, lt a b → ¬ lt b a)
    (htrans : ∀ a b c, lt a b → lt b c → lt a c) (h : q.Sorted lt) (a : α) :
    (q.insert lt a).Sorted lt := by
  unfold Sorted at h ⊢
  rw [insert_waiting]
  generalize q.waiting = w at h ⊢
  induction w with
  | nil => exact List.pairwise_singleton _ _
  | cons b l ih =>
    obtain ⟨hb, hl⟩ := List.pairwise_cons.mp h
    rw [List.orderedInsert_cons]
    split
    · rename_i hab
      refine List.pairwise_cons.mpr ⟨fun c hc hca => ?_, h⟩
      rcases List.mem_cons.mp hc with rfl | hc
      · exact hasymm a c hab hca
      · exact hb c hc (htrans c a b hca hab)
    · rename_i hab
      refine List.pairwise_cons.mpr ⟨fun c hc => ?_, ih hl⟩
      rcases (List.mem_orderedInsert lt).mp hc with rfl | hc
      · exact hab
      · exact hb c hc

end Sorted

end Reorder
end AmlSubtitle
