import Mathlib.Order.Lattice
import Mathlib.Order.Basic
import Mathlib.Tactic

/-!
# Rectangles and their hull

A rectangle is given by its four edges, ordered by inclusion.  The least rectangle that
holds two others has the outer one of each pair of edges, so rectangles form a
join-semilattice; `hull a l` is the join of a list in any such order, and `hull_le_iff`
says that it is the least upper bound.
-/

namespace AmlSubtitle

/-- A rectangle by its edges. -/
@[ext]
structure Rect (α : Type*) where
  left : α
  top : α
  right : α
  bottom : α
  deriving DecidableEq, Repr

namespace Rect

variable {α : Type*} [LinearOrder α]

/-- Inclusion: no edge lies further in. -/
instance : PartialOrder (Rect α) where
  le a b := b.left ≤ a.left ∧ b.top ≤ a.top ∧ a.right ≤ b.right ∧ a.bottom ≤ b.bottom
  le_refl a := ⟨le_rfl, le_rfl, le_rfl, le_rfl⟩
  le_trans a b c hab hbc :=
    ⟨hbc.1.trans hab.1, hbc.2.1.trans hab.2.1, hab.2.2.1.trans hbc.2.2.1,
      hab.2.2.2.trans hbc.2.2.2⟩
  le_antisymm a b hab hba := by
    ext
    · exact le_antisymm hba.1 hab.1
    · exact le_antisymm hba.2.1 hab.2.1
    · exact le_antisymm hab.2.2.1 hba.2.2.1
    · exact le_antisymm hab.2.2.2 hba.2.2.2

instance : SemilatticeSup (Rect α) where
  sup a b := ⟨min a.left b.left, min a.top b.top, max a.right b.right, max a.bottom b.bottom⟩
  le_sup_left _ _ := ⟨min_le_left _ _, min_le_left _ _, le_max_left _ _, le_max_left _ _⟩
  le_sup_right _ _ := ⟨min_le_right _ _, min_le_right _ _, le_max_right _ _, le_max_right _ _⟩
  sup_le _ _ _ hac hbc :=
    ⟨le_min hac.1 hbc.1, le_min hac.2.1 hbc.2.1, max_le hac.2.2.1 hbc.2.2.1,
      max_le hac.2.2.2 hbc.2.2.2⟩

@[simp] theorem sup_left (a b : Rect α) : (a ⊔ b).left = min a.left b.left := rfl

@[simp] theorem sup_top (a b : Rect α) : (a ⊔ b).top = min a.top b.top := rfl

@[simp] theorem sup_right (a b : Rect α) : (a ⊔ b).right = max a.right b.right := rfl

@[simp] theorem sup_bottom (a b : Rect α) : (a ⊔ b).bottom = max a.bottom b.bottom := rfl

/-- The width between the edges. -/
def width (r : Rect ℤ) : ℤ := r.right - r.left

/-- The height between the edges. -/
def height (r : Rect ℤ) : ℤ := r.bottom - r.top

end Rect

/-! ## Hulls -/

section Hull

variable {α : Type*} [SemilatticeSup α]

/-- The least upper bound of an element and a list. -/
def hull (a : α) (l : List α) : α := l.foldl (· ⊔ ·) a

@[simp] theorem hull_nil (a : α) : hull a [] = a := rfl

@[simp] theorem hull_cons (a b : α) (l : List α) : hull a (b :: l) = hull (a ⊔ b) l := rfl

theorem hull_le_iff {a c : α} {l : List α} : hull a l ≤ c ↔ a ≤ c ∧ ∀ b ∈ l, b ≤ c := by
  induction l generalizing a with
  | nil => simp
  | cons b l ih => rw [hull_cons, ih, sup_le_iff, List.forall_mem_cons, and_assoc]

theorem le_hull (a : α) (l : List α) : a ≤ hull a l := (hull_le_iff.mp le_rfl).1

theorem le_hull_of_mem {a b : α} {l : List α} (h : b ∈ l) : b ≤ hull a l :=
  (hull_le_iff.mp le_rfl).2 b h

end Hull
end AmlSubtitle
