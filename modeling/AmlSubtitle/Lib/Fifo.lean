import Mathlib.Tactic

/-!
# Bounded queues

A queue of at most `cap` entries that accepts what fits and refuses the rest:
what a ring buffer is for, with no positions in it.
-/

namespace AmlSubtitle

/-- A queue holding at most `cap` entries, oldest first. -/
structure Fifo (α : Type*) where
  cap : ℕ
  items : List α
  bounded : items.length ≤ cap

namespace Fifo

variable {α : Type*}

@[ext] theorem ext {q q' : Fifo α} (hcap : q.cap = q'.cap) (hitems : q.items = q'.items) :
    q = q' := by
  cases q
  cases q'
  simp only [mk.injEq]
  exact ⟨hcap, hitems⟩

/-- The number of entries the queue still accepts. -/
def free (q : Fifo α) : ℕ := q.cap - q.items.length

/-- The empty queue. -/
def empty (cap : ℕ) : Fifo α := ⟨cap, [], Nat.zero_le _⟩

/-- Accept the first entries of `src`, as many as fit. -/
def push (q : Fifo α) (src : List α) : Fifo α where
  cap := q.cap
  items := q.items ++ src.take q.free
  bounded := by
    have := q.bounded
    rw [List.length_append, List.length_take, free]
    omega

/-- The first `n` entries, or all of them when there are fewer. -/
def peek (q : Fifo α) (n : ℕ) : List α := q.items.take n

/-- Remove the first `n` entries, or all of them when there are fewer. -/
def pop (q : Fifo α) (n : ℕ) : Fifo α where
  cap := q.cap
  items := q.items.drop n
  bounded := by
    have := q.bounded
    rw [List.length_drop]
    omega

@[simp] theorem empty_items (cap : ℕ) : (empty cap : Fifo α).items = [] := rfl

@[simp] theorem push_cap (q : Fifo α) (src : List α) : (q.push src).cap = q.cap := rfl

@[simp] theorem push_items (q : Fifo α) (src : List α) :
    (q.push src).items = q.items ++ src.take q.free := rfl

@[simp] theorem pop_cap (q : Fifo α) (n : ℕ) : (q.pop n).cap = q.cap := rfl

@[simp] theorem pop_items (q : Fifo α) (n : ℕ) : (q.pop n).items = q.items.drop n := rfl

end Fifo
end AmlSubtitle
