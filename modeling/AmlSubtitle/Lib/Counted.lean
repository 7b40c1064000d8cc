import AmlSubtitle.Lib.Run
import Mathlib.Algebra.BigOperators.Group.Finset.Basic

/-!
# Objects held by counted references

Objects are numbered as they are made.  References to them are kept in places: a place is a
variable, with one reference at most, or a list.  An object counts the references to it and is
deleted when the last of them goes.

* `Op`: what a program does with places.
* `Sound`: every object counts the references there are, and none leads to a deleted object.
* `sound_foldl`: so it stays, and no deleted object is ever used.
-/

namespace AmlSubtitle
namespace Counted

variable {ι : Type*}

/-- Places and objects.  `emptyFronts` counts how often the front of an empty list was asked
for, `deletedUses` how often a deleted object was used. -/
structure Memory (ι : Type*) where
  refs : ι → List ℕ
  count : ℕ → ℕ
  deleted : List ℕ
  next : ℕ
  emptyFronts : ℕ
  deletedUses : ℕ

/-- Nothing is there yet. -/
def Memory.empty : Memory ι where
  refs _ := []
  count _ := 0
  deleted := []
  next := 0
  emptyFronts := 0
  deletedUses := 0

section Steps

variable [DecidableEq ι]

/-- The place `p` gets the references `xs` for those it has. -/
def Memory.assign (m : Memory ι) (p : ι) (xs : List ℕ) : Memory ι :=
  let count := fun x => m.count x + xs.count x - (m.refs p).count x
  { m with
    refs := Function.update m.refs p xs
    count := count
    deleted := m.deleted ++ (m.refs p).filter fun x => count x = 0 }

/-- What a program does with places. -/
inductive Op (ι : Type*) where
  /-- a new object, at the end of the list `p` -/
  | make (p : ι)
  /-- the variable `q` is set to the front of the list `p` -/
  | front (p q : ι)
  | popFront (p : ι)
  /-- the object of the variable `q`, at the end of the list `p` -/
  | pushBack (p q : ι)
  /-- the list `p` is sorted, or only some of it is kept: what it is then -/
  | keep (p : ι) (xs : List ℕ)
  /-- the objects of the place `p` are looked at -/
  | use (p : ι)

/-- One step of a program. -/
def step (m : Memory ι) : Op ι → Memory ι
  | .make p => { m.assign p (m.refs p ++ [m.next]) with next := m.next + 1 }
  | .front p q =>
    { m.assign q ((m.refs p).take 1) with
      emptyFronts := m.emptyFronts + if m.refs p = [] then 1 else 0 }
  | .popFront p => m.assign p (m.refs p).tail
  | .pushBack p q => m.assign p (m.refs p ++ m.refs q)
  | .keep p xs => if xs ⊆ m.refs p then m.assign p xs else m
  | .use p => { m with
      deletedUses := m.deletedUses + ((m.refs p).filter fun x => x ∈ m.deleted).length }

end Steps

/-! ## The places afterwards -/

section Places

variable [DecidableEq ι] (m : Memory ι) (p q : ι) (xs : List ℕ)

@[simp] theorem refs_assign : (m.assign p xs).refs = Function.update m.refs p xs := rfl

@[simp] theorem refs_make :
    (step m (.make p)).refs = Function.update m.refs p (m.refs p ++ [m.next]) := rfl

@[simp] theorem refs_front :
    (step m (.front p q)).refs = Function.update m.refs q ((m.refs p).take 1) := rfl

@[simp] theorem refs_popFront :
    (step m (.popFront p)).refs = Function.update m.refs p (m.refs p).tail := rfl

@[simp] theorem refs_pushBack :
    (step m (.pushBack p q)).refs = Function.update m.refs p (m.refs p ++ m.refs q) := rfl

@[simp] theorem step_use_refs : (step m (.use p)).refs = m.refs := rfl

@[simp] theorem emptyFronts_front : (step m (.front p q)).emptyFronts =
    m.emptyFronts + if m.refs p = [] then 1 else 0 := rfl

@[simp] theorem emptyFronts_popFront : (step m (.popFront p)).emptyFronts = m.emptyFronts := rfl

@[simp] theorem emptyFronts_pushBack :
    (step m (.pushBack p q)).emptyFronts = m.emptyFronts := rfl

@[simp] theorem emptyFronts_keep : (step m (.keep p xs)).emptyFronts = m.emptyFronts := by
  rw [step]
  split_ifs
  · rfl
  · rfl

@[simp] theorem emptyFronts_use : (step m (.use p)).emptyFronts = m.emptyFronts := rfl

/-- Taking `k` references off the front of a list. -/
theorem foldl_popFront (k : ℕ) :
    ((List.replicate k (.popFront p)).foldl step m).refs =
        Function.update m.refs p ((m.refs p).drop k) ∧
      ((List.replicate k (.popFront p)).foldl step m).next = m.next ∧
      ((List.replicate k (.popFront p)).foldl step m).emptyFronts = m.emptyFronts := by
  induction k generalizing m with
  | zero => exact ⟨by simp, rfl, rfl⟩
  | succ k ih =>
    obtain ⟨hrefs, hnext, hfronts⟩ := ih (step m (.popFront p))
    rw [List.replicate_succ, List.foldl_cons]
    exact ⟨by simp [hrefs], hnext, hfronts⟩

theorem step_keep {m : Memory ι} {p : ι} {xs : List ℕ} (h : xs ⊆ m.refs p) :
    step m (.keep p xs) = m.assign p xs := if_pos h

end Places

/-! ## Soundness -/

section Sound

variable [Fintype ι] {m : Memory ι}

/-- How many references there are to an object. -/
def Memory.owners (m : Memory ι) (x : ℕ) : ℕ := ∑ p, (m.refs p).count x

/-- Every object counts the references to it, and a deleted object has none. -/
structure Sound (m : Memory ι) : Prop where
  count : ∀ x, m.count x = m.owners x
  deleted : ∀ x ∈ m.deleted, m.count x = 0 ∧ x < m.next
  next : ∀ p, ∀ x ∈ m.refs p, x < m.next
  uses : m.deletedUses = 0

theorem sound_empty : Sound (Memory.empty : Memory ι) := by
  refine ⟨fun x => ?_, fun x hx => absurd hx List.not_mem_nil,
    fun p x hx => absurd hx List.not_mem_nil, rfl⟩
  simp [Memory.empty, Memory.owners]

theorem count_le_owners (m : Memory ι) (p : ι) (x : ℕ) : (m.refs p).count x ≤ m.owners x :=
  Finset.single_le_sum (f := fun q => (m.refs q).count x) (fun _ _ => Nat.zero_le _)
    (Finset.mem_univ p)

/-- A reference leads to an object that is there. -/
theorem Sound.not_mem_deleted (h : Sound m) {p : ι} {x : ℕ} (hx : x ∈ m.refs p) :
    x ∉ m.deleted := by
  intro hdel
  have hcount := List.count_pos_iff.mpr hx
  have hle := count_le_owners m p x
  rw [← h.count x, (h.deleted x hdel).1] at hle
  omega

variable [DecidableEq ι]

theorem owners_assign (m : Memory ι) (p : ι) (xs : List ℕ) (x : ℕ) :
    (m.assign p xs).owners x + (m.refs p).count x = m.owners x + xs.count x := by
  have hrest : ∑ q ∈ Finset.univ.erase p, ((m.assign p xs).refs q).count x =
      ∑ q ∈ Finset.univ.erase p, (m.refs q).count x := by
    refine Finset.sum_congr rfl fun q hq => ?_
    rw [refs_assign, Function.update_of_ne (Finset.ne_of_mem_erase hq)]
  have hp : ((m.assign p xs).refs p).count x = xs.count x := by
    rw [refs_assign, Function.update_self]
  rw [Memory.owners, Memory.owners, ← Finset.add_sum_erase _ _ (Finset.mem_univ p),
    ← Finset.add_sum_erase _ (fun q => (m.refs q).count x) (Finset.mem_univ p), hrest, hp]
  omega

/-- References copied from others. -/
theorem Sound.assign (h : Sound m) (p : ι) {xs : List ℕ}
    (hxs : ∀ x ∈ xs, ∃ q, x ∈ m.refs q) : Sound (m.assign p xs) := by
  have hcount : ∀ x, (m.assign p xs).count x = (m.assign p xs).owners x := by
    intro x
    have howners := owners_assign m p xs x
    show m.count x + xs.count x - (m.refs p).count x = _
    rw [h.count x]
    omega
  refine ⟨hcount, fun x hx => ?_, fun q x hx => ?_, h.uses⟩
  · rcases List.mem_append.mp hx with hold | hnew
    · -- a deleted object has no reference that could have been copied
      have hnot : x ∉ xs := by
        intro hmem
        obtain ⟨q, hq⟩ := hxs x hmem
        exact h.not_mem_deleted hq hold
      refine ⟨?_, (h.deleted x hold).2⟩
      show m.count x + xs.count x - (m.refs p).count x = 0
      rw [(h.deleted x hold).1, List.count_eq_zero.mpr hnot]
      omega
    · have hmem := List.mem_filter.mp hnew
      exact ⟨of_decide_eq_true hmem.2, h.next p x hmem.1⟩
  · rw [refs_assign] at hx
    by_cases hq : q = p
    · rw [hq, Function.update_self] at hx
      obtain ⟨q', hq'⟩ := hxs x hx
      exact h.next q' x hq'
    · rw [Function.update_of_ne hq] at hx
      exact h.next q x hx

/-- A new object has the reference it is made with. -/
theorem Sound.make (h : Sound m) (p : ι) : Sound (step m (.make p)) := by
  have hnew : ∀ q, (m.refs q).count m.next = 0 := fun q =>
    List.count_eq_zero.mpr fun hmem => absurd (h.next q _ hmem) (lt_irrefl _)
  have hcount : ∀ x, (step m (.make p)).count x = (step m (.make p)).owners x := by
    intro x
    have howners := owners_assign m p (m.refs p ++ [m.next]) x
    show m.count x + (m.refs p ++ [m.next]).count x - (m.refs p).count x =
      (m.assign p (m.refs p ++ [m.next])).owners x
    rw [h.count x]
    omega
  refine ⟨hcount, fun x hx => ?_, fun q x hx => ?_, h.uses⟩
  · have hlt : x ∈ m.deleted ∧ x < m.next := by
      rcases List.mem_append.mp hx with hold | hfresh
      · exact ⟨hold, (h.deleted x hold).2⟩
      · -- nothing is deleted, since no reference goes
        have hmem := List.mem_filter.mp hfresh
        have hpos := List.count_pos_iff.mpr hmem.1
        have hle := count_le_owners m p x
        have hzero : m.count x + (m.refs p ++ [m.next]).count x - (m.refs p).count x = 0 :=
          of_decide_eq_true hmem.2
        rw [h.count x, List.count_append] at hzero
        omega
    refine ⟨?_, Nat.lt_succ_of_lt hlt.2⟩
    have hne : x ≠ m.next := Nat.ne_of_lt hlt.2
    show m.count x + (m.refs p ++ [m.next]).count x - (m.refs p).count x = 0
    rw [(h.deleted x hlt.1).1, List.count_append, List.count_singleton]
    simp [Ne.symm hne]
  · rw [refs_make] at hx
    show x < m.next + 1
    by_cases hq : q = p
    · rw [hq, Function.update_self] at hx
      rcases List.mem_append.mp hx with hold | hfresh
      · exact Nat.lt_succ_of_lt (h.next p x hold)
      · rw [List.mem_singleton.mp hfresh]
        exact Nat.lt_succ_self _
    · rw [Function.update_of_ne hq] at hx
      exact Nat.lt_succ_of_lt (h.next q x hx)

/-- **One step** keeps the counts right and uses no deleted object. -/
theorem Sound.step (h : Sound m) (op : Op ι) : Sound (step m op) := by
  cases op with
  | make p => exact h.make p
  | front p q =>
    have hassign : Sound (m.assign q ((m.refs p).take 1)) :=
      h.assign q fun x hx => ⟨p, List.mem_of_mem_take hx⟩
    exact ⟨hassign.count, hassign.deleted, hassign.next, hassign.uses⟩
  | popFront p => exact h.assign p fun x hx => ⟨p, List.mem_of_mem_tail hx⟩
  | pushBack p q =>
    refine h.assign p fun x hx => ?_
    rcases List.mem_append.mp hx with hp | hq
    · exact ⟨p, hp⟩
    · exact ⟨q, hq⟩
  | keep p xs =>
    show Sound (if xs ⊆ m.refs p then m.assign p xs else m)
    split
    · rename_i hsub
      exact h.assign p fun x hx => ⟨p, hsub hx⟩
    · exact h
  | use p =>
    refine ⟨h.count, h.deleted, h.next, ?_⟩
    have hnone : (m.refs p).filter (fun x => x ∈ m.deleted) = [] :=
      List.filter_eq_nil_iff.mpr fun x hx => by simpa using h.not_mem_deleted hx
    show m.deletedUses + ((m.refs p).filter fun x => x ∈ m.deleted).length = 0
    rw [hnone, h.uses]
    rfl

/-- **No use after deletion**, whatever a program does with its places. -/
theorem sound_foldl (h : Sound m) (ops : List (Op ι)) : Sound (ops.foldl Counted.step m) :=
  Run.invariant (fun _ op h => h.step op) h ops

end Sound

end Counted
end AmlSubtitle
